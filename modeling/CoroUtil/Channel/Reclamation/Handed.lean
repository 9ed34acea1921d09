import CoroUtil.Channel.Reclamation.OutOfReach

/-!
# What `get_hazard_ptr` returns

`hazard_ptr_handed` is what the split lock is for: whoever is given a hazard pointer has
blocks that no committed reclaim has taken out, and a reclaim that he has overtaken is
abandoned.  In `lapped_not_handed` a counter goes all the way round in between.
-/

namespace CoroUtil.Channel

open CoroUtil.General CoroUtil.Blocks

variable {V : Type} {cfg : Config} {s s' : State V} {l : List Nat} {m : Map} {a : Plan}
  {b f k z : Nat} {side : Side} {t u : Tid}

namespace Pc

/-- `reclaimCount` and `ptr` at the check of `get_hazard_ptr`. -/
def checks : Pc V → Option (Nat × Nat)
  | .acquire _ (.check rc p) => some (rc, p)
  | _ => none

/-- It is in `release_ownership`. -/
def frees : Pc V → Bool
  | .free .. => true
  | _ => false

/-- Where it is in `try_reclaim_blocks`. -/
def reclaims : Pc V → Option TryReclaim
  | .read _ _ (.reclaim _ _ r) => some r
  | _ => none

end Pc

/-- `get_hazard_ptr` is at the check that it returns from, with `z` for token `t`. -/
def State.Returns (s : State V) (t : Tid) (z : Nat) : Prop :=
  (s.token t).pc.checks = some (s.reclaimCounter, z)

/-- It returns, or has returned `z` and the token does not give it up. -/
def State.Given (s : State V) (t : Tid) (z : Nat) : Prop :=
  s.Returns t z ∨ (s.token t).haz = some z ∧ (s.token t).pc.frees = false

/-- The block is in the list from `p` on, and no reclaim moves it. -/
def State.After (s : State V) (p b : Nat) : Prop :=
  Reclaim.Leads s.heap p b ∧ ∀ u, b ∉ (s.token u).pc.moves

structure Handed (cfg : Config) (s : State V) : Prop where
  /-- The blocks are at or after the head of the latest committed reclaim. -/
  after : ∀ t z side, s.Given t z → ∃ b, s.getBlock z side = some b ∧ s.After s.committed b
  /-- Neither of the offsets that `get_hazard_ptr` returns with is past a block. -/
  returned : ∀ t z side side' b, s.Returns t z → s.getBlock z side = some b →
    cfg.less .wrapping (s.offset b) ((s.hazard z).nextProtect side') = false
  /-- Nor is the offset of a side past its block later. -/
  protect : ∀ t z side b, s.Given t z → s.getBlock z side = some b →
    cfg.less .wrapping (s.offset b) ((s.hazard z).nextProtect side) = false
  /-- A reclaim that is not abandoned has advanced the blocks to its head or behind it. -/
  advanced : ∀ t z side u x new, s.Given t z → (s.token u).pc.reclaims = some (.check x new) →
    x.count = s.hazPtrCounter → ∃ b, s.getBlock z side = some b ∧ s.After new b

theorem Pc.task_of_checks {pc : Pc V} {rc : Nat} (h : pc.checks = some (rc, z)) :
    pc.task = .acquires (.check rc z) := by
  unfold checks at h
  split at h
  · cases h
    rfl
  · cases h

theorem Pc.of_reclaims {pc : Pc V} {r : TryReclaim} (h : pc.reclaims = some r) :
    ∃ z k idx b, pc = .read z k (.reclaim idx b r) := by
  unfold reclaims at h
  split at h
  · next z k idx b r' =>
    cases h
    exact ⟨z, k, idx, b, rfl⟩
  · cases h

theorem State.Given.has (h : s.Given t z) : s.sight.Has t z := by
  rcases h with hz | ⟨hz, hfree⟩
  · exact .inr (Pc.task_of_checks hz)
  · refine has_of_haz hz fun y q hpc => ?_
    rw [hpc] at hfree
    cases hfree

namespace Sight

theorem Inv.after (h : Inv cfg l s.sight m a) (hf : m.lo ≤ f) (hp : m.At f b) (hk : f ≤ k)
    (hlast : k ≤ m.chain.last) : s.After b (m.chain.block k) := by
  have hleads : Reclaim.Leads s.heap b (m.chain.block k) := by
    rw [← leads_bare, ← hp.2]
    exact .of_le h.heaps.ok (h.heaps.lo.1.trans hf) hk hlast
  exact ⟨hleads, fun u => h.apart hf hp hleads⟩

/-- The block of a seat, on the registers. -/
theorem Seat.getBlock (h : Seat cfg s.sight m f z side) :
    s.getBlock z side = some (m.chain.block (m.pos z side)) := State.getBlock_eq.trans h.block

/-- An offset that is not past the position of a block is not past it on the registers. -/
theorem Seat.less (h : Seat cfg s.sight m m.lo z side) (hinv : Inv cfg l s.sight m a)
    (hw : Window cfg s) (hb : s.getBlock z side = some b) {p : Nat}
    (hp : p ≤ m.pos z side * cfg.blockSize) : cfg.less .wrapping (s.offset b) p = false := by
  have ho : m.chain.block (m.pos z side) = b := Option.some.inj (h.getBlock.symm.trans hb)
  have hoff : s.offset b = m.pos z side * cfg.blockSize := hinv.at_offset ⟨h.last, ho⟩ h.le
  have hlast := hw.last hinv
  have hle : m.pos z side * cfg.blockSize ≤
      (m.chain.last + 1 + (limbo s.sight.run).length) * cfg.blockSize :=
    Nat.mul_le_mul_right _ (h.last.trans (by omega))
  rw [hoff, Config.less_eq (by omega) (by omega)]
  exact decide_eq_false (Nat.not_lt.mpr hp)

theorem Inv.handed (h : Inv cfg l s.sight m a) (hw : Window cfg s) : Handed cfg s where
  after t z side hz := by
    have hs := h.seats t z hz.has side
    refine ⟨_, hs.getBlock, ?_⟩
    rw [show s.committed = m.chain.block m.lo from h.heaps.committed]
    exact h.after le_rfl ⟨h.heaps.lo.2, rfl⟩ hs.le hs.last
  returned t z side side' b hz hb := by
    have hs := h.seats t z (State.Given.has (.inl hz)) side
    have hlow : Low cfg s.sight m z := (h.calling t _ (Pc.task_of_checks hz)).stores
    exact hs.less h hw hb ((hlow side').trans (Nat.mul_le_mul_right _ hs.le))
  protect t z side b hz hb := by
    have hs := h.seats t z hz.has side
    exact hs.less h hw hb hs.protect
  advanced t z side u x new hz hpc hcount := by
    have hs := h.seats t z hz.has side
    obtain ⟨y, k, idx, c, hpc⟩ := Pc.of_reclaims hpc
    have hruns := h.runs
    rw [h.run_eq (t := u) (congrArg Pc.task hpc)] at hruns
    obtain ⟨-, -, ⟨-, hnew⟩, hduty⟩ := hruns
    have hdone := ((hduty t z hz.has).2 hcount side).1
    exact ⟨_, hs.getBlock,
      h.after hnew.le hnew.at_ (Nat.le_of_mul_le_mul_right hdone cfg.blockSize_pos) hs.last⟩

end Sight

/-- **What `get_hazard_ptr` returns**, for any interleaving of the calls with the reclaims
and with the operations. -/
theorem hazard_ptr_handed (h : (system V .wrapping cfg).Reach (Stays cfg) s) : Handed cfg s := by
  obtain ⟨-, hw, -, l, m, a, hinv⟩ := reach_natural h
  exact hinv.handed hw

/-- Token 0 posts six values and pulls five of them, and token 1 starts to call
`try_pull()`. -/
def sixValues : List (Act Nat) :=
  .copy 0 1 :: .copy 0 2 :: .call 2 (.read .tryPull) :: List.replicate 16 (.step 2 false) ++
    .call 0 (.put (.bulk id 6)) :: List.replicate 42 (.step 0 false) ++
    .call 0 (.read .tryPull) :: List.replicate 9 (.step 0 false) ++ .release 0 :: .step 0 false ::
    .call 0 (.read .tryPull) :: List.replicate 17 (.step 0 false) ++ .release 0 :: .step 0 false ::
    .call 0 (.read .tryPull) :: List.replicate 11 (.step 0 false) ++ .release 0 :: .step 0 false ::
    .call 0 (.read .tryPull) :: List.replicate 17 (.step 0 false) ++ .release 0 :: .step 0 false ::
    .call 0 (.read .tryPull) :: List.replicate 11 (.step 0 false) ++ .release 0 :: .step 0 false ::
    .call 1 (.read .tryPull) :: List.replicate 6 (.step 1 false) ++
    .destroy 2 :: List.replicate 3 (.step 2 false)

/-- Token 1 has its hazard pointer before the reclaim of the last pull starts. -/
def earlyAcquire : List (Act Nat) :=
  sixValues ++ List.replicate 7 (.step 1 false) ++
    .call 0 (.read .tryPull) :: List.replicate 51 (.step 0 false)

/-- It goes on when the reclaim is about to store its head. -/
def lateAcquire : List (Act Nat) :=
  sixValues ++ .call 0 (.read .tryPull) :: List.replicate 41 (.step 0 false) ++
    List.replicate 7 (.step 1 false)

/-- The reclaim is abandoned. -/
def lateReclaim : List (Act Nat) := lateAcquire ++ List.replicate 3 (.step 0 false)

theorem hazard_ptr_handed_acquire : (∃ s, (system Nat .wrapping twoElements).Reach
    (Stays twoElements) s ∧ s.Given 1 2 ∧ s.getBlock 2 .write = some 1 ∧
      (s.token 0).pc.reclaims = some (.check ⟨0, 0, 2, 3⟩ 1) ∧ s.hazPtrCounter = 3 ∧
      Handed twoElements s) ∧
    ∃ s, (system Nat .wrapping twoElements).Reach (Stays twoElements) s ∧ s.Given 1 2 ∧
      s.getBlock 2 .write = some 0 ∧ (s.token 0).pc.reclaims = some (.rollback ⟨0, 0, 2, 2⟩) ∧
      Handed twoElements s := by
  constructor
  · have hrun : (earlyAcquire.foldlM (fun s act => if Stays twoElements s act then
        step .wrapping twoElements s act else none) (.init twoElements)).any (fun s =>
          (s.token 1).haz = some 2 && (s.token 1).pc.frees = false &&
            s.getBlock 2 .write = some 1 &&
            (s.token 0).pc.reclaims = some (.check ⟨0, 0, 2, 3⟩ 1) && s.hazPtrCounter = 3) =
        true := by
      decide +kernel
    obtain ⟨s, hs, hand⟩ := (Option.any_eq_true _ _).mp hrun
    simp only [Bool.and_eq_true, decide_eq_true_iff] at hand
    have hreach := System.ofStep_reach earlyAcquire (.init rfl) hs
    exact ⟨s, hreach, .inr hand.1.1.1, hand.1.1.2, hand.1.2, hand.2, hazard_ptr_handed hreach⟩
  · have hrun : (lateReclaim.foldlM (fun s act => if Stays twoElements s act then
        step .wrapping twoElements s act else none) (.init twoElements)).any (fun s =>
          (s.token 1).haz = some 2 && (s.token 1).pc.frees = false &&
            s.getBlock 2 .write = some 0 &&
            (s.token 0).pc.reclaims = some (.rollback ⟨0, 0, 2, 2⟩)) = true := by
      decide +kernel
    obtain ⟨s, hs, hand⟩ := (Option.any_eq_true _ _).mp hrun
    simp only [Bool.and_eq_true, decide_eq_true_iff] at hand
    have hreach := System.ofStep_reach lateReclaim (.init rfl) hs
    exact ⟨s, hreach, .inr hand.1.1, hand.1.2, hand.2, hazard_ptr_handed hreach⟩

/-! ## A counter that goes all the way round -/

section Laps

variable {s : State Nat} {n n' i : Nat} {p p' : HazardPtr} {k k' : Token Nat}
  {r r' : Option (Result Nat)} {g g' : List (Tid × Result Nat)} {pc : Pc Nat}
  {a : Acquire} {q : ReadPc} {f : FreePc}

/-- After `n` more calls of `get_hazard_ptr` on token 2, with what they change. -/
def State.lap (cfg : Config) (s : State Nat) (n : Nat) (p : HazardPtr) (k : Token Nat)
    (r : Option (Result Nat)) (g : List (Tid × Result Nat)) : State Nat :=
  { s with
    hazPtrCounter := word cfg.bits (s.hazPtrCounter + n)
    hazard := Function.update s.hazard 0 p
    token := Function.update s.token 2 k
    last := Function.update s.last 0 r
    log := g }

namespace State

@[simp] theorem token_lap : (s.lap cfg n p k r g).token 2 = k := by
  dsimp only [lap]
  rw [Function.update_self]

@[simp] theorem hazard_lap : (s.lap cfg n p k r g).hazard 0 = p := by
  dsimp only [lap]
  rw [Function.update_self]

@[simp] theorem setToken_lap : (s.lap cfg n p k r g).setToken 2 k' = s.lap cfg n p k' r g := by
  simp [lap, setToken]

@[simp] theorem setPc_lap :
    (s.lap cfg n p k r g).setPc 2 pc = s.lap cfg n p { k with pc } r g := by
  simp [setPc]

@[simp] theorem setHazard_lap : (s.lap cfg n p k r g).setHazard 0 p' = s.lap cfg n p' k r g := by
  simp [lap, setHazard]

@[simp] theorem note_lap {x : Result Nat} :
    (s.lap cfg n p k r g).note 2 0 x = s.lap cfg n p k (some x) (g ++ [(2, x)]) := by
  simp [lap, note]

end State

/-- Token 2 has no channel, and can call `try_pull()`, which is `EMPTY`, again and again. -/
structure Poised (cfg : Config) (s : State Nat) : Prop where
  live : (s.token 0).live = true
  open_ : s.closed = .no
  empty : cfg.less .wrapping s.writeOffset (cfg.reg .wrapping (s.readOffset + 1)) = true

/-- It has called it `n` times. -/
def Lapped (cfg : Config) (s : State Nat) (n : Nat) : Prop :=
  ∃ p k r g, p.owned = false ∧ k.live = false ∧ k.haz = none ∧ k.pc = .idle ∧
    (system Nat .wrapping cfg).Reachable (s.lap cfg n p k r g)

/-- A step of token 2. -/
theorem lap_step (h : (system Nat .wrapping cfg).Reachable (s.lap cfg n p k r g))
    (hs : (s.lap cfg n p k r g).tokenStep .wrapping cfg 2 false =
      some (s.lap cfg n' p' k' r' g')) :
    (system Nat .wrapping cfg).Reachable (s.lap cfg n' p' k' r' g') :=
  h.step (a := .step 2 false) hs

theorem lap_acquire (h : (system Nat .wrapping cfg).Reachable
      (s.lap cfg n p ⟨true, none, .acquire (.read .tryPull) a, i⟩ r g))
    (hs : (s.lap cfg n p ⟨true, none, .acquire (.read .tryPull) a, i⟩ r g).acquireStep .wrapping
      cfg 2 (.read .tryPull) a = s.lap cfg n' p' k' r' g') :
    (system Nat .wrapping cfg).Reachable (s.lap cfg n' p' k' r' g') := by
  refine lap_step h ?_
  rw [State.tokenStep, State.token_lap]
  exact congrArg some hs

theorem lap_read (h : (system Nat .wrapping cfg).Reachable
      (s.lap cfg n p ⟨true, some 0, .read 0 .tryPull q, i⟩ r g))
    (hs : (s.lap cfg n p ⟨true, some 0, .read 0 .tryPull q, i⟩ r g).readStep .wrapping cfg 2 false
      0 .tryPull q = some (s.lap cfg n' p' k' r' g')) :
    (system Nat .wrapping cfg).Reachable (s.lap cfg n' p' k' r' g') := by
  refine lap_step h ?_
  rw [State.tokenStep, State.token_lap]
  exact hs

theorem lap_free (h : (system Nat .wrapping cfg).Reachable
      (s.lap cfg n p ⟨false, some 0, .free 0 f, i⟩ r g))
    (hs : (s.lap cfg n p ⟨false, some 0, .free 0 f, i⟩ r g).freeStep 2 0 f =
      s.lap cfg n' p' k' r' g') :
    (system Nat .wrapping cfg).Reachable (s.lap cfg n' p' k' r' g') := by
  refine lap_step h ?_
  rw [State.tokenStep, State.token_lap]
  exact congrArg some hs

/-- `get_hazard_ptr` for token 2 returns the first hazard pointer. -/
theorem lap_acquires (hp : p.owned = false) (h : (system Nat .wrapping cfg).Reachable
      (s.lap cfg n p ⟨true, none, .acquire (.read .tryPull) .loadCount, i⟩ r g)) :
    ∃ p' r', (system Nat .wrapping cfg).Reachable
      (s.lap cfg (n + 1) p' ⟨true, some 0, .read 0 .tryPull .protect, i⟩ r' g) := by
  have hnext : (system Nat .wrapping cfg).Reachable (s.lap cfg n p
      ⟨true, none, .acquire (.read .tryPull) (.next s.reclaimCounter 0), i⟩ r g) :=
    lap_acquire h State.setPc_lap
  have howned : (system Nat .wrapping cfg).Reachable (s.lap cfg n p
      ⟨true, none, .acquire (.read .tryPull) (.owned s.reclaimCounter 0 p.next), i⟩ r g) := by
    refine lap_acquire hnext ?_
    rw [State.acquireStep, State.hazard_lap]
    exact State.setPc_lap
  have htake : (system Nat .wrapping cfg).Reachable (s.lap cfg n p
      ⟨true, none, .acquire (.read .tryPull) (.take s.reclaimCounter 0 p.next), i⟩ r g) := by
    refine lap_acquire howned ?_
    rw [State.acquireStep, State.hazard_lap, hp]
    exact State.setPc_lap
  have hmine : (system Nat .wrapping cfg).Reachable (s.lap cfg n { p with owned := true }
      ⟨true, none, .acquire (.read .tryPull) (.headOffset s.reclaimCounter 0), i⟩ r g) := by
    refine lap_acquire htake ?_
    rw [State.acquireStep, State.hazard_lap, hp, State.setHazard_lap]
    exact State.setPc_lap
  -- init_haz_ptr
  have hoffset : (system Nat .wrapping cfg).Reachable (s.lap cfg n { p with owned := true }
      ⟨true, none, .acquire (.read .tryPull) (.headBlock s.reclaimCounter 0 s.headOffset), i⟩ r
      g) := lap_acquire hmine State.setPc_lap
  have hblock : (system Nat .wrapping cfg).Reachable (s.lap cfg n { p with owned := true }
      ⟨true, none, .acquire (.read .tryPull)
        (.initActive s.reclaimCounter 0 s.headOffset s.headBlock), i⟩ r g) :=
    lap_acquire hoffset State.setPc_lap
  obtain ⟨p₁, hactive⟩ : ∃ p₁, (system Nat .wrapping cfg).Reachable (s.lap cfg n p₁
      ⟨true, none, .acquire (.read .tryPull) (.initRead s.reclaimCounter 0 s.headBlock), i⟩ r
      g) := by
    exact ⟨_, lap_acquire hblock (by
      rw [State.acquireStep, State.setHazard_lap]
      exact State.setPc_lap)⟩
  obtain ⟨p₂, hread⟩ : ∃ p₂, (system Nat .wrapping cfg).Reachable (s.lap cfg n p₂
      ⟨true, none, .acquire (.read .tryPull) (.initWrite s.reclaimCounter 0 s.headBlock), i⟩ r
      g) := by
    exact ⟨_, lap_acquire hactive (by
      rw [State.acquireStep, State.setBlock, State.setHazard_lap]
      exact State.setPc_lap)⟩
  obtain ⟨p₃, hwrite⟩ : ∃ p₃, (system Nat .wrapping cfg).Reachable (s.lap cfg n p₃
      ⟨true, none, .acquire (.read .tryPull) (.count s.reclaimCounter 0), i⟩ r g) := by
    exact ⟨_, lap_acquire hread (by
      rw [State.acquireStep, State.setBlock, State.setHazard_lap]
      exact State.setPc_lap)⟩
  have hcount : (system Nat .wrapping cfg).Reachable (s.lap cfg (n + 1) p₃
      ⟨true, none, .acquire (.read .tryPull) (.check s.reclaimCounter 0), i⟩ r g) := by
    refine lap_acquire hwrite ?_
    have hcounter : cfg.reg .wrapping (word cfg.bits (s.hazPtrCounter + n) + 1) =
        word cfg.bits (s.hazPtrCounter + (n + 1)) := word_word_add
    calc _ = { s.lap cfg n p₃ ⟨true, none, .acquire (.read .tryPull)
          (.check s.reclaimCounter 0), i⟩ r g with
          hazPtrCounter := cfg.reg .wrapping (word cfg.bits (s.hazPtrCounter + n) + 1) } := by
          simp [State.acquireStep, State.setAcquire, State.setPc, State.setToken, State.lap]
      _ = _ := by
          rw [hcounter]
          rfl
  refine ⟨p₃, none, lap_acquire hcount ?_⟩
  rw [State.acquireStep]
  simp [State.enter, State.setPc, State.setToken, State.lap]

/-- The call is `EMPTY`, and `~chan_tok`. -/
theorem lap_returns (hp : Poised cfg s) (h : (system Nat .wrapping cfg).Reachable
      (s.lap cfg n p ⟨true, some 0, .read 0 .tryPull .protect, i⟩ r g)) : Lapped cfg s n := by
  obtain ⟨p₁, hprotect⟩ : ∃ p₁, (system Nat .wrapping cfg).Reachable (s.lap cfg n p₁
      ⟨true, some 0, .read 0 .tryPull (.loadRead p.nextProtectRead), i⟩ r g) := by
    exact ⟨_, lap_read h (by
      rw [State.readStep, State.hazard_lap, State.setActive, State.setHazard_lap]
      exact congrArg some State.setPc_lap)⟩
  have hread : (system Nat .wrapping cfg).Reachable (s.lap cfg n p₁
      ⟨true, some 0, .read 0 .tryPull (.loadWrite p.nextProtectRead s.readOffset), i⟩ r g) :=
    lap_read hprotect (congrArg some State.setPc_lap)
  have hwrite : (system Nat .wrapping cfg).Reachable (s.lap cfg n p₁
      ⟨true, some 0, .read 0 .tryPull (.tryClosed s.readOffset), i⟩ r g) := by
    refine lap_read hread ?_
    have hempty : cfg.less .wrapping (s.lap cfg n p₁ ⟨true, some 0, .read 0 .tryPull
        (.loadWrite p.nextProtectRead s.readOffset), i⟩ r g).writeOffset
        (cfg.reg .wrapping (s.readOffset + 1)) = true := hp.empty
    rw [State.readStep, hempty]
    exact congrArg some State.setPc_lap
  have hclosed : (system Nat .wrapping cfg).Reachable (s.lap cfg n p₁
      ⟨true, some 0, .read 0 .tryPull (.leaveEmpty s.readOffset), i⟩ r g) := by
    refine lap_read hwrite ?_
    have hopen : (s.lap cfg n p₁ ⟨true, some 0, .read 0 .tryPull (.tryClosed s.readOffset), i⟩ r
        g).closed = .no := hp.open_
    rw [State.readStep, hopen]
    exact congrArg some State.setPc_lap
  obtain ⟨p₂, r₂, g₂, hempty⟩ : ∃ p₂ r₂ g₂, (system Nat .wrapping cfg).Reachable
      (s.lap cfg n p₂ ⟨true, some 0, .idle, i⟩ r₂ g₂) := by
    exact ⟨_, _, _, lap_read hclosed (by
      rw [State.readStep, State.note_lap, State.leave, State.setActive, State.setHazard_lap,
      State.setPc_lap])⟩
  have hdestroy : (system Nat .wrapping cfg).Reachable
      (s.lap cfg n p₂ ⟨false, some 0, .free 0 .writeBlock, i⟩ r₂ g₂) := by
    refine hempty.step (a := .destroy 2) ?_
    simp [system, System.ofStep, step, State.ready, State.freeHazardPtr]
  obtain ⟨p₃, hwriteBlock⟩ : ∃ p₃, (system Nat .wrapping cfg).Reachable
      (s.lap cfg n p₃ ⟨false, some 0, .free 0 .readBlock, i⟩ r₂ g₂) := by
    exact ⟨_, lap_free hdestroy (by
      rw [State.freeStep, State.setBlock, State.setHazard_lap]
      exact State.setPc_lap)⟩
  obtain ⟨p₄, hreadBlock⟩ : ∃ p₄, (system Nat .wrapping cfg).Reachable
      (s.lap cfg n p₄ ⟨false, some 0, .free 0 .owned, i⟩ r₂ g₂) := by
    exact ⟨_, lap_free hwriteBlock (by
      rw [State.freeStep, State.setBlock, State.setHazard_lap]
      exact State.setPc_lap)⟩
  have hfree : (system Nat .wrapping cfg).Reachable
      (s.lap cfg n { p₄ with owned := false } ⟨false, none, .idle, i⟩ r₂ g₂) := by
    refine lap_free hreadBlock ?_
    rw [State.freeStep, State.hazard_lap, State.setHazard_lap, State.token_lap, State.setToken_lap]
  exact ⟨_, _, r₂, g₂, rfl, rfl, rfl, rfl, hfree⟩

theorem Lapped.succ (h : Lapped cfg s n) (hp : Poised cfg s) : Lapped cfg s (n + 1) := by
  obtain ⟨p, ⟨live, haz, pc, i⟩, r, g, hfree, rfl, rfl, rfl, hreach⟩ := h
  have hcopy : (system Nat .wrapping cfg).Reachable
      (s.lap cfg n p ⟨true, none, .idle, i⟩ r g) := by
    refine hreach.step (a := .copy 0 2) ?_
    have hlive : ((s.lap cfg n p ⟨false, none, .idle, i⟩ r g).token 0).live = true := hp.live
    simp [system, System.ofStep, step, State.vacant, hlive]
  have hcall : (system Nat .wrapping cfg).Reachable (s.lap cfg n p
      ⟨true, none, .acquire (.read .tryPull) .loadCount, i + 1⟩ r g) := by
    refine hcopy.step (a := .call 2 (.read .tryPull)) ?_
    simp [system, System.ofStep, step, State.ready, State.call, Call.valid]
  obtain ⟨p', r', hacquired⟩ := lap_acquires hfree hcall
  exact lap_returns hp hacquired

theorem Lapped.all (h : Lapped cfg s 0) (hp : Poised cfg s) : ∀ n, Lapped cfg s n
  | 0 => h
  | n + 1 => (Lapped.all h hp n).succ hp

/-- The three steps from the store of the head to a check that passes. -/
theorem passes {y idx c new : Nat} {k : Read} {x : Scan}
    (h : (system Nat .wrapping cfg).Reachable s)
    (hpc : (s.token 0).pc = .read y k (.reclaim idx c (.storeHead x new)))
    (hcount : x.count = s.hazPtrCounter) :
    (system Nat .wrapping cfg).Reachable { s with
      headBlock := new
      reclaimCounter := cfg.reg .wrapping (s.reclaimCounter + 1)
      committed := new
      token := Function.update s.token 0
        { s.token 0 with pc := .read y k (.reclaim idx c (.newOffset x new)) } } := by
  have hstore : (system Nat .wrapping cfg).Reachable { s with
      headBlock := new
      token := Function.update s.token 0
        { s.token 0 with pc := .read y k (.reclaim idx c (.count x new)) } } := by
    refine h.step (a := .step 0 false) ?_
    simp [system, System.ofStep, step, State.tokenStep, hpc, State.readStep, State.reclaimStep,
      State.setRead, State.setPc, State.setToken]
  have hcounted : (system Nat .wrapping cfg).Reachable { s with
      headBlock := new
      reclaimCounter := cfg.reg .wrapping (s.reclaimCounter + 1)
      token := Function.update s.token 0
        { s.token 0 with pc := .read y k (.reclaim idx c (.check x new)) } } := by
    refine hstore.step (a := .step 0 false) ?_
    simp [system, System.ofStep, step, State.tokenStep, State.readStep, State.reclaimStep,
      State.setRead, State.setPc, State.setToken]
  refine hcounted.step (a := .step 0 false) ?_
  simp [system, System.ofStep, step, State.tokenStep, State.readStep, State.reclaimStep,
    State.setRead, State.setPc, State.setToken, hcount]

/-- `2 ^ 32 - 1` calls of `get_hazard_ptr` between the load of `haz_ptr_counter` and the
check go unseen, and with them a hazard pointer with the block that is taken out. -/
theorem lapped_not_handed :
    ∃ s, (system Nat .wrapping twoElements).Reachable s ∧ ¬ Handed twoElements s := by
  have hrun : (lateAcquire.foldlM (step .wrapping twoElements) (.init twoElements)).any (fun s =>
      decide ((s.hazard 0).owned = false ∧ s.vacant 2 = true ∧ (s.token 2).haz = none ∧
        s.hazPtrCounter = 3) &&
      decide ((s.token 0).live = true ∧ s.closed = .no ∧ twoElements.less .wrapping s.writeOffset
        (twoElements.reg .wrapping (s.readOffset + 1)) = true) &&
      decide ((s.token 0).pc.reclaims = some (.storeHead ⟨0, 0, 2, 2⟩ 1) ∧
        (s.heap.block 1).next = some 2 ∧ (s.heap.block 2).next = none) &&
      decide ((s.token 1).haz = some 2 ∧ (s.token 1).pc.frees = false ∧
        s.getBlock 2 .write = some 0)) = true := by
    decide +kernel
  obtain ⟨s, hs, hand⟩ := (Option.any_eq_true _ _).mp hrun
  simp only [Bool.and_eq_true, decide_eq_true_iff] at hand
  obtain ⟨⟨⟨⟨hfree, hvacant, hhaz, hcounter⟩, hlive, hopen, hempty⟩, hpc, hone, htwo⟩,
    hnode, hkept, hblock⟩ := hand
  have hreach := System.ofStep_reachable lateAcquire hs
  have hbase : s.lap twoElements 0 (s.hazard 0) (s.token 2) (s.last 0) s.log = s := by
    have hword : word twoElements.bits (s.hazPtrCounter + 0) = s.hazPtrCounter := by
      rw [hcounter]
      rfl
    rw [State.lap, hword, Function.update_eq_self, Function.update_eq_self, Function.update_eq_self]
  have hlapped : Lapped twoElements s 0 :=
    ⟨_, _, _, _, hfree, (Hazards.vacant hvacant).2, hhaz, (Hazards.vacant hvacant).1,
      hbase.symm ▸ hreach⟩
  have hcount : ∃ n, 2 = word twoElements.bits (s.hazPtrCounter + n) := by
    rw [hcounter]
    exact ⟨2 ^ 32 - 1, by decide⟩
  obtain ⟨n, hn⟩ := hcount
  obtain ⟨p, k, r, g, -, -, -, -, hlaps⟩ := hlapped.all ⟨hlive, hopen, hempty⟩ n
  obtain ⟨y, k', idx, c, hpc⟩ := Pc.of_reclaims hpc
  refine ⟨_, passes (x := ⟨0, 0, 2, 2⟩) hlaps hpc hn, fun h => ?_⟩
  -- token 1 still has the first block, and the head is the second
  obtain ⟨b, hb, hafter, -⟩ := h.after 1 2 .write (.inr ⟨hnode, hkept⟩)
  cases hb.symm.trans hblock
  cases hafter with
  | next hn hq =>
    cases hone.symm.trans hn
    cases hq with
    | next hn' => cases htwo.symm.trans hn'

end Laps

end CoroUtil.Channel
