import CoroUtil.Channel.Reclamation.Registers

/-!
# What is recycled is out of reach

`OutOfReach` says of a state that the blocks that `try_reclaim_blocks` moves are not
among those that a task has in a variable, or comes to when it follows the links from
there or from one of the pointers of its hazard pointer, and that a task only goes to an
element in the block that has its index.  A call of `get_hazard_ptr` that a reclaim has
overtaken may have such a block, which it does not follow: it will load the head again.
-/

namespace CoroUtil.Channel

open CoroUtil.General CoroUtil.Blocks

variable {V : Type}

/-- The blocks that an operation goes from. -/
def Phase.blocks : Phase → List Nat
  | out | guards .. | ticket .. => []
  | loaded _ _ _ b | has _ _ _ _ b | crosses _ _ _ b => [b]
  | seeks _ _ _ _ f => [f.block]
  | ends _ _ _ b f => [b, f.block]
  | swaps _ _ b target => [b, target]

def Task.blocks : Task → List Nat
  | walks _ f => [f.block]
  | k => k.phase.blocks

/-- The variable `head` of `get_hazard_ptr`, and what it has stored of it. -/
def State.stored (s : State V) : Acquire → List Nat
  | .initActive _ _ _ head | .initRead _ _ head => [head]
  | .initWrite _ p head => head :: (s.getBlock p .read).toList
  | .count _ p | .check _ p => (s.getBlock p .write).toList ++ (s.getBlock p .read).toList
  | .loadCount | .next .. | .owned .. | .take .. | .append .. | .headOffset .. | .headBlock .. => []

/-- The blocks from which the task of a token goes on, now or after it has loaded a
pointer of its hazard pointer. -/
def State.starts (s : State V) (t : Tid) : List Nat :=
  (s.token t).pc.task.blocks ++ match (s.token t).pc, (s.token t).haz with
    | .acquire _ q, _ => if q.rc = some s.reclaimCounter then s.stored q else []
    | .free .., _ | _, none => []
    | _, some z => (s.getBlock z .write).toList ++ (s.getBlock z .read).toList

/-- The blocks that a call of `reclaim_blocks` has collected. -/
def Pc.moves : Pc V → List Nat
  | .read _ _ (.reclaim _ _ (.move r)) => r.un
  | _ => []

/-- The block from which `find_block` starts, and the index that it looks for. -/
def Pc.finds : Pc V → Option (Nat × Nat)
  | .put _ _ (.find idx _ (.load b)) => some (b, idx)
  | .put _ w (.findEnd idx _ _ (.load b)) => some (b, idx + w.count - 1)
  | .read _ _ (.closedFind idx (.load b)) | .read _ _ (.find _ idx _ _ (.load b)) => some (b, idx)
  | .close (.find idx _ (.load b)) => some (b, idx)
  | _ => none

/-- The element that the next step of a task goes to, by its block and its index. -/
def Pc.accesses : Pc V → Option (Nat × Nat)
  | .put _ _ (.emplace idx k b) | .put _ _ (.publish idx k b) => some (b, idx + k)
  | .read _ _ (.setNotWaiting idx b) | .read _ _ (.probe _ idx _ _ b) | .read _ _ (.poll idx b)
  | .read _ _ (.tryWait idx b) | .read _ _ (.resumed idx b _) | .read _ _ (.holding idx b) =>
    some (b, idx)
  | .close (.spin idx _ b) => some (b, idx)
  | _ => none

structure OutOfReach (cfg : Config) (s : State V) : Prop where
  /-- A block that is being recycled cannot be reached by the task of a token. -/
  apart : ∀ t u b c, b ∈ s.starts t → Reclaim.Leads s.heap b c → c ∉ (s.token u).pc.moves
  /-- Nor by a task that will load `head_block`. -/
  head : ∀ u c, Reclaim.Leads s.heap s.headBlock c → c ∉ (s.token u).pc.moves
  /-- `find_block` starts at or before the block of its index. -/
  find : ∀ t b n, (s.token t).pc.finds = some (b, n) → s.offset b ≤ cfg.base n
  /-- The element of index `n` is in the block whose offset is `n` rounded down. -/
  access : ∀ t b n, (s.token t).pc.accesses = some (b, n) → s.offset b = cfg.base n

variable {cfg : Config} {s s' : State V} {l : List Nat} {m : Map} {a : Plan} {b z n k : Nat}
  {t u : Tid}

namespace Sight

variable {S : Sight} {p : Phase}

/-- The blocks that an operation goes from are at the committed head or behind it. -/
theorem Inv.phase_blocks (h : Inv cfg l S m a) (hp : (S.task t).doing = some (z, p))
    (hb : b ∈ p.blocks) : ∃ k, m.lo ≤ k ∧ m.At k b := by
  have hh := h.holds t z p hp
  have hpos := cfg.blockSize_pos
  have hdiv : ∀ {i}, p.idx = some i → m.lo ≤ i / cfg.blockSize := fun hi =>
    (Nat.le_div_iff_mul_le hpos).mpr (hh.idx _ hi).2.1
  have hwalk : ∀ {lo idx : Nat} {f : Find}, m.lo ≤ lo → f.Ok cfg.toLayout m.chain lo idx →
      ∃ k, m.lo ≤ k ∧ m.At k f.block := fun hlo hf => by
    obtain ⟨k, hk, hlast, hblock⟩ := hf.has_block
    exact ⟨k, hlo.trans hk, hlast, hblock⟩
  have hknows := hh.knows
  cases p with
  | out | guards | ticket => cases hb
  | loaded side act idx c =>
    cases List.mem_singleton.mp hb
    exact ⟨m.low z, (hh.looks rfl).2.1, hknows.2⟩
  | seeks side act idx boff f =>
    cases List.mem_singleton.mp hb
    exact hwalk (hh.looks rfl).2.1 hknows.2.2
  | ends idx last boff c f =>
    rcases List.mem_pair.mp hb with rfl | rfl
    · exact ⟨idx / cfg.blockSize, hdiv rfl, hknows.2.2.2.1⟩
    · exact hwalk (hh.looks rfl).2.1 hknows.2.2.2.2
  | swaps idx last c target =>
    have hle : idx / cfg.blockSize ≤ last / cfg.blockSize := Nat.div_le_div_right hknows.1
    rcases List.mem_pair.mp hb with rfl | rfl
    · exact ⟨idx / cfg.blockSize, hdiv rfl, hknows.2.2.1⟩
    · exact ⟨last / cfg.blockSize, (hdiv rfl).trans hle, hknows.2.2.2⟩
  | has side idx n stop c =>
    cases List.mem_singleton.mp hb
    exact ⟨n / cfg.blockSize, (hdiv rfl).trans (Nat.div_le_div_right hknows.1), hknows.2.2.2⟩
  | crosses idx n stop c =>
    cases List.mem_singleton.mp hb
    refine ⟨n / cfg.blockSize - 1, (hdiv rfl).trans ?_, hknows.2.2.2.2⟩
    -- the index before `n` is in the block before that of `n`
    have hmod := hknows.2.2.2.1
    obtain ⟨d, rfl⟩ := Nat.dvd_of_mod_eq_zero hmod
    rw [Nat.mul_div_cancel_left d hpos]
    refine Nat.le_sub_one_of_lt ((Nat.div_lt_iff_lt_mul hpos).mpr ?_)
    rw [Nat.mul_comm]
    exact hknows.1

theorem Inv.blocks (h : Inv cfg l S m a) (hb : b ∈ (S.task t).blocks) :
    ∃ k, m.lo ≤ k ∧ m.At k b := by
  have hphase : b ∈ (S.task t).phase.blocks → ∃ k, m.lo ≤ k ∧ m.At k b := fun hb => by
    rw [Task.phase] at hb
    cases hd : (S.task t).doing with
    | none =>
      rw [hd] at hb
      cases hb
    | some x =>
      rw [hd] at hb
      exact h.phase_blocks hd hb
  cases hk : S.task t with
  | walks idx f =>
    rw [hk] at hb
    cases List.mem_singleton.mp hb
    have hwalks := h.walks t
    rw [hk] at hwalks
    obtain ⟨k, hk, hlast, hblock⟩ := hwalks.2.has_block
    exact ⟨k, hk, hlast, hblock⟩
  | _ =>
    rw [hk] at hb hphase
    exact hphase hb

/-- What is being moved is before the committed head. -/
theorem Inv.moved (h : Inv cfg l S m a) {idx c : Nat} {r : Reclaim}
    (ht : S.task t = .reclaims z idx b (.move r)) (hk : m.lo ≤ k) (hc : m.At k c) : c ∉ r.un := by
  have hrun : S.run = some (z, idx, .move r) := by
    have hlock := (h.lock t).mp (by rw [ht]; rfl)
    rw [Sight.run, hlock]
    change (S.task t).run = _
    rw [ht]
    rfl
  have hruns := h.runs
  rw [hrun] at hruns
  have hout := hruns.2.2.1.out h.heaps.ok ⟨h.heaps.lo.1.trans hk, hc.1⟩ hk
  rw [hc.2] at hout
  exact hout

end Sight

open Sight

theorem leads_bare {h : Heap Flags V} {c : Nat} :
    Reclaim.Leads h.bare b c ↔ Reclaim.Leads h b c := by
  constructor
  · intro hl
    induction hl with
    | refl p => exact .refl p
    | next hn _ ih => exact .next hn ih
  · intro hl
    induction hl with
    | refl p => exact .refl p
    | next hn _ ih => exact .next hn ih

/-- A token that does not give up its hazard pointer has it. -/
theorem has_of_haz (hz : (s.token t).haz = some z) (hfree : ∀ y q, (s.token t).pc ≠ .free y q) :
    s.sight.Has t z := by
  refine .inl ⟨hz, ?_⟩
  change (s.token t).pc.task.keeps = true
  cases hpc : (s.token t).pc with
  | free y q => exact absurd hpc (hfree y q)
  | read y k q => cases q <;> rfl
  | close q => cases q <;> rfl
  | _ => rfl

theorem Sight.Seat.start {side : Side} {f : Nat} (h : Seat cfg s.sight m f z side) (hf : m.lo ≤ f)
    (hb : (s.hazard z).block side = some b) : ∃ k, m.lo ≤ k ∧ m.At k b :=
  ⟨m.pos z side, hf.trans h.le, h.last, Option.some.inj (h.block.symm.trans hb)⟩

/-- What a call of `get_hazard_ptr` has stored, or will, if no reclaim has overtaken it. -/
theorem Sight.Inv.from_stored (h : Inv cfg l s.sight m a) {c : Call V} {q : Acquire}
    (hpc : (s.token t).pc = .acquire c q) (hrc : q.rc = some s.reclaimCounter)
    (hb : b ∈ s.stored q) : ∃ k, m.lo ≤ k ∧ m.At k b := by
  have hlo := h.lo_le_floor
  have hsafe := (h.calling t q (congrArg Pc.task hpc)).safe hrc
  have hhead : ∀ {f c}, m.lo ≤ f → HeadAt cfg s.sight m f c → ∃ k, m.lo ≤ k ∧ m.At k c :=
    fun hf ⟨k, hk, hat, _⟩ => ⟨k, hf.trans hk, hat⟩
  cases q with
  | initActive rc p off head | initRead rc p head =>
    cases List.mem_singleton.mp hb
    exact hhead hlo hsafe
  | initWrite rc p head =>
    rcases List.mem_cons.mp hb with rfl | hb
    · exact hhead hlo hsafe.1
    · exact hsafe.2.start hlo (Option.mem_toList.mp hb)
  | count rc p | check rc p =>
    rcases List.mem_append.mp hb with hb | hb
    · exact (hsafe .write).start hlo (Option.mem_toList.mp hb)
    · exact (hsafe .read).start hlo (Option.mem_toList.mp hb)
  | loadCount | next | owned | take | append | headOffset | headBlock => cases hb

theorem Sight.Inv.from_start (h : Inv cfg l s.sight m a) (hb : b ∈ s.starts t) :
    ∃ k, m.lo ≤ k ∧ m.At k b := by
  rcases List.mem_append.mp hb with hb | hb
  · exact h.blocks (t := t) hb
  · split at hb
    · next hpc =>
      split_ifs at hb with hrc
      · exact h.from_stored hpc hrc hb
      · cases hb
    · cases hb
    · cases hb
    · next z hz hacq hfree =>
      have hz' := has_of_haz hz hfree
      rcases List.mem_append.mp hb with hb | hb
      · exact (h.seats t z hz' .write).start le_rfl (Option.mem_toList.mp hb)
      · exact (h.seats t z hz' .read).start le_rfl (Option.mem_toList.mp hb)

theorem Sight.Inv.apart (h : Inv cfg l s.sight m a) (hk : m.lo ≤ k) (hb : m.At k b) {c : Nat}
    (hl : Reclaim.Leads s.heap b c) : c ∉ (s.token u).pc.moves := by
  obtain ⟨i, hi, hhas, hc⟩ :=
    (leads_bare.mpr hl).position h.heaps.ok ⟨h.heaps.lo.1.trans hk, hb.1⟩ hb.2
  unfold Pc.moves
  split
  · next z k idx p r hpc =>
    exact h.moved (t := u) (congrArg Pc.task hpc) (hk.trans hi) ⟨hhas.2, hc⟩
  · exact List.not_mem_nil

theorem Sight.Inv.finds (h : Inv cfg l s.sight m a) (hf : (s.token t).pc.finds = some (b, n)) :
    s.offset b ≤ cfg.base n := by
  have hfind : ∀ {lo}, m.lo ≤ lo → (Find.load b).Ok cfg.toLayout m.chain lo n →
    s.offset b ≤ cfg.base n := by
    intro lo hlo hf
    obtain ⟨k, hk⟩ := hf
    have hoff : s.sight.offset b = k * cfg.blockSize :=
      h.at_offset ⟨hk.last, hk.block⟩ (hlo.trans hk.lo)
    rw [show s.offset b = s.sight.offset b from rfl, hoff, Layout.base_eq]
    exact Nat.mul_le_mul_right _ hk.le
  have huses : ∀ {z p}, (s.token t).pc.task.doing = some (z, p) → Holds cfg s.sight m z p :=
    fun hd =>
    h.holds t _ _ hd
  cases hpc : (s.token t).pc with
  | put z w q =>
    rw [hpc] at hf huses
    cases q with
    | find idx boff f =>
      cases f with
      | load c =>
        cases hf
        have hh := huses rfl
        exact hfind (hh.looks rfl).2.1 hh.knows.2.2
      | next | cas | check | found => cases hf
    | findEnd idx boff c f =>
      cases f with
      | load c =>
        cases hf
        have hh := huses rfl
        exact hfind (hh.looks rfl).2.1 hh.knows.2.2.2.2
      | next | cas | check | found => cases hf
    | _ => cases hf
  | read z k q =>
    rw [hpc] at hf huses
    cases q with
    | closedFind idx f =>
      cases f with
      | load c =>
        cases hf
        have hh := huses rfl
        exact hfind (hh.looks rfl).2.1 hh.knows.2.2
      | next | cas | check | found => cases hf
    | find act idx woff boff f =>
      cases f with
      | load c =>
        cases hf
        have hh := huses rfl
        exact hfind (hh.looks rfl).2.1 hh.knows.2.2
      | next | cas | check | found => cases hf
    | _ => cases hf
  | close q =>
    have hwalks := h.walks t
    rw [show s.sight.task t = (s.token t).pc.task from rfl, hpc] at hwalks
    rw [hpc] at hf
    cases q with
    | find idx fin f =>
      cases f with
      | load c =>
        cases hf
        exact hfind le_rfl hwalks.2
      | next | cas | check | found => cases hf
    | _ => cases hf
  | idle | acquire | free =>
    rw [hpc] at hf
    cases hf

theorem Sight.Inv.accesses (h : Inv cfg l s.sight m a)
    (hf : (s.token t).pc.accesses = some (b, n)) :
    s.offset b = cfg.base n := by
  have hat : m.lo ≤ n / cfg.blockSize → m.At (n / cfg.blockSize) b → s.offset b = cfg.base n := by
    intro hlo hb
    rw [Layout.base_eq]
    exact h.at_offset hb hlo
  have hhas : ∀ {z side idx stop}, (s.token t).pc.task.doing = some (z, .has side idx n stop b) →
      s.offset b = cfg.base n := by
    intro z side idx stop hd
    have hh := h.holds t _ _ hd
    refine hat ?_ hh.knows.2.2.2
    exact ((Nat.le_div_iff_mul_le cfg.blockSize_pos).mpr (hh.idx _ rfl).2.1).trans
      (Nat.div_le_div_right hh.knows.1)
  have hseeks : ∀ {z side act boff},
    (s.token t).pc.task.doing = some (z, .seeks side act n boff (.found b)) →
      s.offset b = cfg.base n := by
    intro z side act boff hd
    have hh := h.holds t _ _ hd
    have hfound := hh.knows.2.2
    exact hat ((hh.looks rfl).2.1.trans hfound.1) hfound.2
  cases hpc : (s.token t).pc with
  | put z w q =>
    rw [hpc] at hf hhas
    cases q with
    | emplace idx k c | publish idx k c =>
      cases hf
      exact hhas rfl
    | _ => cases hf
  | read z k q =>
    rw [hpc] at hf hhas hseeks
    cases q with
    | setNotWaiting idx c | probe act idx woff boff c =>
      cases hf
      exact hseeks rfl
    | poll idx c | tryWait idx c | resumed idx c ok | holding idx c =>
      cases hf
      exact hhas rfl
    | _ => cases hf
  | close q =>
    have hwalks := h.walks t
    rw [show s.sight.task t = (s.token t).pc.task from rfl, hpc] at hwalks
    rw [hpc] at hf
    cases q with
    | spin idx fin c =>
      cases hf
      exact hat hwalks.2.1 hwalks.2.2
    | _ => cases hf
  | idle | acquire | free =>
    rw [hpc] at hf
    cases hf

theorem Sight.Inv.outOfReach (h : Inv cfg l s.sight m a) : OutOfReach cfg s where
  apart t u b c hb hl := by
    obtain ⟨k, hk, hat⟩ := h.from_start hb
    exact h.apart hk hat hl
  head u c hl := by
    obtain ⟨k, hk, hat, -⟩ := h.head
    exact h.apart (h.lo_le_floor.trans hk) hat hl
  find t b n := h.finds
  access t b n := h.accesses

/-- **Reclamation.**  Inside the window nothing is recycled that a task can still reach. -/
theorem recycled_apart (h : (system V .wrapping cfg).Reach (Stays cfg) s) : OutOfReach cfg s := by
  obtain ⟨-, -, -, l, m, a, hinv⟩ := reach_natural h
  exact hinv.outOfReach

/-- Token 0 posts three blocks of values and pulls them, and recycles the first block
with the last pull, while token 1 looks for the block of its index and token 2 is in
`get_hazard_ptr`. -/
def recycling : List (Act Nat) :=
  .call 0 (.put (.bulk id 6)) :: List.replicate 42 (.step 0 false) ++
    .call 0 (.read .tryPull) :: List.replicate 9 (.step 0 false) ++ .release 0 :: .step 0 false ::
    .call 0 (.read .tryPull) :: List.replicate 17 (.step 0 false) ++ .release 0 :: .step 0 false ::
    .call 0 (.read .tryPull) :: List.replicate 11 (.step 0 false) ++ .release 0 :: .step 0 false ::
    .call 0 (.read .tryPull) :: List.replicate 17 (.step 0 false) ++ .release 0 :: .step 0 false ::
    .call 0 (.read .tryPull) :: List.replicate 11 (.step 0 false) ++ .release 0 :: .step 0 false ::
    .call 0 (.read .tryPull) :: List.replicate 40 (.step 0 false) ++
    .copy 0 1 :: .call 1 (.put (.post 7)) :: List.replicate 20 (.step 1 false) ++
    .copy 0 2 :: .call 2 (.read .pull) :: List.replicate 11 (.step 2 false)

theorem recycled_apart_recycling :
    ∃ s, (system Nat .wrapping twoElements).Reach (Stays twoElements) s ∧
    (s.token 0).pc.moves = [0] ∧ s.starts 1 = [2, 1, 1] ∧ s.starts 2 = [1, 1] ∧
    OutOfReach twoElements s := by
  have hrun : (recycling.foldlM
    (fun s a => if Stays twoElements s a then step .wrapping twoElements s a
      else none) (.init twoElements)).any
        (fun s => (s.token 0).pc.moves = [0] && s.starts 1 = [2, 1, 1] && s.starts 2 = [1, 1]) =
        true := by
    decide +kernel
  obtain ⟨s, hs, hand⟩ := (Option.any_eq_true _ _).mp hrun
  simp only [Bool.and_eq_true, decide_eq_true_iff] at hand
  have hreach := System.ofStep_reach recycling (.init rfl) hs
  exact ⟨s, hreach, hand.1.1, hand.1.2, hand.2, recycled_apart hreach⟩

end CoroUtil.Channel
