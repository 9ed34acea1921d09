import CoroUtil.Channel.Tokens
import CoroUtil.Blocks.Wrap

/-!
# Tokens at rest

`Keeps` says what `active_offset` is beside what the token did last: inactive at or
past the index of its last operation, unless this was a `pull()` that `close()` had
to resume.  That one leaves `active_offset` as it was when it was suspended, and the
token goes on protecting the blocks from there on.
-/

namespace CoroUtil.Channel

open CoroUtil.Blocks CoroUtil.General

variable {V : Type} {s s₁ s' : State V} {l : List Nat} {t u : Tid} {z p n : Nat} {k : Token V}
  {cfg : Config} {o : Offsets} {c : Call V} {w : Option Nat} {R : State V → Pc V → Prop}
  {wakes : Prop}

/-- What a token with a hazard pointer has left there. -/
def Kept (o : Offsets) (cfg : Config) (wakes : Prop) (active : Nat) (last : Option (Result V)) :
    Pc V → Prop
  | .read _ k q => q.Scope k last
  | .idle | .close _ => Rests o cfg wakes active last
  | .acquire .. | .put .. | .free .. => True

def Keeps (o : Offsets) (cfg : Config) (wakes : Prop) (s : State V) : Prop :=
  ∀ t z, (s.token t).haz = some z →
    Kept o cfg wakes (s.hazard z).activeOffset (s.last z) (s.token t).pc

theorem Kept.of_waits {pc : Pc V} {active : Nat} {last : Option (Result V)} (h : pc.Waits) :
    Kept o cfg wakes active last pc := by
  cases pc with
  | read z k q =>
    cases q with
    | suspended | resumed => trivial
    | _ => cases h
  | _ => cases h

/-- What the step of token `t` leaves alone. -/
structure Away (w : Option Nat) (t : Tid) (s s' : State V) : Prop where
  haz : ∀ u, u ≠ t → (s'.token u).haz = (s.token u).haz
  pc : ∀ u, u ≠ t → (s'.token u).pc = (s.token u).pc ∨ (s'.token u).pc.Waits
  active : ∀ z, w ≠ some z → (s'.hazard z).activeOffset = (s.hazard z).activeOffset
  last : ∀ z, w ≠ some z → s'.last z = s.last z

theorem Same.away (h : Same w s s₁) : Away w t s s₁ where
  haz u _ := congrArg View.haz (h.view u)
  pc u _ := h.pc u
  active := h.active
  last := h.last

theorem Away.setToken (h : Away w t s s₁) : Away w t s (s₁.setToken t k) where
  haz u hu := by
    rw [State.token_setToken, if_neg hu]
    exact h.haz u hu
  pc u hu := by
    rw [State.token_setToken, if_neg hu]
    exact h.pc u hu
  active := h.active
  last := h.last

theorem Away.setPc (h : Away w t s s₁) {pc : Pc V} : Away w t s (s₁.setPc t pc) := h.setToken

theorem Away.enter (h : Away w t s s₁) : Away w t s (s₁.enter t z c) := by
  cases c with
  | put w => exact h.setPc
  | read k => exact h.setPc

/-- A write to a hazard pointer that belongs to no other token. -/
theorem Away.setHazard {x : HazardPtr}
    (ha : w = some z ∨ x.activeOffset = (s.hazard z).activeOffset) :
    Away w t s (s.setHazard z x) := by
  refine ⟨fun _ _ => rfl, fun _ _ => .inl rfl, fun y hy => ?_, fun _ _ => rfl⟩
  rw [State.hazard_setHazard]
  split
  · next hyz =>
    rcases ha with ha | ha
    · exact absurd (ha.trans (congrArg some hyz.symm)) hy
    · rw [hyz, ha]
  · rfl

namespace Hazards

/-- The hazard pointers of two tokens are different. -/
theorem haz_ne (h : Hazards s l) (hne : u ≠ t) (hu : (s.token u).haz = some z) :
    (s.view t).node ≠ some z := fun ht =>
  hne (h.leases.inj u t z (View.node_of_haz hu) ht)

theorem haz_lt (h : Hazards s l) (hu : (s.token u).haz = some z) : z < s.hazards :=
  h.lt u z (View.node_of_haz hu)

end Hazards

namespace Keeps

theorem away (h : Keeps o cfg wakes s) (ha : Away w t s s')
    (hw : ∀ u z, u ≠ t → (s.token u).haz = some z → w ≠ some z)
    (ht : ∀ z, (s'.token t).haz = some z →
      Kept o cfg wakes (s'.hazard z).activeOffset (s'.last z) (s'.token t).pc) :
        Keeps o cfg wakes s' := by
  intro u z hz
  by_cases hu : u = t
  · subst hu
    exact ht z hz
  · have hz' := (ha.haz u hu).symm.trans hz
    rw [ha.active z (hw u z hu hz'), ha.last z (hw u z hu hz')]
    rcases ha.pc u hu with hpc | hpc
    · rw [hpc]
      exact h u z hz'
    · exact .of_waits hpc

theorem goes (h : Keeps o cfg wakes s) (hg : Goes w R t s s')
    (hw : ∀ u z, u ≠ t → (s.token u).haz = some z → w ≠ some z)
    (ht : ∀ s₁ pc z, Same w s s₁ → R s₁ pc → (s.token t).haz = some z →
      Kept o cfg wakes (s₁.hazard z).activeOffset (s₁.last z) pc) : Keeps o cfg wakes s' := by
  obtain ⟨s₁, pc, hs, hr, rfl⟩ := hg
  refine h.away hs.away.setPc hw fun z hz => ?_
  have hz' : (s₁.token t).haz = some z := by
    rw [State.token_setPc, if_pos rfl] at hz
    exact hz
  rw [State.token_setPc, if_pos rfl]
  exact ht s₁ pc z hs hr ((congrArg View.haz (hs.view t)).symm.trans hz')

/-- An operation that uses the hazard pointer of its token. -/
theorem working (h : Keeps o cfg wakes s) (hl : Hazards s l) (hrole : (s.view t).role = .uses z)
    (hg : Works o cfg wakes z t s s') : Keeps o cfg wakes s' := by
  have hfits := hl.fits t
  rw [View.Fits, hrole] at hfits
  refine h.goes hg (fun u y hu hy heq => ?_) fun s₁ pc y hs hw hy => ?_
  · cases heq
    exact hl.haz_ne hu hy (View.node_of_haz hfits.2)
  · cases hfits.2.symm.trans hy
    cases pc with
    | put y w q => trivial
    | read y k q => exact hw.2
    | idle => exact hw
    | acquire | close | free => cases hw

theorem closing (h : Keeps o cfg wakes s) {q : ClosePc} (hpc : (s.token t).pc = .close q)
    (hg : Goes none (fun _ pc => Closing pc) t s s') : Keeps o cfg wakes s' := by
  refine h.goes hg (fun _ _ _ _ => (Option.some_ne_none _).symm) fun s₁ pc z hs hc hz => ?_
  have hrests := h t z hz
  rw [hpc] at hrests
  rw [hs.active z (Option.some_ne_none z).symm, hs.last z (Option.some_ne_none z).symm]
  cases pc with
  | close q => exact hrests
  | idle => exact hrests
  | acquire | put | read | free => cases hc

/-- A step that leaves token `t` without a hazard pointer, or at the start of an
operation or of its release. -/
theorem begins (h : Keeps o cfg wakes s) (hk : ∀ active last, Kept o cfg wakes active last k.pc) :
    Keeps o cfg wakes (s.setToken t k) := by
  have ha : Away none t s s := (Same.refl none s).away
  refine h.away ha.setToken (fun _ _ _ _ => (Option.some_ne_none _).symm) fun z _ => ?_
  rw [State.token_setToken, if_pos rfl]
  exact hk _ _

theorem without (h : Keeps o cfg wakes s) (hk : k.haz = none) :
    Keeps o cfg wakes (s.setToken t k) := by
  have ha : Away none t s s := (Same.refl none s).away
  refine h.away ha.setToken (fun _ _ _ _ => (Option.some_ne_none _).symm) fun z hz => ?_
  rw [State.token_setToken, if_pos rfl, hk] at hz
  cases hz

theorem kept_enter {y : Nat} : Kept o cfg wakes ((s.enter t z c).hazard y).activeOffset
    ((s.enter t z c).last y) ((s.enter t z c).token t).pc := by
  cases c with
  | put w =>
    rw [State.enter, State.token_setPc, if_pos rfl]
    trivial
  | read k =>
    rw [State.enter, State.token_setPc, if_pos rfl]
    trivial

theorem enter (h : Keeps o cfg wakes s) : Keeps o cfg wakes (s.enter t z c) := by
  have same : Away none t s s := (Same.refl none s).away
  exact h.away same.enter (fun _ _ _ _ => (Option.some_ne_none _).symm) fun _ _ => kept_enter

theorem acquireStep (h : Keeps o cfg wakes s) (hl : Hazards s l) {a : Acquire}
    (hpc : (s.token t).pc = .acquire c a) : Keeps o cfg wakes (s.acquireStep o cfg t c a) := by
  obtain ⟨hview, -⟩ := hl.acquiring hpc
  -- what `get_hazard_ptr` writes to its own hazard pointer is no one else's
  have own : ∀ {s₁ a'}, Away a.node t s s₁ → Keeps o cfg wakes (s₁.setAcquire t c a') := by
    intro s₁ a' ha
    refine h.away ha.setPc (fun u z hu hz heq => ?_) fun z _ => ?_
    · refine hl.haz_ne hu hz ?_
      rw [hview]
      exact heq
    · rw [State.setAcquire, State.token_setPc, if_pos rfl]
      trivial
  have other : ∀ {s₁ a'}, Away none t s s₁ → Keeps o cfg wakes (s₁.setAcquire t c a') := by
    intro s₁ a' ha
    refine h.away ha.setPc (fun _ _ _ _ => (Option.some_ne_none _).symm) fun z _ => ?_
    rw [State.setAcquire, State.token_setPc, if_pos rfl]
    trivial
  have same : Away none t s s := (Same.refl none s).away
  have pass : ∀ rc p n, Keeps o cfg wakes (s.passHazard cfg t c rc p n) := by
    intro rc p n
    rw [State.passHazard]
    split
    · have ha : Away (some s.hazards) t s (s.setHazard s.hazards (.new cfg true n)) :=
        .setHazard (.inl rfl)
      refine h.away (w := some s.hazards) (t := t) ?_ (fun u z hu hz heq => ?_) fun z _ => ?_
      · have ha' : Away (some s.hazards) t s
            { s.setHazard s.hazards (.new cfg true n) with hazards := s.hazards + 1 } :=
          ⟨ha.haz, ha.pc, ha.active, ha.last⟩
        exact ha'.setPc
      · cases heq
        exact Nat.lt_irrefl _ (hl.haz_lt hz)
      · rw [State.setAcquire, State.token_setPc, if_pos rfl]
        trivial
    · exact other same
  cases a with
  | loadCount | next rc p | headOffset rc p | headBlock rc p off => exact other same
  | owned rc p n =>
    rw [State.acquireStep]
    split
    · exact pass rc p n
    · exact other same
  | take rc p n =>
    rw [State.acquireStep]
    split
    · exact pass rc p n
    · exact other (.setHazard (.inr rfl))
  | append rc p n new =>
    rw [State.acquireStep]
    dsimp only
    split
    · exact other (.setHazard (.inr rfl))
    · exact other (.setHazard (.inr rfl))
  | initActive rc p off head => exact own (.setHazard (.inl rfl))
  | initRead rc p head => exact other ((Same.refl none s).setBlock _ _).away
  | initWrite rc p head => exact other ((Same.refl none s).setBlock _ _).away
  | count rc p =>
    refine other ?_
    exact ⟨fun _ _ => rfl, fun _ _ => .inl rfl, fun _ _ => rfl, fun _ _ => rfl⟩
  | check rc p =>
    rw [State.acquireStep]
    split
    · have ha : Away (some p) t s { s with last := Function.update s.last p none } := by
        refine ⟨fun _ _ => rfl, fun _ _ => .inl rfl, fun _ _ => rfl, fun z hz => ?_⟩
        exact Function.update_of_ne (fun hzp => hz (congrArg some hzp.symm)) _ _
      refine h.away (ha.setToken (k := { s.token t with haz := some p })).enter
        (fun u z hu hz heq => ?_) fun z _ => ?_
      · refine hl.haz_ne hu hz ?_
        rw [hview]
        exact heq
      · exact kept_enter
    · exact other same

theorem freeStep (h : Keeps o cfg wakes s) {q : FreePc} : Keeps o cfg wakes (s.freeStep t z q) := by
  cases q with
  | writeBlock =>
    refine h.away ((Same.refl none s).setBlock _ _).away.setPc
      (fun _ _ _ _ => (Option.some_ne_none _).symm) fun z _ => ?_
    rw [State.freeStep, State.token_setPc, if_pos rfl]
    trivial
  | readBlock =>
    refine h.away ((Same.refl none s).setBlock _ _).away.setPc
      (fun _ _ _ _ => (Option.some_ne_none _).symm) fun z _ => ?_
    rw [State.freeStep, State.token_setPc, if_pos rfl]
    trivial
  | owned =>
    have ha : Away none t s (s.setHazard z { s.hazard z with owned := false }) :=
      .setHazard (.inr rfl)
    refine h.away (ha.setToken (k := { s.token t with haz := none, pc := .idle }))
      (fun _ _ _ _ => (Option.some_ne_none _).symm) fun y hy => ?_
    rw [State.freeStep, State.token_setToken, if_pos rfl] at hy
    cases hy

theorem freeHazardPtr (h : Keeps o cfg wakes s) {live : Bool} :
    Keeps o cfg wakes (s.freeHazardPtr t live) := by
  rw [State.freeHazardPtr]
  split
  · exact h.begins fun _ _ => trivial
  · next hz => exact h.without hz

theorem call (h : Keeps o cfg wakes s) : Keeps o cfg wakes (s.call t c) := by
  rw [State.call]
  split
  · exact h.enter
  · exact h.begins fun _ _ => trivial

/-- A token that is at rest stays there, or calls `close`. -/
theorem rests (h : Keeps o cfg wakes s) (hpc : (s.token t).pc = .idle)
    (hhaz : k.haz = (s.token t).haz)
    (hk : k.pc = .idle ∨ ∃ q, k.pc = .close q) : Keeps o cfg wakes (s.setToken t k) := by
  have same : Away none t s s := (Same.refl none s).away
  refine h.away same.setToken (fun _ _ _ _ => (Option.some_ne_none _).symm) fun z hz => ?_
  rw [State.token_setToken, if_pos rfl] at hz ⊢
  have hrests := h t z (hhaz.symm.trans hz)
  rw [hpc] at hrests
  rcases hk with hk | ⟨q, hk⟩
  · rw [hk]
    exact hrests
  · rw [hk]
    exact hrests

/-- A move from `u` to `t`, which are at rest. -/
theorem moves (h : Keeps o cfg wakes s) {live live' : Bool} (ht : (s.token t).pc = .idle)
    (hu : (s.token u).pc = .idle) :
    Keeps o cfg wakes ((s.setToken t { s.token t with live, haz := (s.token u).haz }).setToken u
      { s.token u with live := live', haz := none }) := by
  intro y z hz
  simp only [State.token_setToken] at hz ⊢
  split at hz
  · cases hz
  · next hyu =>
    rw [if_neg hyu]
    split at hz
    · next hyt =>
      rw [if_pos hyt, ht]
      have hrests := h u z hz
      rw [hu] at hrests
      exact hrests
    · next hyt =>
      rw [if_neg hyt]
      exact h y z hz

theorem scope (h : Keeps o cfg wakes s) (hl : Hazards s l) (t : Tid) (z : Nat) (k : Read)
    (q : ReadPc)
    (hpc : (s.token t).pc = .read z k q) : q.Scope k (s.last z) := by
  have hfits := hl.fits t
  have hrole : (s.view t).role = .uses z := congrArg Pc.role hpc
  rw [View.Fits, hrole] at hfits
  have hkept := h t z hfits.2
  rw [hpc] at hkept
  exact hkept

theorem tokenStep {spurious : Bool} (h : Keeps o cfg wakes s) (hl : Hazards s l)
    (hw : ∀ z k idx b, (s.token t).pc = .read z k (.resumed idx b false) → wakes)
    (hs : s.tokenStep o cfg t spurious = some s') : Keeps o cfg wakes s' := by
  rw [State.tokenStep] at hs
  split at hs
  · cases hs
  · next c a hpc =>
    cases hs
    exact h.acquireStep hl hpc
  · next z w q hpc =>
    cases hs
    exact h.working hl (congrArg Pc.role hpc) (State.put_works hpc)
  · next z k q hpc =>
    have hworks := State.read_works hpc (h.scope hl t z k q hpc)
      (fun idx b hq => hw z k idx b (hpc.trans (congrArg _ hq))) hs
    exact h.working hl (congrArg Pc.role hpc) hworks
  · next q hpc => exact h.closing hpc (State.close_goes hs)
  · next z q hpc =>
    cases hs
    exact h.freeStep

theorem step (h : Keeps o cfg wakes s) (hl : Hazards s l) {a : Act V}
    (hw : ∀ t spurious z k idx b, a = .step t spurious →
      (s.token t).pc = .read z k (.resumed idx b false) → wakes)
    (hs : Channel.step o cfg s a = some s') : Keeps o cfg wakes s' := by
  cases a with
  | copy u t =>
    obtain ⟨⟨-, ht⟩, heq⟩ := Option.ite_none_right_eq_some.mp hs
    cases heq
    have hpc := (Hazards.vacant ht).1
    exact h.rests hpc rfl (.inl hpc)
  | move u t =>
    obtain ⟨⟨hu, ht⟩, heq⟩ := Option.ite_none_right_eq_some.mp hs
    cases heq
    exact h.moves (Hazards.vacant ht).1 (Hazards.ready hu).1
  | assign u t =>
    obtain ⟨⟨hu, ht⟩, heq⟩ := Option.ite_none_right_eq_some.mp hs
    split at heq
    · cases heq
      exact h.freeHazardPtr
    · split at heq
      · cases heq
        exact h.freeHazardPtr
      · cases heq
        exact h.moves (Hazards.ready ht).1 (Hazards.ready hu).1
  | destroy t =>
    obtain ⟨-, heq⟩ := Option.ite_none_right_eq_some.mp hs
    cases heq
    exact h.freeHazardPtr
  | call t c =>
    obtain ⟨⟨ht, -⟩, heq⟩ := Option.ite_none_right_eq_some.mp hs
    cases heq
    have hpc := (Hazards.ready ht).1
    exact (h.rests (k := { s.token t with frame := (s.token t).frame + 1 }) hpc rfl
      (.inl hpc)).call
  | close t =>
    obtain ⟨ht, heq⟩ := Option.ite_none_right_eq_some.mp hs
    cases heq
    exact h.rests (Hazards.ready ht).1 rfl (.inr ⟨_, rfl⟩)
  | step t spurious => exact h.tokenStep hl (fun z k idx b => hw t spurious z k idx b rfl) hs
  | release t =>
    rw [Channel.step] at hs
    split at hs
    · next z k idx b hpc =>
      cases hs
      exact h.working hl (congrArg Pc.role hpc) (State.release_works (h.scope hl t z k _ hpc))
    · cases hs

theorem init : Keeps o cfg wakes (.init cfg : State V) := fun _ _ hz => by cases hz

end Keeps

/-- The hazard pointers are owned and the tokens keep theirs, whatever is `ok`. -/
theorem keeps_reach {ok : State V → Act V → Prop}
    (hok : ∀ s a, ok s a → ∀ t spurious z k idx b, a = .step t spurious →
      (s.token t).pc = .read z k (.resumed idx b false) → wakes)
    (h : (system V o cfg).Reach ok s) : (∃ l, Hazards s l) ∧ Keeps o cfg wakes s := by
  refine h.invariant (I := fun s => (∃ l, Hazards s l) ∧ Keeps o cfg wakes s) (fun s hs => ?_)
    fun s a s' ⟨⟨l, hl⟩, hk⟩ hsok hs => ?_
  · cases hs
    exact ⟨⟨_, .init⟩, .init⟩
  · exact ⟨hl.step (hk.scope hl) hs, hk.step hl (hok s a hsok) hs⟩

theorem Hazards.reachable (h : (system V o cfg).Reachable s) : ∃ l, Hazards s l := by
  have hkeeps := keeps_reach (fun _ _ _ _ _ _ _ _ _ _ _ => trivial) h
  exact hkeeps.1

/-! ## What is left of a completed operation -/

/-- Every token that is at rest has left its hazard pointer as its last operation has
to, so that it does not hold a reclaim back whose protected index is not further
behind. -/
def Resting (cfg : Config) (s : State V) : Prop :=
  ∀ t z, (s.token t).pc = .idle → (s.token t).haz = some z →
    ∃ r n, s.last z = some r ∧ r.idx ≤ n ∧ n ≤ r.idx + r.count ∧
      (s.hazard z).activeOffset = cfg.reg .wrapping (n + cfg.inactive) ∧
      ∀ x p, x.protect = cfg.reg .wrapping p → n < p + cfg.inactive → p ≤ n + cfg.inactive →
        State.keepMin .wrapping cfg x (s.hazard z).activeOffset = x

/-- A `pull()` that has been suspended and resumed by `close()`. -/
def Pc.woken : Pc V → Bool
  | read _ _ (.resumed _ _ ok) => !ok
  | _ => false

/-- No such `pull()` returns. -/
def NoneWoken (s : State V) (a : Act V) : Prop :=
  ∀ t spurious, a = .step t spurious → (s.token t).pc.woken = false

instance (s : State V) (a : Act V) : Decidable (NoneWoken s a) :=
  match a with
  | .step t spurious => decidable_of_iff ((s.token t).pc.woken = false)
    ⟨fun h _ _ heq => by cases heq; exact h, fun h => h t spurious rfl⟩
  | .copy .. | .move .. | .assign .. | .destroy _ | .call .. | .close _ | .release _ =>
    .isTrue nofun

/-- An inactive offset does not lower the protected index. -/
theorem keepMin_inactive {x : Scan} (hx : x.protect = cfg.reg .wrapping p)
    (hn : n < p + cfg.inactive) (hp : p ≤ n + cfg.inactive) :
    State.keepMin .wrapping cfg x (cfg.reg .wrapping (n + cfg.inactive)) = x := by
  have hhalf : 2 ^ (cfg.bits - 1) = 2 * cfg.inactive := by
    have hbits := cfg.log_lt
    rw [Config.inactive, ← Nat.pow_succ']
    congr 1
    omega
  have hless : cfg.less .wrapping (cfg.reg .wrapping (n + cfg.inactive)) x.protect = false := by
    rw [hx]
    refine (Layout.less_wrapping ?_ ?_).trans (decide_eq_false_iff_not.mpr (Nat.not_lt.mpr hp))
    · rw [hhalf]
      omega
    · rw [hhalf]
      omega
  rw [State.keepMin, hless]
  rfl

/-- The tokens at rest protect nothing in a run in which `close()` wakes no `pull()`. -/
theorem resting (h : (system V .wrapping cfg).Reach NoneWoken s) : Resting cfg s := by
  have hok : ∀ (s : State V) a, NoneWoken s a → ∀ t spurious z k idx b, a = .step t spurious →
      (s.token t).pc = .read z k (.resumed idx b false) → False := by
    intro s a hnone t spurious z k idx b ha hpc
    have hwoken := hnone t spurious ha
    rw [hpc] at hwoken
    cases hwoken
  obtain ⟨-, hkeeps⟩ := keeps_reach hok h
  intro t z hpc hz
  have hkept := hkeeps t z hz
  rw [hpc] at hkept
  obtain ⟨r, hr, ⟨n, hle, hn, hactive⟩ | ⟨-, hwakes⟩⟩ := hkept
  · refine ⟨r, n, hr, hle, hn, hactive, fun x p hx hnp hpn => ?_⟩
    rw [hactive]
    exact keepMin_inactive hx hnp hpn
  · exact hwakes.elim

/-- The smallest blocks of two elements on 32 bits. -/
def twoElements : Config := ⟨⟨32, 1, by decide⟩, .inl rfl, by decide⟩

/-- Token 0 suspends in `pull()` and token 1 posts the value it waits for; `try_pull()` then
finds nothing.  Token 0 closes the channel, its bulk is rejected, and token 1 is told twice. -/
def everyReturn : List (Act Nat) := List.flatten
  [.call 0 (.read .pull) :: List.replicate 20 (.step 0 false),
   .copy 0 1 :: .call 1 (.put (.post 7)) :: List.replicate 22 (.step 1 false),
   [.step 0 false, .release 0, .step 0 false],
   .call 1 (.read .tryPull) :: List.replicate 5 (.step 1 false),
   .close 0 :: List.replicate 10 (.step 0 false),
   .call 0 (.put (.bulk id 2)) :: List.replicate 7 (.step 0 false),
   .call 1 (.read .tryPull) :: List.replicate 11 (.step 1 false),
   .call 1 (.read .pull) :: List.replicate 9 (.step 1 false)]

/-- What the operations of `everyReturn` returned. -/
def State.everyReturned (s : State Nat) : Bool :=
  match s.log with
  | [(1, .post _ 0 true), (0, .ok .pull 0 (some 7)), (1, .empty 1), (0, .post _ 2 false),
      (1, .closed .tryPull 1 false), (1, .closed .pull 1 false)] => true
  | _ => false

theorem resting_everyReturn : ∃ s, (system Nat .wrapping twoElements).Reach NoneWoken s ∧
    s.everyReturned = true ∧ s.ready 0 = true ∧ (s.token 0).haz = some 0 ∧ s.ready 1 = true ∧
      (s.token 1).haz = some 1 ∧ Resting twoElements s := by
  have hrun : (everyReturn.foldlM (fun s a => if NoneWoken s a then step .wrapping twoElements s a
      else none) (.init twoElements)).any (fun s => s.everyReturned && s.ready 0 &&
        decide ((s.token 0).haz = some 0) && s.ready 1 && decide ((s.token 1).haz = some 1)) =
      true := by decide +kernel
  obtain ⟨s, hs, hand⟩ := (Option.any_eq_true _ _).mp hrun
  simp only [Bool.and_eq_true, decide_eq_true_iff] at hand
  obtain ⟨⟨⟨⟨hlog, hready⟩, hhaz⟩, hready'⟩, hhaz'⟩ := hand
  have hreach := System.ofStep_reach everyReturn (.init rfl) hs
  exact ⟨s, hreach, hlog, hready, hhaz, hready', hhaz', resting hreach⟩

/-- Token 0 is suspended in `pull()` and resumed by `close()` on token 1. -/
def wokenPull : List (Act Nat) :=
  .call 0 (.read .pull) :: List.replicate 20 (.step 0 false) ++
    .copy 0 1 :: .close 1 :: List.replicate 15 (.step 1 false) ++ [.step 0 false]

/-- It has returned, and goes on protecting the first block. -/
theorem wokenPull_active : ∃ s, (system Nat .wrapping twoElements).Reachable s ∧
    ¬ Resting twoElements s := by
  have hrun : (wokenPull.foldlM (step .wrapping twoElements) (.init twoElements)).any (fun s =>
      s.ready 0 && (s.token 0).haz = some 0 && (s.hazard 0).activeOffset = 0 &&
        (s.last 0).any fun r => r.idx + r.count = 1) = true := by
    decide +kernel
  obtain ⟨s, hs, hand⟩ := (Option.any_eq_true _ _).mp hrun
  simp only [Bool.and_eq_true, decide_eq_true_iff] at hand
  obtain ⟨⟨⟨hpc, hhaz⟩, hactive⟩, hlast⟩ := hand
  refine ⟨s, System.ofStep_reachable wokenPull hs, fun hrests => ?_⟩
  obtain ⟨r, n, hr, -, hn, hinactive, -⟩ := hrests 0 0 (Hazards.ready hpc).1 hhaz
  rw [hr] at hlast
  have hcount : r.idx + r.count = 1 := of_decide_eq_true hlast
  have hzero : 0 = twoElements.reg .wrapping (n + 2 ^ 30) := hactive.symm.trans hinactive
  rw [hcount] at hn
  rcases Nat.le_one_iff_eq_zero_or_eq_one.mp hn with rfl | rfl
  · exact absurd hzero (by decide)
  · exact absurd hzero (by decide)

end CoroUtil.Channel
