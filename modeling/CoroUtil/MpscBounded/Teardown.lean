import CoroUtil.MpscBounded.Delivery
import CoroUtil.MpscBounded.Order

/-!
# `~qu_mpsc_bounded`, and who destroys the values

The destructor closes the queue and goes from `read_offset` to `write_closed_at`.  It
destroys the value of every slot whose flags carry `DATA_BIT` and does not clear them,
so that a slot it came to twice would be destroyed twice.

Without a call in progress a slot that is not shut has been given to every ticket before
the cutoff, so the consumer's visits that are left of it are the rounds that have not
been drained: one where the slot holds a value, none where it is free.
-/

namespace CoroUtil.MpscBounded

open CoroUtil.General

variable {V : Type} {cfg : Config} {s s' : State V} {a : Abs V}

/-! ## The destructor -/

/-- Nobody is in a call, suspended or not, and no scope is alive. -/
def State.Quiet (s : State V) : Prop := (∀ p, s.task p = .idle) ∧ s.consumer = .idle

/-- Where the destructor is; `stop` and `idx` are its `end` and `idx`. -/
inductive DestructorPc
  | closing
  | sweep (stop idx : Nat)
  | done

/-- The destructor, and the values that it has destroyed. -/
structure Destructor (V : Type) where
  queue : State V
  pc : DestructorPc
  destroyed : List (Nat × V)

namespace Destructor

def start (p : Tid) (s : State V) : Destructor V := ⟨s.setTask p .closeCas, .closing, []⟩

def step (cfg : Config) (p : Tid) (x : Destructor V) (spurious : Bool) : Option (Destructor V) :=
  match x.pc with
  | .closing =>
    match x.queue.task p with
    | .idle => some { x with pc := .sweep x.queue.writeClosedAt x.queue.readOffset }
    | _ => (x.queue.taskStep cfg p spurious).map fun s => { x with queue := s }
  | .sweep stop idx =>
    if circularLessThan cfg.bits idx stop then
      let e := x.queue.elem cfg idx
      if e.flags.data then
        some {
          queue := (x.queue.setElem cfg idx { e with data := none }).check e.data.isSome
          pc := .sweep stop (idx + 1)
          destroyed := x.destroyed ++ e.data.toList }
      else some { x with pc := .sweep stop (idx + 1) }
    else some { x with pc := .done }
  | .done => none

/-- The offsets that the step compares, if it compares two, come out in their order. -/
def compares (cfg : Config) (p : Tid) (x : Destructor V) (spurious : Bool) : Bool :=
  match x.pc with
  | .closing => x.queue.compares cfg (.task p spurious)
  | .sweep stop idx => cfg.ordered idx stop
  | .done => true

def system (cfg : Config) (p : Tid) (s : State V) : System (Destructor V) Bool :=
  .ofStep (start p s) (step cfg p)

end Destructor

/-! ## The values in the slots -/

/-- The values that scopes have destroyed: `finish_read` destroys the value at its index. -/
def released (cfg : Config) (s : State V) (l : List (Nat × V)) (act : Act V) (_ : State V) :
    List (Nat × V) :=
  match act, s.consumer with
  | .release, .holding idx => l ++ (s.elem cfg idx).data.toList
  | _, _ => l

/-- The queue beside the values that scopes have destroyed. -/
def releasing (V : Type) (cfg : Config) : System (State V × List (Nat × V)) (Act V) :=
  (system V cfg).noting [] (released cfg)

/-- What was constructed was destroyed by a scope, or is in a slot. -/
structure Ledger (s : State V) (l : List (Nat × V)) : Prop where
  split : ∀ e, e ∈ s.constructed ↔ e ∈ l ∨ ∃ k, (s.elements k).data = some e
  nodup : l.Nodup
  kept : ∀ k e, (s.elements k).data = some e → e ∉ l
  handed : ∀ e ∈ l, .ok e.1 e.2 ∈ s.pulls

theorem Reached.home (h : Reached cfg s a) {k : Nat} {e : Nat × V}
    (he : (s.elements k).data = some e) : k = cfg.slotOf e.1 := by
  have hvalue : (a.slot k).value = some e := by
    have hd := h.rel.data k
    split at hd
    · cases he.symm.trans hd
    · exact hd ▸ he
  cases hs : a.slot k with
  | free b | shut => simp [hs, Slot.value] at hvalue
  | full i v l₁ l₂ =>
    rw [hs] at hvalue
    cases hvalue
    have hi := h.handed.ticket_claimed k i (by rw [hs]; rfl)
    exact (h.inv.claimed_slot k i hi).symm
  | busy o b l₁ l₂ =>
    rw [hs] at hvalue
    cases o with
    | handoff => cases hvalue
    | task p i v =>
      cases v with
      | none => cases hvalue
      | some v =>
        cases hvalue
        exact (h.inv.owner_slotOf k p i _ b l₁ l₂ hs).symm

section Ledger

variable {l : List (Nat × V)} {p : Tid}

theorem Ledger.init : Ledger (State.init : State V) [] := by
  constructor <;> simp [State.init, Element.init]

theorem Ledger.frame (h : Ledger s l) (hdata : ∀ k, (s'.elements k).data = (s.elements k).data)
    (hcons : s'.constructed = s.constructed) (hpulls : ∀ x ∈ s.pulls, x ∈ s'.pulls) :
    Ledger s' l where
  split := by
    intro e
    rw [hcons]
    simp only [hdata]
    exact h.split e
  nodup := h.nodup
  kept := by
    intro k e he
    exact h.kept k e (hdata k ▸ he)
  handed := fun e he => hpulls _ (h.handed e he)

theorem Ledger.construct (h : Ledger s l) {k : Nat} {e : Nat × V} (hempty : (s.elements k).data = none)
    (hnew : e ∉ s.constructed) (hself : (s'.elements k).data = some e)
    (hdata : ∀ j, j ≠ k → (s'.elements j).data = (s.elements j).data)
    (hcons : s'.constructed = s.constructed ++ [e]) (hpulls : s'.pulls = s.pulls) :
    Ledger s' l where
  split := by
    intro e'
    rw [hcons, List.mem_append, List.mem_singleton, h.split]
    constructor
    · rintro ((he | ⟨j, hj⟩) | rfl)
      · exact .inl he
      · refine .inr ⟨j, ?_⟩
        rw [hdata j, hj]
        rintro rfl
        cases hempty.symm.trans hj
      · exact .inr ⟨k, hself⟩
    · rintro (he | ⟨j, hj⟩)
      · exact .inl (.inl he)
      · by_cases hjk : j = k
        · subst hjk
          exact .inr (Option.some.inj (hself.symm.trans hj)).symm
        · exact .inl (.inr ⟨j, hdata j hjk ▸ hj⟩)
  nodup := h.nodup
  kept := by
    intro j e' hj he'
    by_cases hjk : j = k
    · subst hjk
      obtain rfl : e = e' := Option.some.inj (hself.symm.trans hj)
      exact hnew ((h.split e).mpr (.inl he'))
    · exact h.kept j e' (hdata j hjk ▸ hj) he'
  handed := hpulls ▸ h.handed

theorem Ledger.destroy (h : Ledger s l) {k : Nat} {e : Nat × V} (hfull : (s.elements k).data = some e)
    (honly : ∀ j, (s.elements j).data = some e → j = k) (hself : (s'.elements k).data = none)
    (hdata : ∀ j, j ≠ k → (s'.elements j).data = (s.elements j).data)
    (hcons : s'.constructed = s.constructed) (hpulls : s'.pulls = s.pulls)
    (hhanded : .ok e.1 e.2 ∈ s.pulls) : Ledger s' (l ++ [e]) where
  split := by
    intro e'
    rw [hcons, h.split, List.mem_append, List.mem_singleton]
    constructor
    · rintro (he | ⟨j, hj⟩)
      · exact .inl (.inl he)
      · by_cases hjk : j = k
        · subst hjk
          exact .inl (.inr (Option.some.inj (hfull.symm.trans hj)).symm)
        · exact .inr ⟨j, (hdata j hjk).trans hj⟩
    · rintro ((he | rfl) | ⟨j, hj⟩)
      · exact .inl he
      · exact .inr ⟨k, hfull⟩
      · refine .inr ⟨j, ?_⟩
        rw [← hdata j, hj]
        rintro rfl
        cases hself.symm.trans hj
  nodup := by
    rw [List.nodup_append]
    refine ⟨h.nodup, List.nodup_singleton e, ?_⟩
    rintro x hx y hy rfl
    rw [List.mem_singleton.mp hy] at hx
    exact h.kept k e hfull hx
  kept := by
    intro j e' hj he'
    have hjk : j ≠ k := by
      rintro rfl
      cases hself.symm.trans hj
    rw [hdata j hjk] at hj
    rcases List.mem_append.mp he' with he' | he'
    · exact h.kept j e' hj he'
    · rw [List.mem_singleton.mp he'] at hj
      exact hjk (honly j hj)
  handed := by
    intro e' he'
    rw [hpulls]
    rcases List.mem_append.mp he' with he' | he'
    · exact h.handed e' he'
    · rw [List.mem_singleton.mp he']
      exact hhanded

theorem State.taskStep_constructed {spurious : Bool} (h : s.taskStep cfg p spurious = some s') :
    s'.pulls = s.pulls ∧ (s'.constructed = s.constructed ∨
      ∃ v i, s.task p = .emplace v i ∧ s'.constructed = s.constructed ++ [(i, v)]) := by
  simp only [State.taskStep] at h
  grind [State.afterClaimLoad, State.afterParkLoad, State.afterCloseLoad, State.resumeConsumer,
    State.setTask, State.setConsumer, State.setElem, State.setFlags, State.check,
    State.returnPush, State.returnClose]

theorem State.consumerStep_constructed {spurious : Bool}
    (h : s.consumerStep cfg spurious = some s') :
    s'.constructed = s.constructed ∧ ∀ x ∈ s.pulls, x ∈ s'.pulls := by
  simp only [State.consumerStep] at h
  split at h <;> grind [State.handOut, State.afterPoll.eq_def, State.afterLoadFlags,
    State.afterDrainLoad, State.afterReverse.eq_def, State.resumeProducer, State.setTask,
    State.setConsumer, State.setElem, State.setFlags, State.check, State.returnPull]

theorem Ledger.step (h : Ledger s l) (hr : Reached cfg s a) {act : Act V}
    (hstep : MpscBounded.step cfg s act = some s') : Ledger s' (released cfg s l act s') := by
  cases act with
  | push p v | close p =>
    simp only [MpscBounded.step] at hstep
    split at hstep <;> cases hstep
    exact h.frame (fun _ => rfl) rfl (fun _ => id)
  | pull k =>
    simp only [MpscBounded.step] at hstep
    split at hstep
    · split at hstep <;> cases hstep
      exact h.frame (fun _ => rfl) rfl (fun _ => id)
    · cases hstep
  | consumer spurious =>
    obtain ⟨hcons, hpulls⟩ := State.consumerStep_constructed hstep
    exact h.frame (fun _ => State.consumerStep_data hstep) hcons hpulls
  | task p spurious =>
    obtain ⟨hpulls, hcons | ⟨v, i, hpc, hcons⟩⟩ := State.taskStep_constructed hstep
    · refine h.frame (fun k => ?_) hcons (fun _ => hpulls ▸ id)
      rcases State.taskStep_data (k := k) hstep with hk | ⟨v, i, hpc, rfl⟩
      · exact hk
      · simp only [MpscBounded.step, State.taskStep, hpc, Option.some.injEq] at hstep
        subst hstep
        simp [State.setTask] at hcons
    · have hrole := hr.rel.role_eq hpc
      obtain ⟨b, l₁, l₂, hs⟩ := hr.inv.writing_slot p i v hrole
      refine h.construct (k := cfg.slotOf i) (e := (i, v)) ?_ ?_ ?_ ?_ hcons hpulls
      · rw [hr.rel.data, hs]
        split <;> rfl
      · intro he
        rw [hr.rel.constructed] at he
        exact hr.values.writing_new hr.inv hr.pushes hrole (List.mem_map_of_mem he)
      · simp only [MpscBounded.step, State.taskStep, hpc, Option.some.injEq] at hstep
        subst hstep
        simp [State.setTask, State.setElem, State.check]
      · intro j hj
        rcases State.taskStep_data (k := j) hstep with hd | ⟨w, i', hpc', rfl⟩
        · exact hd
        · rw [hpc] at hpc'
          cases hpc'
          exact absurd rfl hj
  | release =>
    simp only [MpscBounded.step, State.release] at hstep
    split at hstep <;> cases hstep
    next idx hpc =>
      have hknows := hr.rel.consumer
      rw [hpc] at hknows
      obtain ⟨rfl, hc⟩ := hknows
      obtain ⟨i, v, l₁, l₂, hs⟩ := hr.inv.consumer_eq hc
      have hdata : (s.elem cfg a.reads).data = some (i, v) := by
        rw [hr.rel.elem_data (by simp [hc]), hs]
        rfl
      have hfreed : released cfg s l .release
          ({ (s.setElem cfg a.reads { s.elem cfg a.reads with data := none }).check
            (s.elem cfg a.reads).data.isSome with
            readOffset := a.reads + 1, consumer := .drainLoad a.reads }) = l ++ [(i, v)] := by
        simp only [released, hpc, hdata]
        rfl
      rw [hfreed]
      refine h.destroy (k := cfg.slotOf a.reads) hdata ?_ ?_ ?_ rfl rfl
        (hr.holding_handed hpc hdata)
      · exact fun j hj => (hr.home hj).trans (hr.home hdata).symm
      · simp [State.setElem, State.check]
      · exact fun j hj => congrArg Element.data (Function.update_of_ne hj ..)

end Ledger

theorem releasing_reached {x : State V × List (Nat × V)}
    (h : (releasing V cfg).Reach (fun x act => x.1.compares cfg act = true) x) :
    ∃ a, Reached cfg x.1 a ∧ Ledger x.1 x.2 := by
  refine System.Reach.invariant (I := fun x => ∃ a, Reached cfg x.1 a ∧ Ledger x.1 x.2) ?_ ?_ h
  · rintro ⟨s, l⟩ ⟨rfl, rfl⟩
    exact ⟨_, .init, .init⟩
  · rintro ⟨s, l⟩ act ⟨s', l'⟩ ⟨a, hr, hl⟩ hok ⟨hs, hl'⟩
    obtain rfl : l' = released cfg s l act s' := hl'
    obtain ⟨a', hr', -⟩ := hr.step hok hs
    exact ⟨a', hr', hl.step hr hs⟩

/-! ## The rounds that are left -/

section Quiet

theorem Reached.quiet_role (h : Reached cfg s a) (hq : s.Quiet) (p : Tid) : a.role p = .out := by
  rw [h.rel.role, hq.1 p]
  rfl

theorem Reached.quiet_away (h : Reached cfg s a) (hq : s.Quiet) : a.crole = .away := by
  have hknows := h.rel.consumer
  rwa [hq.2] at hknows

theorem Reached.quiet_slot (h : Reached cfg s a) (hq : s.Quiet) (k : Nat) :
    a.slot k = .free false ∨ (∃ i v, a.slot k = .full i v [] []) ∨ a.slot k = .shut := by
  have hrole := h.quiet_role hq
  have haway := h.quiet_away hq
  have hwaiters : (a.slot k).waiters = [] := by
    rw [List.eq_nil_iff_forall_not_mem]
    intro p hp
    obtain ⟨i, v, hpark, -⟩ := h.inv.waiter_parked k p hp
    cases (hrole p).symm.trans hpark
  cases hs : a.slot k with
  | shut => exact .inr (.inr rfl)
  | full i v l₁ l₂ =>
    rw [hs, Slot.waiters, List.append_eq_nil_iff] at hwaiters
    obtain ⟨rfl, rfl⟩ : l₁ = [] ∧ l₂ = [] := hwaiters
    exact .inr (.inl ⟨i, v, rfl⟩)
  | free b =>
    cases b with
    | false => exact .inl rfl
    | true =>
      have := (h.inv.armed_at k (by rw [hs]; rfl)).1
      cases haway.symm.trans this
  | busy o b l₁ l₂ =>
    match o with
    | .handoff =>
      have := (h.inv.handoff_handing k b l₁ l₂ hs).1
      cases haway.symm.trans this
    | .task p i none =>
      obtain ⟨v, hw⟩ := h.inv.owner_writing k p i b l₁ l₂ hs
      cases (hrole p).symm.trans hw
    | .task p i (some v) =>
      have hw := h.inv.owner_written k p i v b l₁ l₂ hs
      cases (hrole p).symm.trans hw

theorem Reached.quiet_data (h : Reached cfg s a) (hq : s.Quiet) (k : Nat) :
    (s.elements k).data.isSome = (s.elements k).flags.data := by
  have haway := h.quiet_away hq
  rw [h.rel.data, h.rel.flags, if_neg (by simp [haway])]
  rcases h.quiet_slot hq k with hs | ⟨i, v, hs⟩ | hs <;> rw [hs] <;> rfl

/-- Every ticket before the cutoff was given its slot, unless that slot is shut. -/
theorem Reached.quiet_card (h : Reached cfg s a) (hq : s.Quiet) {c : Nat}
    (hc : a.stage.cutoff = some c) {k : Nat} (hk : a.slot k ≠ .shut) :
    (a.claimed k).card = visits cfg.slotOf k c := by
  refine Nat.le_antisymm ?_ ?_
  · exact card_le_visits fun i hi => ⟨h.inv.claimed_cut k i c hi hc, h.inv.claimed_slot k i hi⟩
  · refine visits_le_card fun i hi hik => ?_
    rcases h.inv.accounted i (hi.trans (h.inv.cutoff_lt c hc)) with hmem | ⟨p, hp⟩ | ⟨c', hc', hle⟩ | hs
    · exact hik ▸ hmem
    · rw [h.quiet_role hq] at hp
      cases hp
    · obtain rfl := Option.some.inj (hc.symm.trans hc')
      exact absurd hi (Nat.not_lt.mpr hle)
    · exact absurd (hik ▸ hs) hk

/-- Between `read_offset` and the cutoff a slot with a value is visited once. -/
theorem Reached.visits_left (h : Reached cfg s a) (hq : s.Quiet) {c : Nat}
    (hc : a.stage.cutoff = some c) {k : Nat} (hk : (s.elements k).flags.data = true) :
    visits cfg.slotOf k c = visits cfg.slotOf k a.reads + 1 := by
  rw [h.rel.flags, Slot.data_flags] at hk
  obtain ⟨i, v, l₁, l₂, hs⟩ := hk
  have hne : a.slot k ≠ .shut := by simp [hs]
  have hfront : a.front = a.reads := if_neg (by simp [h.quiet_away hq])
  rw [← h.quiet_card hq hc hne, h.inv.count k hne, hfront, hs]
  rfl

theorem Reached.quiet_done (h : Reached cfg s a) (hq : s.Quiet) (hcl : s.closed = true) :
    a.stage = .done s.writeClosedAt := by
  rw [h.rel.closed] at hcl
  cases hst : a.stage with
  | opened => simp [hst, Stage.closed] at hcl
  | won p =>
    have := h.rel.stage_won p hst
    rw [hq.1 p] at this
    cases this
  | cut p c ph =>
    have := h.rel.stage_cut p c ph hst
    rw [hq.1 p] at this
    cases this
  | done c => rw [h.rel.closedAt c (by rw [hst]; rfl) (by simp [hst])]

end Quiet

/-! ## The sweep -/

section Sweep

variable {l : List (Nat × V)} {p : Tid} {idx : Nat} {y y' : Destructor V}

/-- The sweep of the queue `s` has come to `idx`: it has destroyed the values of the
slots that it has visited, and nothing else has changed. -/
structure Sweeping (cfg : Config) (s : State V) (idx : Nat) (y : Destructor V) : Prop where
  reads_le : s.readOffset ≤ idx
  le : idx ≤ s.writeClosedAt
  flags : ∀ k, (y.queue.elements k).flags = (s.elements k).flags
  data : ∀ k, (y.queue.elements k).data =
    if visits cfg.slotOf k s.readOffset < visits cfg.slotOf k idx then none else (s.elements k).data
  destroyed : ∀ e, e ∈ y.destroyed ↔
    ∃ k, (s.elements k).data = some e ∧ visits cfg.slotOf k s.readOffset < visits cfg.slotOf k idx
  nodup : y.destroyed.Nodup
  constructed : y.queue.constructed = s.constructed
  pulls : y.queue.pulls = s.pulls
  sound : y.queue.broken = false

theorem Sweeping.start (h : Reached cfg s a) (hle : s.readOffset ≤ s.writeClosedAt) :
    Sweeping cfg s s.readOffset ⟨s, .sweep s.writeClosedAt s.readOffset, []⟩ where
  reads_le := le_rfl
  le := hle
  flags := fun _ => rfl
  data := fun _ => (if_neg (Nat.lt_irrefl _)).symm
  destroyed := by simp
  nodup := List.nodup_nil
  constructed := rfl
  pulls := rfl
  sound := h.rel.sound

theorem Sweeping.pass (h : Sweeping cfg s idx y) (hr : Reached cfg s a) (hq : s.Quiet)
    (hlt : idx < s.writeClosedAt) (hf : (s.elements (cfg.slotOf idx)).flags.data = false)
    (pc : DestructorPc) : Sweeping cfg s (idx + 1) { y with pc } := by
  have hnone : (s.elements (cfg.slotOf idx)).data = none := by
    rw [← Option.isNone_iff_eq_none, ← Option.not_isSome, hr.quiet_data hq, hf]
    rfl
  have hother : ∀ k, (s.elements k).data ≠ none →
      visits cfg.slotOf k (idx + 1) = visits cfg.slotOf k idx := by
    intro k hk
    refine visits_succ_of_ne ?_
    rintro rfl
    exact hk hnone
  refine { h with reads_le := h.reads_le.trans (Nat.le_succ _), le := hlt, data := ?_, destroyed := ?_ }
  · intro k
    rw [h.data k]
    by_cases hk : (s.elements k).data = none
    · rw [hk, ite_self, ite_self]
    · rw [hother k hk]
  · intro e
    rw [h.destroyed]
    refine exists_congr fun k => and_congr_right fun hk => ?_
    rw [hother k (by simp [hk])]

/-- The slot of `idx` holds a value, which the sweep comes to for the first time. -/
theorem Sweeping.destroy (h : Sweeping cfg s idx y) (hr : Reached cfg s a) (hq : s.Quiet)
    (hcut : a.stage.cutoff = some s.writeClosedAt) (hlt : idx < s.writeClosedAt)
    (hf : (s.elements (cfg.slotOf idx)).flags.data = true) (pc : DestructorPc) :
    Sweeping cfg s (idx + 1) {
      queue := (y.queue.setElem cfg idx { y.queue.elem cfg idx with data := none }).check
        (y.queue.elem cfg idx).data.isSome
      pc
      destroyed := y.destroyed ++ (y.queue.elem cfg idx).data.toList } := by
  have hsucc : visits cfg.slotOf (cfg.slotOf idx) (idx + 1) =
      visits cfg.slotOf (cfg.slotOf idx) idx + 1 := visits_succ_of_eq rfl
  have hfirst : ¬visits cfg.slotOf (cfg.slotOf idx) s.readOffset <
      visits cfg.slotOf (cfg.slotOf idx) idx := by
    have hleft := hr.visits_left hq hcut hf
    rw [← hr.rel.reads] at hleft
    have hle : idx + 1 ≤ s.writeClosedAt := hlt
    have hmono := visits_mono (f := cfg.slotOf) (k := cfg.slotOf idx) hle
    omega
  have hnow : visits cfg.slotOf (cfg.slotOf idx) s.readOffset <
      visits cfg.slotOf (cfg.slotOf idx) (idx + 1) := by
    have hmono := visits_mono (f := cfg.slotOf) (k := cfg.slotOf idx) h.reads_le
    omega
  have hother : ∀ k, k ≠ cfg.slotOf idx →
      visits cfg.slotOf k (idx + 1) = visits cfg.slotOf k idx := fun k hk => visits_succ_of_ne hk.symm
  obtain ⟨e, he⟩ : ∃ e, (s.elements (cfg.slotOf idx)).data = some e := by
    rw [← Option.isSome_iff_exists, hr.quiet_data hq, hf]
  have hdata : (y.queue.elem cfg idx).data = some e := by
    rw [State.elem, h.data, if_neg hfirst, he]
  have hmem : ∀ e', e' ∈ y.destroyed ++ (y.queue.elem cfg idx).data.toList ↔
      e' ∈ y.destroyed ∨ e' = e := by
    intro e'
    rw [hdata, List.mem_append, Option.toList_some, List.mem_singleton]
  constructor
  · exact h.reads_le.trans (Nat.le_succ _)
  · exact hlt
  · intro k
    rw [← h.flags k]
    by_cases hk : k = cfg.slotOf idx
    · subst hk
      simp [State.check, State.setElem, State.elem]
    · exact congrArg Element.flags (Function.update_of_ne hk ..)
  · intro k
    by_cases hk : k = cfg.slotOf idx
    · subst hk
      rw [if_pos hnow]
      simp [State.check, State.setElem]
    · rw [hother k hk, ← h.data k]
      exact congrArg Element.data (Function.update_of_ne hk ..)
  · intro e'
    rw [hmem, h.destroyed]
    constructor
    · rintro (⟨k, hk, hv⟩ | rfl)
      · exact ⟨k, hk, hv.trans_le (visits_mono (Nat.le_succ _))⟩
      · exact ⟨_, he, hnow⟩
    · rintro ⟨k, hk, hv⟩
      by_cases hki : k = cfg.slotOf idx
      · subst hki
        exact .inr (Option.some.inj (hk.symm.trans he))
      · exact .inl ⟨k, hk, hother k hki ▸ hv⟩
  · rw [hdata, Option.toList_some, List.nodup_append]
    refine ⟨h.nodup, List.nodup_singleton e, ?_⟩
    rintro x hx z hz rfl
    rw [List.mem_singleton.mp hz, h.destroyed] at hx
    obtain ⟨k, hk, hv⟩ := hx
    rw [(hr.home hk).trans (hr.home he).symm] at hv
    exact hfirst hv
  · exact h.constructed
  · exact h.pulls
  · rw [hdata]
    exact (Bool.or_eq_false_iff.mpr ⟨h.sound, rfl⟩)

/-- Where the destructor is in a run beside which the scopes have destroyed `l`. -/
def Destructor.Ok (cfg : Config) (p : Tid) (l : List (Nat × V)) (y : Destructor V) : Prop :=
  match y.pc with
  | .closing =>
    ((releasing V cfg).Reach (fun x act => x.1.compares cfg act = true) (y.queue, l)) ∧
      (∀ q, q ≠ p → y.queue.task q = .idle) ∧ y.queue.consumer = .idle ∧
      (y.queue.task p = .closeCas ∨ y.queue.closed = true) ∧ y.destroyed = []
  | .sweep stop idx => ∃ s a, Reached cfg s a ∧ Ledger s l ∧ s.Quiet ∧ s.closed = true ∧
    stop = s.writeClosedAt ∧ Sweeping cfg s idx y
  | .done => ∃ s a, Reached cfg s a ∧ Ledger s l ∧ s.Quiet ∧ s.closed = true ∧
    Sweeping cfg s s.writeClosedAt y

theorem State.taskStep_idle {spurious : Bool} (h : s.taskStep cfg p spurious = some s')
    (hc : s.consumer = .idle) :
    s'.consumer = .idle ∧ (s.task p = .closeCas → s'.closed = true) := by
  simp only [State.taskStep] at h
  grind [State.afterClaimLoad, State.afterParkLoad, State.afterCloseLoad, State.resumeConsumer,
    State.setTask, State.setConsumer, State.setElem, State.setFlags, State.check,
    State.returnPush, State.returnClose]

theorem Destructor.Ok.start
    (h : (releasing V cfg).Reach (fun x act => x.1.compares cfg act = true) (s, l))
    (hq : s.Quiet) : (Destructor.start p s).Ok cfg p l := by
  have hstep : (releasing V cfg).step (s, l) (.close p) (s.setTask p .closeCas, l) := by
    refine ⟨?_, rfl⟩
    show MpscBounded.step cfg s (.close p) = _
    simp only [MpscBounded.step, hq.1 p]
  exact ⟨.step h rfl hstep, fun q hqp => (Function.update_of_ne hqp ..).trans (hq.1 q), hq.2,
    .inl (Function.update_self ..), rfl⟩

theorem Destructor.Ok.step (h : y.Ok cfg p l) {spurious : Bool}
    (hok : y.compares cfg p spurious = true) (hstep : y.step cfg p spurious = some y') :
    y'.Ok cfg p l := by
  obtain ⟨queue, pc, destroyed⟩ := y
  cases pc with
  | done => cases hstep
  | closing =>
    obtain ⟨hrun, hothers, hcons, hclosed, hnil⟩ := h
    simp only [Destructor.step] at hstep
    split at hstep
    · next hidle =>
      cases hstep
      obtain ⟨a, hr, hl⟩ := releasing_reached hrun
      have hq : queue.Quiet := by
        refine ⟨fun q => ?_, hcons⟩
        by_cases hqp : q = p
        · exact hqp ▸ hidle
        · exact hothers q hqp
      have hcl : queue.closed = true := hclosed.resolve_left (by simp [hidle])
      have hdone := hr.quiet_done hq hcl
      have hle : queue.readOffset ≤ queue.writeClosedAt := by
        rw [hr.rel.reads]
        exact hr.inv.reads_cut _ (by rw [hdone]; rfl)
      obtain rfl : destroyed = [] := hnil
      exact ⟨queue, a, hr, hl, hq, hcl, rfl, .start hr hle⟩
    · obtain ⟨s', hs, rfl⟩ := Option.map_eq_some_iff.mp hstep
      obtain ⟨hcons', hcl'⟩ := State.taskStep_idle hs hcons
      have hok : queue.compares cfg (.task p spurious) = true := hok
      have hnext : (releasing V cfg).step (queue, l) (.task p spurious) (s', l) := ⟨hs, rfl⟩
      refine ⟨.step hrun hok hnext, fun q hqp => ?_, hcons', .inr ?_, hnil⟩
      · exact (State.taskStep_other hs hqp).trans (hothers q hqp)
      · rcases hclosed with hpc | hcl
        · exact hcl' hpc
        · exact (State.taskStep_grows hs).2 hcl
  | sweep stop idx =>
    obtain ⟨s, a, hr, hl, hq, hcl, rfl, hsw⟩ := h
    have hcut : a.stage.cutoff = some s.writeClosedAt := by rw [hr.quiet_done hq hcl]; rfl
    have hflags : (queue.elem cfg idx).flags = (s.elements (cfg.slotOf idx)).flags := hsw.flags _
    simp only [Destructor.step] at hstep
    split at hstep
    · next hlt =>
      have hlt := Config.lt_of_ordered hok hlt
      split at hstep <;> cases hstep
      · next hf =>
        exact ⟨s, a, hr, hl, hq, hcl, rfl, hsw.destroy hr hq hcut hlt (hflags ▸ hf) _⟩
      · next hf =>
        have hf : (s.elements (cfg.slotOf idx)).flags.data = false := by
          rw [← hflags]
          exact Bool.not_eq_true _ ▸ hf
        exact ⟨s, a, hr, hl, hq, hcl, rfl, hsw.pass hr hq hlt hf _⟩
    · next hge =>
      cases hstep
      have hge := Config.le_of_ordered hok (Bool.not_eq_true _ ▸ hge)
      obtain rfl := Nat.le_antisymm hsw.le hge
      exact ⟨s, a, hr, hl, hq, hcl, { hsw with }⟩

end Sweep

/-! ## Every value is destroyed once -/

/-- Who has destroyed which values: `l` are those of the scopes. -/
structure DestroyedOnce (l : List (Nat × V)) (y : Destructor V) : Prop where
  /-- A value is constructed in an empty slot, and it is there when it is destroyed. -/
  sound : y.queue.broken = false
  /-- No value is destroyed twice. -/
  once : (l ++ y.destroyed).Nodup
  /-- What is destroyed was constructed. -/
  constructed : ∀ e ∈ l ++ y.destroyed, e ∈ y.queue.constructed
  /-- A scope destroys the value that it was handed. -/
  handed : ∀ e ∈ l, .ok e.1 e.2 ∈ y.queue.pulls
  /-- In the end every value that was constructed is destroyed. -/
  all : y.pc = .done → (l ++ y.destroyed).Perm y.queue.constructed

section DestroyedOnce

variable {l : List (Nat × V)} {p : Tid} {idx : Nat} {y : Destructor V}

theorem Sweeping.destroyedOnce (h : Sweeping cfg s idx y) (hr : Reached cfg s a)
    (hl : Ledger s l) (hq : s.Quiet) (hcut : a.stage.cutoff = some s.writeClosedAt)
    (hdone : y.pc = .done → idx = s.writeClosedAt) : DestroyedOnce l y := by
  have hnodup : (l ++ y.destroyed).Nodup := by
    rw [List.nodup_append]
    refine ⟨hl.nodup, h.nodup, ?_⟩
    rintro e he _ he' rfl
    obtain ⟨k, hk, -⟩ := (h.destroyed e).mp he'
    exact hl.kept k e hk he
  have hcons : ∀ e ∈ l ++ y.destroyed, e ∈ y.queue.constructed := by
    intro e he
    rw [h.constructed, hl.split]
    rcases List.mem_append.mp he with he | he
    · exact .inl he
    · obtain ⟨k, hk, -⟩ := (h.destroyed e).mp he
      exact .inr ⟨k, hk⟩
  refine ⟨h.sound, hnodup, hcons, h.pulls ▸ hl.handed, fun hpc => ?_⟩
  have hall : ∀ e ∈ y.queue.constructed, e ∈ l ++ y.destroyed := by
    intro e he
    rw [h.constructed, hl.split] at he
    rcases he with he | ⟨k, hk⟩
    · exact List.mem_append_left _ he
    · refine List.mem_append_right _ ((h.destroyed e).mpr ⟨k, hk, ?_⟩)
      have hf : (s.elements k).flags.data = true := by rw [← hr.quiet_data hq, hk]; rfl
      rw [hdone hpc, hr.visits_left hq hcut hf, hr.rel.reads]
      exact Nat.lt_succ_self _
  have hdistinct : y.queue.constructed.Nodup := by
    rw [h.constructed, hr.rel.constructed]
    exact .of_map _ hr.values.nodup
  exact (List.perm_ext_iff_of_nodup hnodup hdistinct).mpr fun e => ⟨hcons e, hall e⟩

theorem Destructor.Ok.destroyedOnce (h : y.Ok cfg p l) : DestroyedOnce l y := by
  obtain ⟨queue, pc, destroyed⟩ := y
  cases pc with
  | closing =>
    obtain ⟨hrun, -, -, -, hnil⟩ := h
    obtain ⟨a, hr, hl⟩ := releasing_reached hrun
    obtain rfl : destroyed = [] := hnil
    refine ⟨hr.rel.sound, ?_, fun e he => ?_, hl.handed, nofun⟩
    · simpa using hl.nodup
    · rw [List.append_nil] at he
      exact (hl.split e).mpr (.inl he)
  | sweep stop idx =>
    obtain ⟨s, a, hr, hl, hq, hcl, -, hsw⟩ := h
    exact hsw.destroyedOnce hr hl hq (by rw [hr.quiet_done hq hcl]; rfl) nofun
  | done =>
    obtain ⟨s, a, hr, hl, hq, hcl, hsw⟩ := h
    exact hsw.destroyedOnce hr hl hq (by rw [hr.quiet_done hq hcl]; rfl) fun _ => rfl

/-- Whatever the interleaving, in a run whose comparisons come out right every value is
destroyed once: by the scope that it was handed to or by the destructor. -/
theorem destroyed_once {x : State V × List (Nat × V)}
    (h : (releasing V cfg).Reach (fun x act => x.1.compares cfg act = true) x)
    (hq : x.1.Quiet) (hy : (Destructor.system cfg p x.1).Reach
      (fun y spurious => y.compares cfg p spurious = true) y) : DestroyedOnce x.2 y := by
  have hok : y.Ok cfg p x.2 := by
    refine System.Reach.invariant (I := Destructor.Ok cfg p x.2) ?_ ?_ hy
    · rintro y rfl
      exact .start h hq
    · exact fun y spurious y' hy hok hs => hy.step hok hs
  exact hok.destroyedOnce

end DestroyedOnce

/-! ## Runs -/

def releasingStep (cfg : Config) (x : State V × List (Nat × V)) (act : Act V) :
    Option (State V × List (Nat × V)) :=
  (step cfg x.1 act).map fun s => (s, released cfg x.1 x.2 act s)

theorem releasing_run (acts : List (Act V)) {x : State V × List (Nat × V)}
    (h : acts.foldlM (fun x act => if x.1.compares cfg act = true then releasingStep cfg x act
      else none) (State.init, []) = some x) :
    (releasing V cfg).Reach (fun x act => x.1.compares cfg act = true) x :=
  System.Reach.noting_of (System.ofStep_reach acts (.init rfl) h)

/-- With two slots: 10 is pushed, task 0 takes ticket 1 and stalls, 10 is pulled, and 11
is pushed with ticket 2.  The queue is closed at ticket 3, so that slot 1 gets the sentinel
that turns ticket 1 away. -/
def leaveOne : List (Act Nat) := List.flatten
  [[.push 1 10], List.replicate 7 (.task 1 false), [.push 0 12], List.replicate 2 (.task 0 false),
   [.pull .pull, .consumer false, .release], List.replicate 2 (.consumer false), [.push 1 11],
   List.replicate 7 (.task 1 false), [.close 1], List.replicate 6 (.task 1 false), [.task 0 false]]

theorem run_leaveOne : ∃ x y, leaveOne.foldlM (fun x act =>
      if x.1.compares twoSlots act = true then releasingStep twoSlots x act else none)
      (State.init, []) = some x ∧ x.1.Quiet ∧
    (List.replicate 5 false).foldlM (fun y b =>
      if y.compares twoSlots 1 b = true then y.step twoSlots 1 b else none)
      (Destructor.start 1 x.1) = some y ∧
    x.2 = [(0, 10)] ∧ y.destroyed = [(2, 11)] ∧ y.pc = .done := by
  refine ⟨_, _, rfl, ⟨fun p => ?_, rfl⟩, rfl, rfl, rfl, rfl⟩
  match p with
  | 0 | 1 => rfl
  | p + 2 => rfl

theorem destroyed_once_leaveOne : ∃ (x : State Nat × List (Nat × Nat)) (y : Destructor Nat),
    x.2 = [(0, 10)] ∧ y.destroyed = [(2, 11)] ∧ y.pc = .done ∧ DestroyedOnce x.2 y := by
  obtain ⟨x, y, hx, hq, hy, hl, hd, hpc⟩ := run_leaveOne
  exact ⟨x, y, hl, hd, hpc, destroyed_once (releasing_run leaveOne hx) hq
    (System.ofStep_reach (List.replicate 5 false) (.init rfl) hy)⟩

theorem narrow_fits : 2 ≤ 2 ^ (32 - 1) := by decide

/-- A 32-bit platform and two slots. -/
def narrow : Config := ⟨32, 2, true, Nat.two_pos, narrow_fits⟩

/-- `s` is reached by a run in which no scope has destroyed a value. -/
def Unreleased (s : State Unit) : Prop :=
  (System.ofStep (State.init, []) (releasingStep narrow)).Reachable (s, [])

theorem Unreleased.step {s s' : State Unit} (h : Unreleased s) {act : Act Unit}
    (hact : act ≠ .release) (hs : MpscBounded.step narrow s act = some s') : Unreleased s' := by
  have hnil : released narrow s [] act s' = [] := by
    cases act with
    | release => exact absurd rfl hact
    | _ => rfl
  have hstep : releasingStep narrow (s, []) act = some (s', []) := by
    rw [releasingStep, hs]
    exact congrArg (fun l => some (s', l)) hnil
  exact System.Reachable.step h hstep

/-- A queue has been closed at ticket 0 and has given out `n` tickets.  Task 0 is at `pc`,
slot 1 is `e` and `l` has been constructed; nobody else is in a call. -/
structure Shut (n : Nat) (pc : Pc Unit) (e : Element Unit) (l : List (Nat × Unit))
    (s : State Unit) : Prop where
  run : Unreleased s
  writeOffset : s.writeOffset = n
  readOffset : s.readOffset = 0
  closed : s.closed = true
  closedReady : s.closedReady = true
  writeClosedAt : s.writeClosedAt = 0
  task : s.task 0 = pc
  idle : ∀ p : Nat, 0 < p → s.task p = .idle
  consumer : s.consumer = .idle
  element : s.elements 1 = e
  constructed : s.constructed = l

def shut : List (Act Unit) := .close 1 :: List.replicate 6 (.task 1 false)

namespace Shut

variable {n i : Nat} {pc : Pc Unit} {e : Element Unit} {l : List (Nat × Unit)} {s s' : State Unit}

theorem start : ∃ s, Shut 1 .idle .init [] s := by
  obtain ⟨x, hx, hnil, h⟩ : ∃ x, shut.foldlM (releasingStep narrow) (State.init, []) = some x ∧
      x.2 = [] ∧ x.1.writeOffset = 1 ∧ x.1.readOffset = 0 ∧ x.1.closed = true ∧
      x.1.closedReady = true ∧ x.1.writeClosedAt = 0 ∧ x.1.task 0 = .idle ∧
      (∀ p : Nat, 0 < p → x.1.task p = .idle) ∧ x.1.consumer = .idle ∧ x.1.elements 1 = .init ∧
      x.1.constructed = [] := by
    refine ⟨_, rfl, rfl, rfl, rfl, rfl, rfl, rfl, rfl, fun p hp => ?_, rfl, rfl, rfl⟩
    match p with
    | 1 => rfl
    | p + 2 => rfl
  obtain ⟨s, l⟩ := x
  obtain rfl : l = [] := hnil
  obtain ⟨hw, hr, hc, hrd, ha, ht, hi, hcons, he, hl⟩ := h
  exact ⟨s, System.ofStep_reachable shut hx, hw, hr, hc, hrd, ha, ht, hi, hcons, he, hl⟩

theorem next (h : Shut n pc e l s) (act : Act Unit) (hact : act ≠ .release)
    (hs : MpscBounded.step narrow s act = some s') (hsame : s'.readOffset = s.readOffset ∧
      s'.closed = s.closed ∧ s'.closedReady = s.closedReady ∧ s'.writeClosedAt = s.writeClosedAt ∧
      s'.consumer = s.consumer ∧ ∀ p : Nat, 0 < p → s'.task p = s.task p) :
    Shut s'.writeOffset (s'.task 0) (s'.elements 1) s'.constructed s' := by
  obtain ⟨hr, hc, hrd, ha, hcons, ht⟩ := hsame
  exact ⟨h.run.step hact hs, rfl, hr.trans h.readOffset, hc.trans h.closed,
    hrd.trans h.closedReady, ha.trans h.writeClosedAt, rfl, fun p hp => (ht p hp).trans (h.idle p hp),
    hcons.trans h.consumer, rfl, rfl⟩

theorem setTask (h : Shut n pc e l s) (act : Act Unit) (hact : act ≠ .release) (pc' : Pc Unit)
    (hs : MpscBounded.step narrow s act = some (s.setTask 0 pc')) : ∃ s', Shut n pc' e l s' := by
  have := h.next act hact hs
    ⟨rfl, rfl, rfl, rfl, rfl, fun p hp => Function.update_of_ne (Nat.ne_of_gt hp) ..⟩
  rw [State.setTask_self] at this
  exact ⟨_, h.writeOffset ▸ h.element ▸ h.constructed ▸ this⟩

theorem setElem (h : Shut n pc e l s) (hi : narrow.slotOf i = 1) (act : Act Unit)
    (hact : act ≠ .release) (e' : Element Unit) (l' : List (Nat × Unit)) (pc' : Pc Unit)
    (hs : MpscBounded.step narrow s act =
      some (({ s with constructed := l' }.setElem narrow i e').setTask 0 pc')) :
    ∃ s', Shut n pc' e' l' s' := by
  have := h.next act hact hs
    ⟨rfl, rfl, rfl, rfl, rfl, fun p hp => Function.update_of_ne (Nat.ne_of_gt hp) ..⟩
  have he : (({ s with constructed := l' }.setElem narrow i e').setTask 0 pc').elements 1 = e' := by
    rw [← hi]
    exact Function.update_self ..
  rw [State.setTask_self, he] at this
  exact ⟨_, h.writeOffset ▸ this⟩

theorem elem (h : Shut n pc e l s) (hi : narrow.slotOf i = 1) : s.elem narrow i = e := by
  rw [State.elem, hi, h.element]

/-- Task 0 takes ticket `n` and comes to the closed test. -/
theorem take (h : Shut n .idle e l s) : ∃ s', Shut (n + 1) (.loadClosedAt () n) e l s' := by
  obtain ⟨s, h⟩ := h.setTask (.push 0 ()) (by simp) (.fetchTicket ()) (by simp only [step, h.task])
  obtain ⟨s, h⟩ : ∃ s', Shut (n + 1) (.loadClosed () n) e l s' := by
    have hs : MpscBounded.step narrow s (.task 0 false) =
        some ({ s with writeOffset := n + 1 }.setTask 0 (.loadClosed () n)) := by
      simp only [step, State.taskStep, h.task, h.writeOffset]
    have := h.next _ (by simp) hs
      ⟨rfl, rfl, rfl, rfl, rfl, fun p hp => Function.update_of_ne (Nat.ne_of_gt hp) ..⟩
    rw [State.setTask_self] at this
    exact ⟨_, h.element ▸ h.constructed ▸ this⟩
  obtain ⟨s, h⟩ := h.setTask (.task 0 false) (by simp) (.spinReady () n)
    (by simp [step, State.taskStep, h.task, h.closed])
  exact h.setTask (.task 0 false) (by simp) (.loadClosedAt () n)
    (by simp [step, State.taskStep, h.task, h.closedReady])

theorem returnPush (h : Shut n pc e l s) (act : Act Unit) (hact : act ≠ .release) {t : State Unit}
    (ok : Bool) (hs : MpscBounded.step narrow s act = some (t.returnPush 0 () i ok))
    (hsame : t.writeOffset = s.writeOffset ∧ t.readOffset = s.readOffset ∧ t.closed = s.closed ∧
      t.closedReady = s.closedReady ∧ t.writeClosedAt = s.writeClosedAt ∧
      t.consumer = s.consumer ∧ t.task = s.task ∧ t.constructed = s.constructed) :
    ∃ s', Shut n .idle (t.elements 1) l s' := by
  obtain ⟨hw, hr, hc, hrd, ha, hcons, ht, hl⟩ := hsame
  have := h.next act hact hs ⟨hr, hc, hrd, ha, hcons, fun p hp =>
    (Function.update_of_ne (Nat.ne_of_gt hp) ..).trans (congrFun ht p)⟩
  rw [State.returnPush_self, show (t.returnPush 0 () i ok).writeOffset = n from hw.trans h.writeOffset,
    show (t.returnPush 0 () i ok).constructed = l from hl.trans h.constructed] at this
  exact ⟨_, this⟩

theorem turnedAway (h : Shut n .idle e l s) (hn : circularLessThan narrow.bits n 0 = false) :
    ∃ s', Shut (n + 1) .idle e l s' := by
  obtain ⟨s, h⟩ := h.take
  have := h.returnPush (t := s) (i := n) (.task 0 false) (by simp) false
    (by simp [step, State.taskStep, h.task, h.writeClosedAt, hn]) (by simp)
  rwa [h.element] at this

/-- The closed test lets ticket `n` pass, and the push constructs its value in slot 1. -/
theorem accepted (h : Shut n .idle .init [] s) (hn : circularLessThan narrow.bits n 0 = true)
    (hslot : narrow.slotOf n = 1) : ∃ s' e, Shut (n + 1) .idle e [(n, ())] s' := by
  obtain ⟨s, h⟩ := h.take
  obtain ⟨s, h⟩ := h.setTask (.task 0 false) (by simp) (.claimLoad () n)
    (by simp [step, State.taskStep, h.task, h.writeClosedAt, hn])
  obtain ⟨s, h⟩ := h.setTask (.task 0 false) (by simp) (.claimCas () n .zero)
    (by simp [step, State.taskStep, h.task, h.elem hslot, State.afterClaimLoad, Element.init,
      Flags.zero, Flags.claimable])
  obtain ⟨s, h⟩ := h.setElem hslot (.task 0 false) (by simp)
    ⟨⟨true, false, false, .null⟩, none, false, 0, none⟩ [] (.emplace () n) (by
      simp only [step, State.taskStep, h.task, h.elem hslot, ← h.constructed]
      rw [if_pos (by simp [Element.init]), State.setFlags, h.elem hslot]
      rfl)
  obtain ⟨s, h⟩ := h.setElem hslot (.task 0 false) (by simp)
    ⟨⟨true, false, false, .null⟩, none, false, 0, some (n, ())⟩ [(n, ())] (.publishLoad () n) (by
      simp only [step, State.taskStep, h.task, h.elem hslot, h.constructed]
      rw [Option.isNone_none, State.check_true _ rfl]
      rfl)
  obtain ⟨s, h⟩ := h.setTask (.task 0 false) (by simp) (.publishCas () n ⟨true, false, false, .null⟩)
    (by simp only [step, State.taskStep, h.task, h.elem hslot])
  obtain ⟨s, h⟩ := h.returnPush (i := n)
    (t := s.setFlags narrow n ⟨false, true, false, .null⟩) (.task 0 false) (by simp) true (by
      have hcheck : s.check (true && !false) = s := State.check_true s rfl
      simp only [step, State.taskStep, h.task, hcheck, h.elem hslot]
      exact if_pos (by simp)) (by simp [State.setFlags, State.setElem])
  exact ⟨s, _, h⟩

theorem rounds : ∀ {n : Nat}, n ≤ 2 ^ 31 → ∃ s, Shut (n + 1) .idle .init [] s := by
  intro n
  induction n with
  | zero => exact fun _ => start
  | succ n ih =>
    intro hn
    obtain ⟨s, h⟩ := ih (Nat.le_of_succ_le hn)
    refine h.turnedAway ?_
    have hword : (n + 1) % 2 ^ 32 = n + 1 := Nat.mod_eq_of_lt (by omega)
    have hless : circularLessThan 32 (0 + (n + 1)) 0 = true ↔ 2 ^ 31 < (n + 1) % 2 ^ 32 :=
      circularLessThan_add
    rw [Nat.zero_add, hword] at hless
    exact Bool.not_eq_true _ ▸ fun hlt => absurd (hless.mp hlt) (by omega)

end Shut

/-- After 2^31 pushes that the closed queue has turned away, a push passes the closed test
behind the cutoff.  Its value is never handed out, and the destructor's sweep, from index 0
to the cutoff 0, does not destroy it. -/
theorem latePush_leaks : ∃ x : State Unit × List (Nat × Unit),
    (releasing Unit narrow).Reachable x ∧ x.1.Quiet ∧ x.1.constructed = [(2 ^ 31 + 1, ())] ∧
    ∃ y, (Destructor.system narrow 1 x.1).Reachable y ∧ y.pc = .done ∧
      ¬(x.2 ++ y.destroyed).Perm y.queue.constructed := by
  obtain ⟨s, h⟩ := Shut.rounds le_rfl
  have hless : circularLessThan narrow.bits (2 ^ 31 + 1) 0 = true := by decide
  obtain ⟨s, e, h⟩ := h.accepted hless (by decide)
  have hquiet : s.Quiet := by
    refine ⟨fun p => ?_, h.consumer⟩
    rcases Nat.eq_zero_or_pos p with rfl | hp
    · exact h.task
    · exact h.idle p hp
  refine ⟨(s, []), System.Reach.noting_of h.run, hquiet, h.constructed, ?_⟩
  have hself : (s.setTask 1 .closeCas).returnClose 1 = s.returnClose 1 := by
    simp [State.setTask, State.returnClose]
  let y : Destructor Unit := ⟨s.returnClose 1, .sweep 0 0, []⟩
  have hclosed : (s.setTask 1 .closeCas).taskStep narrow 1 false = some (s.returnClose 1) := by
    have hcl : (s.setTask 1 .closeCas).closed = true := h.closed
    simp only [State.taskStep, State.setTask_self, hcl, if_true, hself]
  have hclose : (Destructor.start 1 s).step narrow 1 false =
      some ⟨s.returnClose 1, .closing, []⟩ := by
    simp only [Destructor.step, Destructor.start, State.setTask_self, hclosed]
    rfl
  have hsweep : (⟨s.returnClose 1, .closing, []⟩ : Destructor Unit).step narrow 1 false = some y := by
    simp only [Destructor.step, State.returnClose_self]
    rw [show (s.returnClose 1).writeClosedAt = 0 from h.writeClosedAt,
      show (s.returnClose 1).readOffset = 0 from h.readOffset]
  have hdone : y.step narrow 1 false = some { y with pc := .done } := rfl
  have hreach : (Destructor.system narrow 1 s).Reachable { y with pc := .done } :=
    (((System.Reachable.init rfl).step hclose).step hsweep).step hdone
  have hcons : y.queue.constructed = [(2 ^ 31 + 1, ())] := h.constructed
  refine ⟨_, hreach, rfl, fun hperm => ?_⟩
  have hlen := hperm.length_eq
  rw [show ({ y with pc := .done } : Destructor Unit).queue.constructed = _ from hcons] at hlen
  cases hlen

end CoroUtil.MpscBounded
