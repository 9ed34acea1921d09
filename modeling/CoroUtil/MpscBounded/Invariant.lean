import CoroUtil.MpscBounded.Protocol

/-!
# What the slot protocol keeps

`Inv` ties the tickets, the slots, the consumer and the closer together.
-/

namespace CoroUtil.MpscBounded

open CoroUtil.General

variable {V : Type} {cfg : Config}

/-- The slot of index `n` holds a published value. -/
@[grind =] def FullAt (cfg : Config) (a : Abs V) (n : Nat) : Prop :=
  ∃ i v l₁ l₂, a.slot (cfg.slotOf n) = .full i v l₁ l₂

theorem FullAt.load {cfg : Config} {a : Abs V} {n : Nat} (h : FullAt cfg a n) :
    (a.slot (cfg.slotOf n)).load = 1 := by
  obtain ⟨i, v, l₁, l₂, hs⟩ := h
  rw [hs]
  rfl

/-- What the rest of the state is while the consumer has role `r`. -/
@[grind =] def ConsumerOk (cfg : Config) (a : Abs V) : ConsumerRole → Prop
  | .away | .arming _ => True
  | .armed => (a.slot (cfg.slotOf a.reads)).armed = true
  | .woken (some p) _ => FullAt cfg a a.reads ∧ ∃ i v, a.role p = .notify i v
  | .woken none t => ∃ p c, a.stage = .cut p c (if t then .wake else .take)
  | .resumed false => FullAt cfg a a.reads
  | .resumed true => ∃ c, a.stage.cutoff = some c ∧ c ≤ a.reads
  | .holding => FullAt cfg a a.reads
  | .draining => 0 < a.reads ∧ FullAt cfg a (a.reads - 1)
  | .handing => ∃ l₁ p l₂, a.slot (cfg.slotOf (a.reads - 1)) = .busy .handoff false l₁ (p :: l₂)

structure Inv (cfg : Config) (a : Abs V) : Prop where
  -- tickets
  ticket_lt : ∀ p i, (a.role p).ticket = some i → i < a.tickets
  ticket_inj : ∀ p q i, (a.role p).ticket = some i → (a.role q).ticket = some i → p = q
  waiting_unclaimed : ∀ p i k, i ∈ a.claimed k → (a.role p).waiting ≠ some i
  placed_claimed : ∀ p i, (a.role p).placed = some i → i ∈ a.claimed (cfg.slotOf i)
  admitted_lt : ∀ p i c, (a.role p).admitted = some i → a.stage.cutoff = some c → i < c
  claimed_lt : ∀ k i, i ∈ a.claimed k → i < a.tickets
  claimed_slot : ∀ k i, i ∈ a.claimed k → cfg.slotOf i = k
  claimed_cut : ∀ k i c, i ∈ a.claimed k → a.stage.cutoff = some c → i < c
  accounted : ∀ i < a.tickets, i ∈ a.claimed (cfg.slotOf i) ∨ (∃ p, (a.role p).waiting = some i) ∨
    (∃ c, a.stage.cutoff = some c ∧ c ≤ i) ∨ a.slot (cfg.slotOf i) = .shut
  count : ∀ k, a.slot k ≠ .shut →
    (a.claimed k).card = visits cfg.slotOf k a.front + (a.slot k).load
  -- slots
  writing_slot : ∀ p i v, a.role p = .writing i v →
    ∃ b l₁ l₂, a.slot (cfg.slotOf i) = .busy (.task p i none) b l₁ l₂
  written_slot : ∀ p i v, a.role p = .written i v →
    ∃ b l₁ l₂, a.slot (cfg.slotOf i) = .busy (.task p i (some v)) b l₁ l₂
  owner_slotOf : ∀ k p i w b l₁ l₂, a.slot k = .busy (.task p i w) b l₁ l₂ → cfg.slotOf i = k
  owner_writing : ∀ k p i b l₁ l₂, a.slot k = .busy (.task p i none) b l₁ l₂ →
    ∃ v, a.role p = .writing i v
  owner_written : ∀ k p i v b l₁ l₂, a.slot k = .busy (.task p i (some v)) b l₁ l₂ →
    a.role p = .written i v
  waiter_parked : ∀ k p, p ∈ (a.slot k).waiters → ∃ i v, a.role p = .parked i v ∧ cfg.slotOf i = k
  parked_waiter : ∀ p i v, a.role p = .parked i v → p ∈ (a.slot (cfg.slotOf i)).waiters
  waiters_nodup : ∀ k, (a.slot k).waiters.Nodup
  handoff_handing : ∀ k b l₁ l₂, a.slot k = .busy .handoff b l₁ l₂ →
    a.crole = .handing ∧ k = cfg.slotOf (a.reads - 1)
  -- the consumer
  consumer : ConsumerOk cfg a a.crole
  reads_le : a.reads ≤ a.tickets
  armed_at : ∀ k, (a.slot k).armed = true → a.crole = .armed ∧ k = cfg.slotOf a.reads
  notify_woken : ∀ p i v, a.role p = .notify i v → ∃ t, a.crole = .woken (some p) t
  no_suspend : cfg.consumerCanSuspend = false → a.crole.suspending = false
  -- the closer
  cutoff_lt : ∀ c, a.stage.cutoff = some c → c < a.tickets
  reads_cut : ∀ c, a.stage.cutoff = some c → a.reads ≤ c
  shut_cut : ∀ k, a.slot k = .shut → ∃ c, k = cfg.slotOf c ∧
    (a.stage = .done c ∨ ∃ p, a.stage = .cut p c .take ∨ a.stage = .cut p c .wake)
  take_woken : ∀ p c, a.stage = .cut p c .take → a.crole = .woken none false ∧ c ≤ a.reads
  wake_woken : ∀ p c, a.stage = .cut p c .wake → a.crole = .woken none true ∧ c ≤ a.reads
  stale_done : ∀ c, a.stage = .done c → a.crole.stale = true → c ≤ a.reads →
    a.slot (cfg.slotOf c) = .shut
  readIdx_arming : ∀ p c b, a.stage = .cut p c .readIdx → a.crole = .arming b → a.reads < c
  casArmed_reads : ∀ p c, a.stage = .cut p c .casArmed → c ≤ a.reads

/-- The part of `Inv` that speaks of the slots and of who is at them.  It does not
rest on the order of the tickets. -/
structure SlotInv (cfg : Config) (a : Abs V) : Prop where
  writing_slot : ∀ p i v, a.role p = .writing i v →
    ∃ b l₁ l₂, a.slot (cfg.slotOf i) = .busy (.task p i none) b l₁ l₂
  written_slot : ∀ p i v, a.role p = .written i v →
    ∃ b l₁ l₂, a.slot (cfg.slotOf i) = .busy (.task p i (some v)) b l₁ l₂
  owner_slotOf : ∀ k p i w b l₁ l₂, a.slot k = .busy (.task p i w) b l₁ l₂ → cfg.slotOf i = k
  owner_writing : ∀ k p i b l₁ l₂, a.slot k = .busy (.task p i none) b l₁ l₂ →
    ∃ v, a.role p = .writing i v
  owner_written : ∀ k p i v b l₁ l₂, a.slot k = .busy (.task p i (some v)) b l₁ l₂ →
    a.role p = .written i v
  waiter_parked : ∀ k p, p ∈ (a.slot k).waiters → ∃ i v, a.role p = .parked i v ∧ cfg.slotOf i = k
  parked_waiter : ∀ p i v, a.role p = .parked i v → p ∈ (a.slot (cfg.slotOf i)).waiters
  waiters_nodup : ∀ k, (a.slot k).waiters.Nodup
  handoff_handing : ∀ k b l₁ l₂, a.slot k = .busy .handoff b l₁ l₂ →
    a.crole = .handing ∧ k = cfg.slotOf (a.reads - 1)
  at_slot : a.crole ≠ .resumed true → ConsumerOk cfg a a.crole
  armed_at : ∀ k, (a.slot k).armed = true → a.crole = .armed ∧ k = cfg.slotOf a.reads
  notify_woken : ∀ p i v, a.role p = .notify i v → ∃ t, a.crole = .woken (some p) t
  no_suspend : cfg.consumerCanSuspend = false → a.crole.suspending = false
  shut_cut : ∀ k, a.slot k = .shut → ∃ c, k = cfg.slotOf c ∧
    (a.stage = .done c ∨ ∃ p, a.stage = .cut p c .take ∨ a.stage = .cut p c .wake)
  taking : ∀ p c, a.stage = .cut p c .take →
    a.crole = .woken none false ∧ cfg.slotOf c = cfg.slotOf a.reads
  waking : ∀ p c, a.stage = .cut p c .wake → a.crole = .woken none true

theorem Inv.slots {a : Abs V} (h : Inv cfg a) : SlotInv cfg a :=
  { h with
    at_slot := fun _ => h.consumer
    taking := fun p c hs => by
      obtain ⟨hc, hle⟩ := h.take_woken p c hs
      have hreads := h.reads_cut c (by rw [hs]; rfl)
      exact ⟨hc, congrArg cfg.slotOf (Nat.le_antisymm hle hreads)⟩
    waking := fun p c hs => (h.wake_woken p c hs).1 }

theorem Inv.init : Inv cfg (Abs.init : Abs V) := by
  constructor <;> intros <;>
    simp_all [Abs.init, Role.ticket, Role.placed, Role.admitted, Stage.cutoff,
      Slot.load, Slot.ticket, Slot.waiters, Slot.input, Slot.output, Slot.armed, Abs.front,
      ConsumerOk, ConsumerRole.suspending]

variable {a a' : Abs V}

/-- A step that leaves the consumer alone. -/
theorem ConsumerOk.frame {r : ConsumerRole} (h : ConsumerOk cfg a r) (hreads : a'.reads = a.reads)
    (harmed : ∀ k, (a.slot k).armed = true → r = .armed → (a'.slot k).armed = true)
    (hfull : ∀ n, FullAt cfg a n → FullAt cfg a' n)
    (hhand : ∀ k l₁ p l₂, a.slot k = .busy .handoff false l₁ (p :: l₂) →
      ∃ l₁ p l₂, a'.slot k = .busy .handoff false l₁ (p :: l₂))
    (hnotify : ∀ p i v, a.role p = .notify i v → a'.role p = .notify i v)
    (hcut : ∀ c, a.stage.cutoff = some c → a'.stage.cutoff = some c)
    (hwake : a.stage.waking = true → a'.stage = a.stage) : ConsumerOk cfg a' r := by
  match r with
  | .away | .arming _ => trivial
  | .armed =>
    rw [ConsumerOk, hreads]
    exact harmed _ h rfl
  | .woken (some p) _ =>
    obtain ⟨hf, i, v, hp⟩ := h
    rw [ConsumerOk, hreads]
    exact ⟨hfull _ hf, i, v, hnotify p i v hp⟩
  | .woken none t =>
    obtain ⟨p, c, hs⟩ := h
    refine ⟨p, c, ?_⟩
    rw [hwake (by cases t <;> simp [hs, Stage.waking]), hs]
  | .resumed true =>
    obtain ⟨c, hc, hle⟩ := h
    exact ⟨c, hcut c hc, hreads ▸ hle⟩
  | .resumed false | .holding =>
    rw [ConsumerOk, hreads]
    exact hfull _ h
  | .draining =>
    obtain ⟨hpos, hf⟩ := h
    rw [ConsumerOk, hreads]
    exact ⟨hpos, hfull _ hf⟩
  | .handing =>
    obtain ⟨l₁, p, l₂, hs⟩ := h
    rw [ConsumerOk, hreads]
    exact hhand _ l₁ p l₂ hs

namespace Inv

theorem consumer_eq (h : Inv cfg a) {r : ConsumerRole} (hr : a.crole = r) : ConsumerOk cfg a r :=
  hr ▸ h.consumer

theorem full_front (h : Inv cfg a) (hr : a.crole.took = true) : FullAt cfg a a.front := by
  cases hc : a.crole with
  | holding =>
    have hf : FullAt cfg a a.reads := h.consumer_eq hc
    simpa [Abs.front, hc] using hf
  | draining =>
    have hf : FullAt cfg a (a.reads - 1) := (h.consumer_eq hc).2
    simpa [Abs.front, hc] using hf
  | _ => simp [hc, ConsumerRole.took] at hr

/-- The tickets that were given the slot the consumer is at are those of its
earlier visits and one more, so the visit is the visit of one of them. -/
theorem front_lt (h : Inv cfg a) {n : Nat} (hl : (a.slot (cfg.slotOf a.front)).load = 1)
    (hn : ∀ i ∈ a.claimed (cfg.slotOf a.front), i < n) : a.front < n := by
  have hne : a.slot (cfg.slotOf a.front) ≠ .shut := by
    intro hs
    simp [hs, Slot.load, Slot.ticket] at hl
  have hcount := h.count _ hne
  have hle := card_le_visits (f := cfg.slotOf) (k := cfg.slotOf a.front) (n := n)
    (fun i hi => ⟨hn i hi, h.claimed_slot _ i hi⟩)
  rw [hcount, hl] at hle
  exact lt_of_visits_lt (Nat.lt_of_succ_le hle)

theorem front_lt_tickets (h : Inv cfg a) (hl : (a.slot (cfg.slotOf a.front)).load = 1) :
    a.front < a.tickets := h.front_lt hl (h.claimed_lt _)

theorem front_lt_cutoff (h : Inv cfg a) (hl : (a.slot (cfg.slotOf a.front)).load = 1) {c : Nat}
    (hc : a.stage.cutoff = some c) : a.front < c :=
  h.front_lt hl (fun i hi => h.claimed_cut _ i c hi hc)

/-- Once the consumer has left every slot before the cutoff, no slot holds a
round that has not been drained. -/
theorem load_eq_zero (h : Inv cfg a) {c : Nat} (hc : a.stage.cutoff = some c) (hle : c ≤ a.reads)
    (hr : a.crole ≠ .draining) (k : Nat) : (a.slot k).load = 0 := by
  by_cases hk : a.slot k = .shut
  · rw [hk]
    rfl
  · have hcount := h.count k hk
    have hcard := card_le_visits (f := cfg.slotOf) (k := k) (n := c)
      (fun i hi => ⟨h.claimed_cut k i c hi hc, h.claimed_slot k i hi⟩)
    have hmono := visits_mono (f := cfg.slotOf) (k := k) hle
    rw [Abs.front, if_neg hr] at hcount
    omega

end Inv

end CoroUtil.MpscBounded
