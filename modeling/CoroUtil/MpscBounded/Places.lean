import CoroUtil.MpscBounded.History

/-!
# Which index a ticket stands for

The `n`-th ticket to be given a slot stands for the consumer's `n`-th visit to
that slot.  `Places` says that the consumer meets the values in the order of
these indices, and `InOrder` that the indices of one task's values increase.
The second is kept by a move only if it is `Patient`: if it gives no slot to a
task whose index comes before one of the task's earlier values.
-/

namespace CoroUtil.MpscBounded

open CoroUtil.General

variable {V : Type} {cfg : Config}

structure Places (cfg : Config) (a : Abs V) : Prop where
  slot : ∀ k i, i ∈ a.claimed k → cfg.slotOf (a.place i) = k
  visit_lt : ∀ k i, i ∈ a.claimed k → visits cfg.slotOf k (a.place i) < (a.claimed k).card
  pending : ∀ k i, (a.slot k).ticket = some i →
    visits cfg.slotOf k (a.place i) + 1 = (a.claimed k).card
  passed : ∀ i ∈ handed a.pulls, a.place i ≤ a.front ∧ (a.crole ≠ .holding → a.place i < a.reads)
  sorted : (handed a.pulls).Pairwise (fun i j => a.place i < a.place j)

/-- A task is given no slot that the consumer reaches before it reaches an
earlier value of the task. -/
def Patient (a a' : Abs V) : Prop :=
  ∀ p i, (a.role p).waiting = some i → (a'.role p).placed = some i →
    ∀ x ∈ a.pushes, x.task = p → x.ok = true → a.place x.ticket < a'.place i

structure InOrder (a : Abs V) : Prop where
  running : ∀ p i, (a.role p).placed = some i →
    ∀ x ∈ a.pushes, x.task = p → x.ok = true → a.place x.ticket < a.place i
  sorted : a.pushes.Pairwise (fun x y =>
    x.task = y.task → x.ok = true → y.ok = true → a.place x.ticket < a.place y.ticket)

variable {a a' : Abs V}

section Places

theorem Places.init : Places cfg (Abs.init : Abs V) := by
  constructor <;> simp [Abs.init, handed, Slot.ticket]

/-- A move that gives out no slot and takes no value. -/
theorem Places.frame (h : Places cfg a) (hclaimed : a'.claimed = a.claimed)
    (hplace : a'.place = a.place)
    (hticket : ∀ k i, (a'.slot k).ticket = some i → (a.slot k).ticket = some i)
    (hpulls : handed a'.pulls = handed a.pulls)
    (hpassed : ∀ n, n ≤ a.front → (a.crole ≠ .holding → n < a.reads) →
      n ≤ a'.front ∧ (a'.crole ≠ .holding → n < a'.reads)) : Places cfg a' where
  slot := by
    intro k i hi
    rw [hclaimed] at hi
    exact hplace ▸ h.slot k i hi
  visit_lt := by
    intro k i hi
    rw [hclaimed] at hi ⊢
    exact hplace ▸ h.visit_lt k i hi
  pending := by
    intro k i hi
    rw [hclaimed, hplace]
    exact h.pending k i (hticket k i hi)
  passed := by
    intro i hi
    rw [hpulls] at hi
    rw [hplace]
    exact hpassed _ (h.passed i hi).1 (h.passed i hi).2
  sorted := by
    rw [hpulls, hplace]
    exact h.sorted

/-- The visit that the next ticket of a slot stands for. -/
theorem Inv.visit_spec (hi : Inv cfg a) {i : Nat} (hlt : i < a.tickets)
    (hnew : i ∉ a.claimed (cfg.slotOf i)) :
    cfg.slotOf (visit cfg.slotOf (cfg.slotOf i) (a.claimed (cfg.slotOf i)).card) = cfg.slotOf i ∧
    visits cfg.slotOf (cfg.slotOf i)
      (visit cfg.slotOf (cfg.slotOf i) (a.claimed (cfg.slotOf i)).card) =
        (a.claimed (cfg.slotOf i)).card := by
  have hcard := card_le_visits (f := cfg.slotOf) (k := cfg.slotOf i) (n := a.tickets)
    (S := insert i (a.claimed (cfg.slotOf i))) (by
      intro j hj
      rcases Finset.mem_insert.mp hj with rfl | hj
      · exact ⟨hlt, rfl⟩
      · exact ⟨hi.claimed_lt _ j hj, hi.claimed_slot _ j hj⟩)
  rw [Finset.card_insert_of_notMem hnew] at hcard
  exact General.visit_spec hcard

/-- Ticket `i` is given its slot. -/
theorem Places.given (h : Places cfg a) (hi : Inv cfg a) (hh : Handed cfg a) {p : Tid} {i : Nat}
    (hr : (a.role p).waiting = some i) {a' : Abs V}
    (hclaimed : a'.claimed = (a.claim cfg (cfg.slotOf i) i).claimed)
    (hplace : a'.place = (a.claim cfg (cfg.slotOf i) i).place)
    (hticket : ∀ k, (a'.slot k).ticket = if k = cfg.slotOf i then some i else (a.slot k).ticket)
    (hpulls : a'.pulls = a.pulls) (hreads : a'.reads = a.reads) (hfront : a'.front = a.front)
    (hholding : a'.crole = .holding ↔ a.crole = .holding) : Places cfg a' := by
  have hlt := hi.ticket_lt p i (Role.ticket_of_waiting hr)
  have hnew : ∀ k, i ∉ a.claimed k := fun k hk => hi.waiting_unclaimed p i k hk hr
  obtain ⟨hslot, hvisits⟩ := hi.visit_spec hlt (hnew _)
  have hold : ∀ k j, j ∈ a.claimed k → a'.place j = a.place j := by
    intro k j hj
    have hne : j ≠ i := by
      rintro rfl
      exact hnew k hj
    rw [hplace]
    exact Function.update_of_ne hne _ _
  have hself : a'.place i = visit cfg.slotOf (cfg.slotOf i) (a.claimed (cfg.slotOf i)).card := by
    rw [hplace]
    exact Function.update_self ..
  have hmem : ∀ k j, j ∈ a'.claimed k → j ∈ a.claimed k ∨ k = cfg.slotOf i ∧ j = i := by
    rw [hclaimed]
    grind
  have hcard : ∀ k, (a'.claimed k).card =
      (a.claimed k).card + if k = cfg.slotOf i then 1 else 0 := by
    rw [hclaimed]
    grind
  have hdone : ∀ j ∈ handed a.pulls, a'.place j = a.place j :=
    fun j hj => hold _ j (hh.handed_claimed j hj)
  constructor
  · intro k j hj
    rcases hmem k j hj with hj | ⟨rfl, rfl⟩
    · rw [hold k j hj]
      exact h.slot k j hj
    · rw [hself]
      exact hslot
  · intro k j hj
    rw [hcard]
    rcases hmem k j hj with hj | ⟨rfl, rfl⟩
    · rw [hold k j hj]
      exact Nat.lt_add_right _ (h.visit_lt k j hj)
    · rw [hself, hvisits, if_pos rfl]
      exact Nat.lt_succ_self _
  · intro k j hj
    rw [hticket] at hj
    rw [hcard]
    by_cases hk : k = cfg.slotOf i
    · rw [if_pos hk] at hj
      cases hj
      rw [hself, hk, hvisits, if_pos rfl]
    · rw [if_neg hk] at hj
      rw [hold k j (hh.ticket_claimed k j hj), if_neg hk]
      exact h.pending k j hj
  · intro j hj
    rw [hpulls] at hj
    rw [hdone j hj, hreads, hfront, ne_eq, hholding]
    exact h.passed j hj
  · rw [hpulls]
    refine h.sorted.imp_of_mem ?_
    intro j j' hj hj' hlt
    rw [hdone j hj, hdone j' hj']
    exact hlt

/-- A round that has not been drained stands for an index the consumer has not
left, and a full slot that it is at for the index it is at. -/
theorem Places.pending_visits (h : Places cfg a) (hi : Inv cfg a) {k i : Nat}
    (ht : (a.slot k).ticket = some i) :
    visits cfg.slotOf k (a.place i) = visits cfg.slotOf k a.front := by
  have hne : a.slot k ≠ .shut := by
    intro hs
    rw [hs] at ht
    cases ht
  have hcount := hi.count k hne
  have hpending := h.pending k i ht
  have hload : (a.slot k).load = 1 := by rw [Slot.load, ht]; rfl
  omega

theorem Places.take (h : Places cfg a) (hi : Inv cfg a) (hh : Handed cfg a) {i : Nat} {v : V}
    {l₁ l₂ : List Tid} (hr : a.crole = .away ∨ a.crole = .arming true ∨ a.crole = .resumed false)
    (hs : a.slot (cfg.slotOf a.reads) = .full i v l₁ l₂) :
    Places cfg { a with crole := .holding, pulls := a.pulls ++ [.ok i v] } := by
  have hticket : (a.slot (cfg.slotOf a.reads)).ticket = some i := by rw [hs]; rfl
  have hfront : a.front = a.reads := if_neg (by grind)
  have hplace : a.place i = a.reads := by
    have hv := h.pending_visits hi hticket
    rw [hfront] at hv
    exact eq_of_visits_eq (h.slot _ i (hh.ticket_claimed _ i hticket)) rfl hv
  have hbefore : ∀ j ∈ handed a.pulls, a.place j < a.reads :=
    fun j hj => (h.passed j hj).2 (by grind)
  have happ : handed (a.pulls ++ [.ok i v]) = handed a.pulls ++ [i] := handed_append _ _
  refine { h with passed := ?_, sorted := ?_ }
  · intro j hj
    refine ⟨?_, fun hne => absurd rfl hne⟩
    show a.place j ≤ a.reads
    rcases List.mem_append.mp (happ ▸ hj) with hj | hj
    · exact Nat.le_of_lt (hbefore j hj)
    · rw [List.mem_singleton.mp hj, hplace]
  · show (handed (a.pulls ++ [.ok i v])).Pairwise _
    rw [happ, List.pairwise_append]
    refine ⟨h.sorted, List.pairwise_singleton _ _, ?_⟩
    intro j hj j' hj'
    rw [List.mem_singleton.mp hj', hplace]
    exact hbefore j hj

theorem Places.move (h : Places cfg a) (hi : Inv cfg a) (hh : Handed cfg a)
    (hm : Move cfg a a') : Places cfg a' := by
  cases hm with
  | claim hr hs =>
    exact h.given hi hh (by rw [hr]; rfl) rfl rfl (by grind) rfl rfl rfl Iff.rfl
  | wakeProducer hr hp hs =>
    exact h.given hi hh (by rw [hp]; rfl) rfl rfl (by grind) rfl rfl (by grind) (by grind)
  | take hr hs => exact h.take hi hh hr hs
  | release hr =>
    refine h.frame rfl rfl (fun _ _ ht => ht) rfl ?_
    intro n hn _
    have hfront : a.front = a.reads := if_neg (by grind)
    have hlt : n < a.reads + 1 := by omega
    exact ⟨hn.trans (by grind), fun _ => hlt⟩
  | reportClosed hr hs hc =>
    exact h.frame rfl rfl (fun _ _ ht => ht) (by simp [handed, Pull.ticket]) (by grind)
  | reportEmpty hr =>
    exact h.frame rfl rfl (fun _ _ ht => ht) (by simp [handed, Pull.ticket]) (by grind)
  | park hr hs | arm hr hs =>
    exact h.frame rfl rfl (by grind [Slot.ticket_park, Slot.ticket_arm]) rfl (by grind)
  | publishArmed hr hs | shutArmed hr hs =>
    have := hi.armed_at _ (by rw [hs]; rfl)
    exact h.frame rfl rfl (by grind) rfl (by grind)
  | closeTake hr =>
    have := hi.take_woken _ _ hr
    exact h.frame rfl rfl (by grind) rfl (by grind)
  | closeWake hr =>
    have := hi.wake_woken _ _ hr
    exact h.frame rfl rfl (by grind) rfl (by grind)
  | _ => exact h.frame rfl rfl (by grind) rfl (by grind)

end Places

section InOrder

theorem InOrder.init : InOrder (Abs.init : Abs V) := by
  constructor <;> simp [Abs.init, Role.placed]

/-- A move that gives out no slot and returns `true` from no push. -/
theorem InOrder.frame (h : InOrder a)
    (hplaced : ∀ p i, (a'.role p).placed = some i → (a.role p).placed = some i)
    (hplace : a'.place = a.place)
    (hpushes : a'.pushes = a.pushes ∨ ∃ x, x.ok = false ∧ a'.pushes = a.pushes ++ [x]) :
    InOrder a' := by
  have hmem : ∀ x ∈ a'.pushes, x.ok = true → x ∈ a.pushes := by grind
  constructor
  · intro p i hi x hx hp hok
    rw [hplace]
    exact h.running p i (hplaced p i hi) x (hmem x hx hok) hp hok
  · rw [hplace]
    rcases hpushes with hp | ⟨y, hy, hp⟩
    · exact hp ▸ h.sorted
    · rw [hp, List.pairwise_append]
      refine ⟨h.sorted, List.pairwise_singleton _ _, ?_⟩
      grind

/-- A push returns `true`. -/
theorem InOrder.returned_true (h : InOrder a) {p : Tid} {i : Nat} {v : V}
    (hr : (a.role p).placed = some i) {a' : Abs V}
    (hrole : a'.role = Function.update a.role p .out) (hplace : a'.place = a.place)
    (hpushes : a'.pushes = a.pushes ++ [⟨p, i, v, true⟩]) : InOrder a' := by
  constructor
  · intro q j hj x hx hq hok
    rw [hpushes] at hx
    rw [hplace]
    have hqp : q ≠ p := by
      rintro rfl
      rw [hrole, Function.update_self] at hj
      cases hj
    rw [hrole, Function.update_of_ne hqp] at hj
    rcases List.mem_append.mp hx with hx | hx
    · exact h.running q j hj x hx hq hok
    · exact absurd (by rw [← hq, List.mem_singleton.mp hx]) hqp
  · rw [hpushes, hplace, List.pairwise_append]
    refine ⟨h.sorted, List.pairwise_singleton _ _, ?_⟩
    intro x hx y hy htask hok _
    obtain rfl := List.mem_singleton.mp hy
    exact h.running p i hr x hx htask hok

/-- Ticket `i` of task `p` is given its slot. -/
theorem InOrder.given (h : InOrder a) (hi : Inv cfg a) (hv : Values cfg a)
    {p : Tid} {i : Nat} (hr : (a.role p).waiting = some i) {a' : Abs V} {r : Role V}
    (hrt : r.placed = some i) (hrole : a'.role = Function.update a.role p r)
    (hplace : a'.place = (a.claim cfg (cfg.slotOf i) i).place) (hpushes : a'.pushes = a.pushes)
    (hpatient : Patient a a') : InOrder a' := by
  have hnew : ∀ k, i ∉ a.claimed k := fun k hk => hi.waiting_unclaimed p i k hk hr
  have hself : (a'.role p).placed = some i := by rw [hrole, Function.update_self, hrt]
  have hold : ∀ j, j ≠ i → a'.place j = a.place j := by
    intro j hj
    rw [hplace]
    exact Function.update_of_ne hj _ _
  have hpush : ∀ x ∈ a.pushes, x.ok = true → x.ticket ≠ i := by
    rintro x hx hok rfl
    exact hnew _ (hv.claimed _ (hv.accepted_mem x hx hok))
  constructor
  · intro q j hj x hx hq hok
    rw [hpushes] at hx
    rw [hold _ (hpush x hx hok)]
    by_cases hqp : q = p
    · subst hqp
      obtain rfl : i = j := Option.some.inj (hself.symm.trans hj)
      exact hpatient q i hr hself x hx hq hok
    · rw [hrole, Function.update_of_ne hqp] at hj
      have hji : j ≠ i := by
        rintro rfl
        exact hnew _ (hi.placed_claimed q j hj)
      rw [hold j hji]
      exact h.running q j hj x hx hq hok
  · rw [hpushes]
    refine h.sorted.imp_of_mem ?_
    intro x y hx hy hlt htask hxok hyok
    rw [hold _ (hpush x hx hxok), hold _ (hpush y hy hyok)]
    exact hlt htask hxok hyok

theorem InOrder.move (h : InOrder a) (hi : Inv cfg a) (hv : Values cfg a) (hm : Move cfg a a')
    (hpatient : Patient a a') : InOrder a' := by
  cases hm with
  | claim hr hs => exact h.given hi hv (by rw [hr]; rfl) rfl rfl rfl rfl hpatient
  | wakeProducer hr hp' hs => exact h.given hi hv (by rw [hp']; rfl) rfl rfl rfl rfl hpatient
  | publish hr hs => exact h.returned_true (by rw [hr]; rfl) rfl rfl rfl
  | wakeConsumer hr hc => exact h.returned_true (by rw [hr]; rfl) rfl rfl rfl
  | reject hr hs hc => exact h.frame (by grind) rfl (.inr ⟨_, rfl, rfl⟩)
  | rejectShut hr hs => exact h.frame (by grind) rfl (.inr ⟨_, rfl, rfl⟩)
  | _ => exact h.frame (by grind) rfl (.inl rfl)

end InOrder

end CoroUtil.MpscBounded
