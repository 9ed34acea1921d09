import CoroUtil.MpscBounded.Preservation

/-!
# What the history of the slot protocol keeps

`Pushes` is about the pushes that have returned, `Values` about the values that
were constructed, `Handed` about the values that the consumer was given and
`Closed` about what follows a report of `CLOSED`.  Each is kept by every move of
a state that satisfies `Inv`.
-/

namespace CoroUtil.MpscBounded

open CoroUtil.General

variable {V : Type} {cfg : Config}

/-- The ticket of the push whose value a pull was given. -/
@[grind =] def Pull.ticket : Pull V → Option Nat
  | ok i _ => some i
  | empty | closed => none

/-- The tickets of the values handed out, in the order of the pulls. -/
@[grind =] def handed (l : List (Pull V)) : List Nat := l.filterMap Pull.ticket

structure Pushes (a : Abs V) : Prop where
  ticket_lt : ∀ x ∈ a.pushes, x.ticket < a.tickets
  not_running : ∀ x ∈ a.pushes, ∀ p, (a.role p).ticket ≠ some x.ticket
  nodup : (a.pushes.map Push.ticket).Nodup

structure Values (cfg : Config) (a : Abs V) : Prop where
  built_mem : ∀ p e, (a.role p).built = some e → e ∈ a.constructed
  accepted_mem : ∀ x ∈ a.pushes, x.ok = true → (x.ticket, x.value) ∈ a.constructed
  source : ∀ e ∈ a.constructed, (∃ p, (a.role p).built = some e) ∨
    ∃ x ∈ a.pushes, x.ok = true ∧ (x.ticket, x.value) = e
  nodup : (a.constructed.map Prod.fst).Nodup
  claimed : ∀ e ∈ a.constructed, e.1 ∈ a.claimed (cfg.slotOf e.1)
  full_mem : ∀ k i v l₁ l₂, a.slot k = .full i v l₁ l₂ → (i, v) ∈ a.constructed

structure Handed (cfg : Config) (a : Abs V) : Prop where
  ticket_claimed : ∀ k i, (a.slot k).ticket = some i → i ∈ a.claimed k
  handed_or_pending : ∀ k i, i ∈ a.claimed k → i ∈ handed a.pulls ∨ (a.slot k).ticket = some i
  handed_claimed : ∀ i ∈ handed a.pulls, i ∈ a.claimed (cfg.slotOf i)
  handed_took : ∀ i ∈ handed a.pulls, (a.slot (cfg.slotOf i)).ticket = some i →
    a.crole.took = true ∧ cfg.slotOf i = cfg.slotOf a.front
  took_handed : ∀ i, a.crole.took = true → (a.slot (cfg.slotOf a.front)).ticket = some i →
    i ∈ handed a.pulls
  nodup : (handed a.pulls).Nodup
  constructed : ∀ i v, .ok i v ∈ a.pulls → (i, v) ∈ a.constructed

structure Closed (a : Abs V) : Prop where
  away : .closed ∈ a.pulls → a.crole = .away ∧ ∃ c, a.stage.cutoff = some c ∧ c ≤ a.reads
  drained : ∀ l l', a.pulls = l ++ .closed :: l' → ∀ e ∈ a.constructed, .ok e.1 e.2 ∈ l

variable {a a' : Abs V}

section Pushes

theorem Pushes.init : Pushes (Abs.init : Abs V) := by
  constructor <;> simp [Abs.init]

theorem Pushes.move (h : Pushes a) (hi : Inv cfg a) (hm : Move cfg a a') : Pushes a' := by
  have hlt := hi.ticket_lt
  have hinj := hi.ticket_inj
  obtain ⟨hplt, hrun, hnodup⟩ := h
  cases hm <;> constructor <;> grind

end Pushes

section Values

theorem Values.init : Values cfg (Abs.init : Abs V) := by
  constructor <;> simp [Abs.init, Role.built]

/-- A move that constructs nothing and returns from no push. -/
theorem Values.frame (h : Values cfg a) (hbuilt : ∀ p, (a'.role p).built = (a.role p).built)
    (hpushes : a'.pushes = a.pushes) (hcons : a'.constructed = a.constructed)
    (hclaimed : ∀ k i, i ∈ a.claimed k → i ∈ a'.claimed k)
    (hfull : ∀ k i v l₁ l₂, a'.slot k = .full i v l₁ l₂ → (i, v) ∈ a.constructed) :
    Values cfg a' where
  built_mem := by
    intro p e he
    rw [hbuilt] at he
    exact hcons ▸ h.built_mem p e he
  accepted_mem := by
    intro x hx
    rw [hpushes] at hx
    exact hcons ▸ h.accepted_mem x hx
  source := by
    intro e he
    rw [hcons] at he
    simp only [hbuilt, hpushes]
    exact h.source e he
  nodup := hcons ▸ h.nodup
  claimed := by
    intro e he
    rw [hcons] at he
    exact hclaimed _ _ (h.claimed e he)
  full_mem := by
    intro k i v l₁ l₂ hk
    exact hcons ▸ hfull k i v l₁ l₂ hk

/-- A push returns: `true` when it has constructed its value, `false` when it
has not. -/
theorem Values.returned (h : Values cfg a) {p : Tid} {i : Nat} {v : V} {ok : Bool}
    (hb : (a.role p).built = if ok then some (i, v) else none)
    (hrole : a'.role = Function.update a.role p .out)
    (hpushes : a'.pushes = a.pushes ++ [⟨p, i, v, ok⟩]) (hcons : a'.constructed = a.constructed)
    (hclaimed : ∀ k i, i ∈ a.claimed k → i ∈ a'.claimed k)
    (hfull : ∀ k j w l₁ l₂, a'.slot k = .full j w l₁ l₂ → (j, w) ∈ a.constructed) :
    Values cfg a' where
  built_mem := by
    intro q e he
    rw [hrole] at he
    rw [hcons]
    by_cases hqp : q = p
    · simp [hqp, Role.built] at he
    · rw [Function.update_of_ne hqp] at he
      exact h.built_mem q e he
  accepted_mem := by
    intro x hx hok
    rw [hpushes, List.mem_append, List.mem_singleton] at hx
    rw [hcons]
    rcases hx with hx | rfl
    · exact h.accepted_mem x hx hok
    · exact h.built_mem p (i, v) (by rw [hb, if_pos hok])
  source := by
    intro e he
    rw [hcons] at he
    rcases h.source e he with ⟨q, hq⟩ | ⟨x, hx, hok, hxe⟩
    · by_cases hqp : q = p
      · subst hqp
        cases ok with
        | true => exact .inr ⟨⟨q, i, v, true⟩, by simp [hpushes], rfl, by simp_all⟩
        | false => simp_all
      · exact .inl ⟨q, by rw [hrole, Function.update_of_ne hqp, hq]⟩
    · exact .inr ⟨x, by simp [hpushes, hx], hok, hxe⟩
  nodup := hcons ▸ h.nodup
  claimed := by
    intro e he
    rw [hcons] at he
    exact hclaimed _ _ (h.claimed e he)
  full_mem := by
    intro k j w l₁ l₂ hk
    exact hcons ▸ hfull k j w l₁ l₂ hk

/-- A producer that has not constructed its value has a new ticket. -/
theorem Values.writing_new (h : Values cfg a) (hi : Inv cfg a) (hp : Pushes a) {p : Tid} {i : Nat}
    {v : V} (hr : a.role p = .writing i v) : i ∉ a.constructed.map Prod.fst := by
  have hticket : (a.role p).ticket = some i := by rw [hr]; rfl
  intro hm
  obtain ⟨e, he, rfl⟩ := List.mem_map.mp hm
  rcases h.source e he with ⟨q, hq⟩ | ⟨x, hx, -, rfl⟩
  · obtain rfl := hi.ticket_inj q p e.1 (Role.ticket_of_built hq) hticket
    rw [hr] at hq
    cases hq
  · exact hp.not_running x hx p hticket

theorem Values.emplace (h : Values cfg a) (hi : Inv cfg a) (hp : Pushes a) {p : Tid} {i : Nat}
    {v : V} {b : Bool} {l₁ l₂ : List Tid} (hr : a.role p = .writing i v) :
    Values cfg ({ a with constructed := a.constructed ++ [(i, v)] }.setSlot (cfg.slotOf i)
      (.busy (.task p i (some v)) b l₁ l₂) |>.setRole p (.written i v)) := by
  have hnew := h.writing_new hi hp hr
  exact
  { h with
    built_mem := by
      have := h.built_mem
      grind
    accepted_mem := fun x hx hok => List.mem_append_left _ (h.accepted_mem x hx hok)
    source := by
      intro e he
      rcases List.mem_append.mp he with he | he
      · rcases h.source e he with ⟨q, hq⟩ | hx
        · exact .inl ⟨q, by grind⟩
        · exact .inr hx
      · exact .inl ⟨p, by grind⟩
    nodup := by
      rw [List.map_append, List.nodup_append]
      refine ⟨h.nodup, List.nodup_singleton _, ?_⟩
      grind
    claimed := by
      have hi := hi.placed_claimed p i (by rw [hr]; rfl)
      have := h.claimed
      grind
    full_mem := by
      have := h.full_mem
      grind }

theorem Values.move (h : Values cfg a) (hi : Inv cfg a) (hp : Pushes a) (hm : Move cfg a a') :
    Values cfg a' := by
  cases hm with
  | reject hr hs hc | rejectShut hr hs =>
    exact h.returned (by rw [hr]; rfl) rfl rfl rfl (fun _ _ hj => hj) h.full_mem
  | emplace hr hs => exact h.emplace hi hp hr
  | publish hr hs =>
    have hbuilt := h.built_mem _ _ (by rw [hr]; rfl)
    have hfull := h.full_mem
    exact h.returned (by rw [hr]; rfl) rfl rfl rfl (fun _ _ hj => hj) (by grind)
  | publishArmed hr hs =>
    have hbuilt := h.built_mem _ _ (by rw [hr]; rfl)
    have hfull := h.full_mem
    exact h.frame (by grind) rfl rfl (fun _ _ hj => hj) (by grind)
  | wakeConsumer hr hc =>
    exact h.returned (by rw [hr]; rfl) rfl rfl rfl (fun _ _ hj => hj) h.full_mem
  | park hr hs =>
    have hfull := h.full_mem
    exact h.frame (by grind) rfl rfl (by grind) (by grind [→ Slot.eq_full_of_park])
  | arm hr hs =>
    have hfull := h.full_mem
    exact h.frame (by grind) rfl rfl (by grind) (by grind [→ Slot.eq_full_of_arm])
  | _ =>
    have hfull := h.full_mem
    exact h.frame (by grind) rfl rfl (by grind) (by grind)

end Values

section Handed

@[simp] theorem handed_append (l l' : List (Pull V)) : handed (l ++ l') = handed l ++ handed l' :=
  List.filterMap_append

theorem mem_handed {l : List (Pull V)} {i : Nat} : i ∈ handed l ↔ ∃ v, .ok i v ∈ l := by
  rw [handed, List.mem_filterMap]
  constructor
  · rintro ⟨r, hr, hi⟩
    cases r <;> simp_all [Pull.ticket]
    exact ⟨_, hr⟩
  · rintro ⟨v, hv⟩
    exact ⟨_, hv, rfl⟩

theorem Handed.init : Handed cfg (Abs.init : Abs V) := by
  constructor <;> simp [Abs.init, handed, Slot.ticket]

/-- A move that gives out no slot and takes or drains no value. -/
theorem Handed.frame (h : Handed cfg a) (hclaimed : a'.claimed = a.claimed)
    (hticket : ∀ k, (a'.slot k).ticket = (a.slot k).ticket) (hpulls : handed a'.pulls = handed a.pulls)
    (htook : a'.crole.took = a.crole.took)
    (hfront : a.crole.took = true → a'.front = a.front)
    (hok : ∀ i v, .ok i v ∈ a'.pulls → .ok i v ∈ a.pulls)
    (hcons : ∀ e ∈ a.constructed, e ∈ a'.constructed) : Handed cfg a' where
  ticket_claimed := by
    intro k i hi
    rw [hticket] at hi
    exact hclaimed ▸ h.ticket_claimed k i hi
  handed_or_pending := by
    intro k i hi
    rw [hclaimed] at hi
    rw [hpulls, hticket]
    exact h.handed_or_pending k i hi
  handed_claimed := by
    intro i hi
    rw [hpulls] at hi
    exact hclaimed ▸ h.handed_claimed i hi
  handed_took := by
    intro i hi ht
    rw [hpulls] at hi
    rw [hticket] at ht
    obtain ⟨hold, hslot⟩ := h.handed_took i hi ht
    exact ⟨htook ▸ hold, by rw [hslot, hfront hold]⟩
  took_handed := by
    intro i ht hi
    rw [htook] at ht
    rw [hfront ht, hticket] at hi
    exact hpulls ▸ h.took_handed i ht hi
  nodup := hpulls ▸ h.nodup
  constructed := fun i v hv => hcons _ (h.constructed i v (hok i v hv))

/-- Ticket `i` is given slot `k`, which has no ticket. -/
theorem Handed.given (h : Handed cfg a) {k i : Nat} (_hk : cfg.slotOf i = k)
    (hfree : (a.slot k).ticket = none) (hnew : i ∉ a.claimed k)
    (hclaimed : a'.claimed = Function.update a.claimed k (insert i (a.claimed k)))
    (hticket : ∀ k', (a'.slot k').ticket = if k' = k then some i else (a.slot k').ticket)
    (hpulls : a'.pulls = a.pulls) (htook : a'.crole.took = a.crole.took)
    (hfront : a.crole.took = true → a'.front = a.front ∧ cfg.slotOf a.front ≠ k)
    (hcons : a'.constructed = a.constructed) : Handed cfg a' where
  ticket_claimed := by
    intro k' j hj
    rw [hticket] at hj
    rw [hclaimed]
    have := h.ticket_claimed k' j
    grind
  handed_or_pending := by
    intro k' j hj
    rw [hclaimed] at hj
    rw [hpulls, hticket]
    have := h.handed_or_pending k' j
    grind
  handed_claimed := by
    intro j hj
    rw [hpulls] at hj
    rw [hclaimed]
    have := h.handed_claimed j hj
    grind
  handed_took := by
    intro j hj ht
    rw [hpulls] at hj
    rw [hticket] at ht
    have hjc := h.handed_claimed j hj
    have := h.handed_took j hj
    grind
  took_handed := by
    intro j ht hj
    rw [htook] at ht
    obtain ⟨hf, hne⟩ := hfront ht
    rw [hf, hticket, if_neg hne] at hj
    exact hpulls ▸ h.took_handed j ht hj
  nodup := hpulls ▸ h.nodup
  constructed := by
    intro j w hw
    rw [hpulls] at hw
    exact hcons ▸ h.constructed j w hw

theorem Handed.take (h : Handed cfg a) (hi : Inv cfg a) (hv : Values cfg a) {i : Nat} {v : V}
    {l₁ l₂ : List Tid} (hr : a.crole = .away ∨ a.crole = .arming true ∨ a.crole = .resumed false)
    (hs : a.slot (cfg.slotOf a.reads) = .full i v l₁ l₂) :
    Handed cfg { a with crole := .holding, pulls := a.pulls ++ [.ok i v] } := by
  have hticket : (a.slot (cfg.slotOf a.reads)).ticket = some i := by rw [hs]; rfl
  have hclaimed := h.ticket_claimed _ i hticket
  have hslot := hi.claimed_slot _ i hclaimed
  have hnew : i ∉ handed a.pulls := by
    intro hm
    have := (h.handed_took i hm (hslot ▸ hticket)).1
    grind
  have hnone : ∀ j ∈ handed a.pulls, (a.slot (cfg.slotOf j)).ticket ≠ some j := by
    intro j hj ht
    have := (h.handed_took j hj ht).1
    grind
  have happ : handed (a.pulls ++ [.ok i v]) = handed a.pulls ++ [i] := handed_append _ _
  exact
  { h with
    handed_or_pending := by
      intro k j hj
      rcases h.handed_or_pending k j hj with hh | hp
      · exact .inl (happ ▸ List.mem_append_left _ hh)
      · exact .inr hp
    handed_claimed := by
      intro j hj
      rcases List.mem_append.mp (happ ▸ hj) with hj | hj
      · exact h.handed_claimed j hj
      · rw [List.mem_singleton.mp hj, hslot]
        exact hclaimed
    handed_took := by
      intro j hj ht
      rcases List.mem_append.mp (happ ▸ hj) with hj | hj
      · exact absurd ht (hnone j hj)
      · rw [List.mem_singleton.mp hj]
        exact ⟨rfl, hslot⟩
    took_handed := by
      intro j _ hj
      obtain rfl : i = j := Option.some.inj (hticket.symm.trans hj)
      exact happ ▸ List.mem_append_right _ (List.mem_singleton.mpr rfl)
    nodup := by
      show (handed (a.pulls ++ [.ok i v])).Nodup
      rw [happ, List.nodup_append]
      exact ⟨h.nodup, List.nodup_singleton i, by grind⟩
    constructed := by
      intro j w hw
      rcases List.mem_append.mp hw with hw | hw
      · exact h.constructed j w hw
      · cases List.mem_singleton.mp hw
        exact hv.full_mem _ i v l₁ l₂ hs }

/-- The consumer leaves the slot whose value it was given. -/
theorem Handed.drain (h : Handed cfg a) {y : Slot V} {r : ConsumerRole} (hr : a.crole = .draining)
    (hy : y.ticket = none) (hnew : r.took = false) :
    Handed cfg ({ a with crole := r }.setSlot (cfg.slotOf a.front) y) :=
  have htook : a.crole.took = true := by rw [hr]; rfl
  { h with
    ticket_claimed := by
      intro k i hi
      have := h.ticket_claimed k i
      grind
    handed_or_pending := by
      intro k i hi
      have := h.took_handed i htook
      have := h.handed_or_pending k i hi
      grind
    handed_took := by
      intro i hi ht
      have := h.handed_took i hi
      grind
    took_handed := by
      intro i ht
      exact absurd (hnew.symm.trans ht) (by simp) }

theorem Handed.move (h : Handed cfg a) (hi : Inv cfg a) (hv : Values cfg a)
    (hm : Move cfg a a') : Handed cfg a' := by
  cases hm with
  | claim hr hs =>
    have hnew := fun k hk => hi.waiting_unclaimed _ _ k hk (by rw [hr]; rfl)
    refine h.given rfl (by rw [hs]; rfl) (hnew _) rfl (by grind) rfl rfl ?_ rfl
    intro ht
    have := hi.full_front ht
    exact ⟨rfl, by grind⟩
  | wakeProducer hr hp hs =>
    have hnew := fun k hk => hi.waiting_unclaimed _ _ k hk (by rw [hp]; rfl)
    exact h.given rfl (by rw [hs]; rfl) (hnew _) rfl (by grind) rfl (by grind) (by grind) rfl
  | take hr hs => exact h.take hi hv hr hs
  | drainFree hr hs => exact h.drain hr rfl rfl
  | drainOutput hr hs => exact h.drain hr rfl rfl
  | drainInput hr hs hl => exact h.drain hr rfl rfl
  | reportClosed hr hs hc =>
    exact h.frame rfl (fun _ => rfl) (by simp [handed, Pull.ticket]) (by grind) (by grind) (by simp)
      (fun _ he => he)
  | reportEmpty hr =>
    exact h.frame rfl (fun _ => rfl) (by simp [handed, Pull.ticket]) (by grind) (by grind) (by simp)
      (fun _ he => he)
  | park hr hs | arm hr hs =>
    exact h.frame rfl (by grind [Slot.ticket_park, Slot.ticket_arm]) rfl (by grind) (by grind)
      (fun _ _ hv => hv) (fun _ he => he)
  | closeTake hr =>
    have := hi.take_woken _ _ hr
    exact h.frame rfl (by grind) rfl (by grind) (by grind) (fun _ _ hv => hv) (fun _ he => he)
  | closeWake hr =>
    have := hi.wake_woken _ _ hr
    exact h.frame rfl (by grind) rfl (by grind) (by grind) (fun _ _ hv => hv) (fun _ he => he)
  | shutArmed hr hs =>
    have := hi.armed_at _ (by rw [hs]; rfl)
    exact h.frame rfl (by grind) rfl (by grind) (by grind) (fun _ _ hv => hv) (fun _ he => he)
  | publishArmed hr hs =>
    have := hi.armed_at _ (by rw [hs]; rfl)
    exact h.frame rfl (by grind) rfl (by grind) (by grind) (fun _ _ hv => hv) (fun _ he => he)
  | _ => exact h.frame rfl (by grind) rfl (by grind) (by grind) (by grind) (by grind)

end Handed

section Closed

theorem Closed.init : Closed (Abs.init : Abs V) := by
  constructor <;> simp [Abs.init]

/-- Every value that was constructed has been handed out once the consumer has
left every slot before the cutoff. -/
theorem Values.mem_pulls (hv : Values cfg a) (hi : Inv cfg a) (hh : Handed cfg a) {c : Nat}
    (hc : a.stage.cutoff = some c) (hle : c ≤ a.reads) (hr : a.crole ≠ .draining) {e : Nat × V}
    (he : e ∈ a.constructed) : .ok e.1 e.2 ∈ a.pulls := by
  have hload := hi.load_eq_zero hc hle hr (cfg.slotOf e.1)
  rcases hh.handed_or_pending _ _ (hv.claimed e he) with hm | hp
  · obtain ⟨w, hw⟩ := mem_handed.mp hm
    have : (e.1, w) = e := List.inj_on_of_nodup_map hv.nodup (hh.constructed _ _ hw) he rfl
    rw [← this]
    exact hw
  · simp [Slot.load, hp] at hload

theorem append_singleton_eq {l l' m : List (Pull V)} {r : Pull V} (hr : r ≠ .closed)
    (h : m ++ [r] = l ++ .closed :: l') : ∃ l'', m = l ++ .closed :: l'' := by
  rcases List.eq_nil_or_concat l' with rfl | ⟨l'', x, rfl⟩
  · exact absurd (List.append_inj' h rfl).2 (by simpa using hr)
  · refine ⟨l'', ?_⟩
    have : m ++ [r] = (l ++ .closed :: l'') ++ [x] := by simpa using h
    exact (List.append_inj' this rfl).1

theorem Closed.move (h : Closed a) (hi : Inv cfg a) (hv : Values cfg a) (hh : Handed cfg a)
    (hm : Move cfg a a') : Closed a' := by
  have haway := h.away
  cases hm with
  | @emplace p i v b l₁ l₂ hr hs =>
    refine { h with drained := ?_ }
    intro l l' hl
    obtain ⟨haw, c, hc, hle⟩ := h.away (by rw [show a.pulls = _ from hl]; simp)
    have hload := hi.load_eq_zero hc hle (by simp [haw]) (cfg.slotOf i)
    rw [hs] at hload
    cases hload
  | take hr hs =>
    have hnot : .closed ∉ a.pulls := by
      intro hmem
      obtain ⟨haw, c, hc, hle⟩ := h.away hmem
      have hload := hi.load_eq_zero hc hle (by simp [haw]) (cfg.slotOf a.reads)
      rw [hs] at hload
      cases hload
    constructor
    · intro hmem
      simp [hnot] at hmem
    · intro l l' hl
      obtain ⟨l'', hl''⟩ := append_singleton_eq (by simp) hl
      simp [hl''] at hnot
  | reportEmpty hr =>
    constructor
    · intro hmem
      exact h.away (by simpa using hmem)
    · intro l l' hl
      obtain ⟨l'', hl''⟩ := append_singleton_eq (by simp) hl
      exact h.drained l l'' hl''
  | reportClosed hr hs hc =>
    refine ⟨fun _ => ⟨rfl, _, hs, hc⟩, ?_⟩
    intro l l' hl e he
    rcases List.eq_nil_or_concat l' with rfl | ⟨l'', x, rfl⟩
    · rw [← (List.append_inj' hl rfl).1]
      exact hv.mem_pulls hi hh hs hc (by grind) he
    · have : a.pulls ++ [.closed] = (l ++ .closed :: l'') ++ [x] := by simpa using hl
      exact h.drained l l'' (List.append_inj' this rfl).1 e he
  | beginArming hr hcfg hc =>
    refine ⟨?_, h.drained⟩
    intro hmem
    obtain ⟨-, c, hcut, hle⟩ := h.away hmem
    have := hc c hcut
    omega
  | publishArmed hr hs | shutArmed hr hs =>
    have := hi.armed_at _ (by rw [hs]; rfl)
    exact ⟨by grind, h.drained⟩
  | closeTake hr =>
    have := hi.take_woken _ _ hr
    exact ⟨by grind, h.drained⟩
  | closeWake hr =>
    have := hi.wake_woken _ _ hr
    exact ⟨by grind, h.drained⟩
  | _ => exact ⟨by grind, h.drained⟩

end Closed

end CoroUtil.MpscBounded
