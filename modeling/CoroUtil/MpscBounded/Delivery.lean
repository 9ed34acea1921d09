import CoroUtil.MpscBounded.Simulation

/-!
# Exactly-once delivery

`exactly_once`: whatever the interleaving, no value is handed out twice or
leaves its slot before its scope is released, a rejected push has constructed
nothing, and the first `CLOSED` comes after every value that is ever accepted.
-/

namespace CoroUtil.MpscBounded

open CoroUtil.General

variable {V : Type} {cfg : Config} {s s' : State V} {a a' : Abs V}

/-- Exactly-once delivery and sound `CLOSED`. -/
structure ExactlyOnce (cfg : Config) (s : State V) : Prop where
  /-- No value is handed out twice. -/
  handed_nodup : (handed s.pulls).Nodup
  /-- What is handed out under the ticket of an accepted push is its value. -/
  handed_value : ∀ x ∈ s.pushes, x.ok = true → ∀ v, .ok x.ticket v ∈ s.pulls → v = x.value
  /-- Only the release of its scope takes a value out of its slot. -/
  kept : ∀ act s', step cfg s act = some s' → ∀ k e, (s.elements k).data = some e →
    (s'.elements k).data = some e ∨
      (∃ idx, act = .release ∧ s.consumer = .holding idx ∧ k = cfg.slotOf idx) ∧
        .ok e.1 e.2 ∈ s.pulls
  /-- A rejected push has constructed nothing. -/
  rejected : ∀ x ∈ s.pushes, x.ok = false → ∀ v, (x.ticket, v) ∉ s.constructed
  /-- Whatever is accepted was handed out before the first `CLOSED`. -/
  drained : ∀ l l', s.pulls = l ++ .closed :: l' →
    ∀ x ∈ s.pushes, x.ok = true → .ok x.ticket x.value ∈ l

section Data

variable {p : Tid} {v : V} {i k idx : Nat} {f : Flags}

theorem State.data_setElem {e : Element V} (he : e.data = (s.elem cfg idx).data) :
    ((s.setElem cfg idx e).elements k).data = (s.elements k).data := by
  simp only [State.setElem, Function.update_apply]
  split
  · next hk => rw [he, hk, State.elem]
  · rfl

theorem State.data_setFlags :
    ((s.setFlags cfg idx f).elements k).data = (s.elements k).data := State.data_setElem rfl

theorem State.elements_afterClaimLoad : (s.afterClaimLoad p v i f).elements = s.elements := by
  rw [State.afterClaimLoad]
  split_ifs <;> rfl

theorem State.elements_afterParkLoad : (s.afterParkLoad p v i f).elements = s.elements := by
  rw [State.afterParkLoad]
  split_ifs <;> rfl

theorem State.elements_afterCloseLoad : (s.afterCloseLoad p i f).elements = s.elements := by
  rw [State.afterCloseLoad]
  split_ifs <;> rfl

theorem State.elements_afterPoll {k : Call} : (s.afterPoll k).elements = s.elements := by
  cases k <;> rfl

theorem State.elements_afterLoadFlags : (s.afterLoadFlags idx f).elements = s.elements := by
  rw [State.afterLoadFlags]
  split_ifs <;> rfl

theorem State.elements_afterDrainLoad : (s.afterDrainLoad cfg idx f).elements = s.elements := by
  rw [State.afterDrainLoad]
  split_ifs <;> rfl

theorem State.elements_handOut : (s.handOut cfg idx).elements = s.elements := by
  rw [State.handOut]
  split <;> rfl

theorem State.data_afterReverse {o : Option Tid} :
    ((s.afterReverse cfg idx o).elements k).data = (s.elements k).data := by
  cases o with
  | none => rfl
  | some p => exact State.data_setElem rfl

theorem State.elements_resumeProducer : (s.resumeProducer p).elements = s.elements := by
  rw [State.resumeProducer]
  split <;> rfl

theorem State.elements_resumeConsumer : s.resumeConsumer.elements = s.elements := by
  rw [State.resumeConsumer]
  split <;> rfl

/-- A task constructs a value in its slot; it changes no other. -/
theorem State.taskStep_data {spurious : Bool} (h : s.taskStep cfg p spurious = some s') :
    (s'.elements k).data = (s.elements k).data ∨
      ∃ v i, s.task p = .emplace v i ∧ k = cfg.slotOf i := by
  by_cases hpc : ∃ v i, s.task p = .emplace v i ∧ k = cfg.slotOf i
  · exact .inr hpc
  · refine .inl ?_
    simp only [State.taskStep] at h
    split at h
    case h_1 | h_10 => cases h
    case h_11 v i hp =>
      cases h
      exact congrArg Element.data (Function.update_of_ne (fun hk => hpc ⟨v, i, hp, hk⟩) ..)
    all_goals
      try split at h
      all_goals try split at h
      all_goals
        cases h
        simp only [State.setTask, State.returnPush, State.returnClose, State.check, State.setConsumer,
          State.data_setFlags, State.data_setElem, State.elements_afterClaimLoad,
          State.elements_afterParkLoad, State.elements_afterCloseLoad, State.elements_resumeConsumer]

/-- Before it has released the scope the consumer takes no value out of a slot. -/
theorem State.consumerStep_data {spurious : Bool} (h : s.consumerStep cfg spurious = some s') :
    (s'.elements k).data = (s.elements k).data := by
  simp only [State.consumerStep] at h
  split at h
  case h_1 | h_14 | h_16 => cases h
  all_goals
    try split at h
    all_goals try split at h
    all_goals
      cases h
      simp only [State.setConsumer, State.returnPull, State.check, State.data_setFlags,
        State.data_setElem, State.elements_afterPoll, State.elements_afterLoadFlags,
        State.elements_afterDrainLoad, State.elements_handOut, State.data_afterReverse,
        State.elements_resumeProducer]

end Data

/-- A value is constructed in an empty slot, and taken out of it by the release
of its scope. -/
theorem Reached.kept (h : Reached cfg s a) {act : Act V}
    (hstep : MpscBounded.step cfg s act = some s') {k : Nat} {e : Nat × V}
    (he : (s.elements k).data = some e) : (s'.elements k).data = some e ∨
      ∃ idx, act = .release ∧ s.consumer = .holding idx ∧ k = cfg.slotOf idx := by
  cases act with
  | push p v | close p =>
    simp only [MpscBounded.step] at hstep
    split at hstep <;> cases hstep
    exact .inl he
  | task p spurious =>
    rcases State.taskStep_data (k := k) hstep with hd | ⟨v, i, hpc, hk⟩
    · exact .inl (hd.trans he)
    · obtain ⟨b, l, l', hs⟩ := h.inv.writing_slot p i v (h.rel.role_eq hpc)
      rw [h.rel.data, hk, hs] at he
      simp [Slot.value] at he
  | pull c =>
    simp only [MpscBounded.step] at hstep
    split at hstep
    · split at hstep <;> cases hstep
      exact .inl he
    · cases hstep
  | consumer spurious => exact .inl ((State.consumerStep_data hstep).trans he)
  | release =>
    simp only [MpscBounded.step, State.release] at hstep
    split at hstep <;> cases hstep
    next idx hpc =>
      by_cases hk : k = cfg.slotOf idx
      · exact .inr ⟨idx, rfl, hpc, hk⟩
      · exact .inl ((congrArg Element.data (Function.update_of_ne hk ..)).trans he)

/-- Two values were not constructed under one ticket. -/
theorem Values.unique (hv : Values cfg a) {i : Nat} {v w : V} (h : (i, v) ∈ a.constructed)
    (h' : (i, w) ∈ a.constructed) : v = w := by
  have := List.inj_on_of_nodup_map hv.nodup h h' rfl
  simpa using this

/-- The value in a scope was handed out. -/
theorem Reached.holding_handed (h : Reached cfg s a) {idx : Nat} (hpc : s.consumer = .holding idx)
    {e : Nat × V} (he : (s.elem cfg idx).data = some e) : .ok e.1 e.2 ∈ s.pulls := by
  have hknows := h.rel.consumer
  rw [hpc] at hknows
  obtain ⟨rfl, hc⟩ := hknows
  obtain ⟨i, v, l, l', hs⟩ := h.inv.consumer_eq hc
  have hfront : a.front = a.reads := by simp [Abs.front, hc]
  rw [h.rel.elem_data (by simp [hc]), hs] at he
  cases he
  obtain ⟨w, hw⟩ := mem_handed.mp (h.handed.took_handed i (by rw [hc]; rfl) (by rw [hfront, hs]; rfl))
  rw [h.rel.pulls, h.values.unique (h.values.full_mem _ i v l l' hs) (h.handed.constructed i w hw)]
  exact hw

/-- A rejected push has constructed nothing: the ticket of what was constructed
is that of a push that is running or of one that was accepted. -/
theorem Reached.rejected (h : Reached cfg s a) {x : Push V} (hx : x ∈ s.pushes)
    (hok : x.ok = false) (v : V) : (x.ticket, v) ∉ s.constructed := by
  rw [h.rel.pushes] at hx
  rw [h.rel.constructed]
  intro hv
  rcases h.values.source _ hv with ⟨p, hp⟩ | ⟨y, hy, hyok, he⟩
  · exact h.pushes.not_running x hx p (Role.ticket_of_built hp)
  · obtain ⟨ht, -⟩ := Prod.mk.inj he
    have hxy := List.inj_on_of_nodup_map h.pushes.nodup hy hx ht
    rw [hxy, hok] at hyok
    cases hyok

theorem Reached.exactlyOnce (h : Reached cfg s a) : ExactlyOnce cfg s where
  handed_nodup := h.rel.pulls ▸ h.handed.nodup
  handed_value := by
    intro x hx hok v hv
    rw [h.rel.pushes] at hx
    rw [h.rel.pulls] at hv
    exact h.values.unique (h.handed.constructed _ _ hv) (h.values.accepted_mem x hx hok)
  kept := by
    intro act s' hstep k e he
    rcases h.kept hstep he with hk | ⟨idx, hact, hpc, rfl⟩
    · exact .inl hk
    · exact .inr ⟨⟨idx, hact, hpc, rfl⟩, h.holding_handed hpc he⟩
  rejected := fun _ hx hok => h.rejected hx hok
  drained := by
    intro l l' hl x hx hok
    rw [h.rel.pulls] at hl
    rw [h.rel.pushes] at hx
    exact h.closed.drained l l' hl _ (h.values.accepted_mem x hx hok)

/-- Every value is handed out at most once and stays in its slot until then, a
rejected push leaves nothing behind, and `CLOSED` comes after every value that
is ever accepted. -/
theorem exactly_once (h : (system V cfg).Reachable s) (hb : s.writeOffset < 2 ^ (cfg.bits - 1)) :
    ExactlyOnce cfg s := by
  obtain ⟨a, ha⟩ := reached (InRange.reach h fun _ => hb)
  exact ha.exactlyOnce

/-- Task 0 pushes 7, the consumer takes it, and task 1 closes the queue. -/
def pushPullClose : List (Act Nat) :=
  .push 0 7 :: List.replicate 7 (.task 0 false) ++
    [.pull .pull, .consumer false, .release, .consumer false, .consumer false] ++
    .close 1 :: List.replicate 6 (.task 1 false) ++ .pull .pull :: List.replicate 4 (.consumer false)

theorem exactly_once_pushPullClose : ∃ s, pushPullClose.foldlM (step oneSlot) .init = some s ∧
    s.pulls = [.ok 0 7, .closed] ∧ ExactlyOnce oneSlot s :=
  ⟨_, rfl, rfl, exactly_once (System.ofStep_reachable pushPullClose rfl) (by decide)⟩

end CoroUtil.MpscBounded
