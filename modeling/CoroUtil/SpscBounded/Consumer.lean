import CoroUtil.SpscBounded.Window

/-!
# The steps of the consumer

Each step keeps the invariant: a value is handed out and destroyed, its slot is
freed and becomes that of the index one lap later, and what the exchange found
in it is the producer that waited for it, the mark of `close()` or neither.
-/

namespace CoroUtil.SpscBounded

open CoroUtil.General

variable {V : Type} {cfg : Config} {s s' : State V}

/-- The producer is not waiting for a consumer that is neither suspended nor on
its way to resume it. -/
theorem State.producerOk_congr (h : s.producerOk cfg) (hwaiting : s.consumer.waiting = false)
    (hres : s.consumer ≠ .resumeProducer) (hp : s'.producer = s.producer)
    (hcl : s'.closed = s.closed) (hr : s'.readOffset = s.readOffset)
    (hw : s'.writeOffset = s.writeOffset) : s'.producerOk cfg := by
  rw [State.producerOk] at h
  rw [State.producerOk, hp, hcl, hr, hw]
  cases hpc : s.producer with
  | pushSuspended v idx =>
    rw [hpc] at h
    obtain ⟨hopen, hidx, hle, hc⟩ := h
    exact ⟨hopen, hidx, hle, fun hl => absurd (hc hl) hres⟩
  | bulkSuspended vs idx =>
    rw [hpc] at h
    obtain ⟨hopen, hidx, hpos, hcap, hle, hc⟩ := h
    exact ⟨hopen, hidx, hpos, hcap, hle, fun hl => absurd (hc hl) hres⟩
  | resumeConsumer =>
    rw [hpc] at h
    rw [h.2.2] at hwaiting
    cases hwaiting
  | closeElemNull | closeResume =>
    rw [hpc] at h
    rw [h.2] at hwaiting
    cases hwaiting
  | _ =>
    rw [hpc] at h
    exact h

theorem Inv.quietConsumer (h : Inv cfg s) {pc : ConsumerPc} (hshown : pc.shown = s.consumer.shown)
    (hwaiting : s.consumer.waiting = false) (hres : s.consumer ≠ .resumeProducer)
    (hc : (s.setConsumer pc).consumerOk cfg) : Inv cfg (s.setConsumer pc) := by
  simp only [ConsumerPc.shown, Prod.mk.injEq] at hshown
  obtain ⟨htaken, hfreeing, hwait, hstoring⟩ := hshown
  refine h.setConsumer ?_ htaken (State.producerOk_congr h.producer hwaiting hres rfl rfl rfl rfl) hc
  simp only [State.view, State.setConsumer, State.marked, hfreeing, hwait, hstoring]

theorem Inv.returnPull (h : Inv cfg s) {r : Pull V} (hr : SpscBounded.handed [r] = [])
    (hshown : s.consumer.shown = (0, false, false, false)) (hres : s.consumer ≠ .resumeProducer) :
    Inv cfg (s.returnPull r) := by
  have hwaiting : s.consumer.waiting = false := congrArg (fun t => t.2.2.1) hshown
  have hi : Inv cfg (s.setConsumer .idle) := h.quietConsumer hshown.symm hwaiting hres trivial
  refine ⟨hi.pushed, hi.le, hi.full, ?_, hi.ring, hi.producer, hi.consumer, hi.unbroken⟩
  rw [State.returnPull, handed_append, hr, List.append_nil]
  exact hi.handed

theorem Inv.handOut (h : Inv cfg s) (hb : Straight cfg s)
    (hshown : s.consumer.shown = (0, false, false, false)) (hres : s.consumer ≠ .resumeProducer)
    (hlt : s.readOffset < s.writeOffset) :
    ∃ v, s.pushed[s.readOffset]? = some v ∧
      s.handOut cfg s.readOffset = { s with
        consumer := .holding s.readOffset
        pulls := s.pulls ++ [.ok v] } ∧
      Inv cfg (s.handOut cfg s.readOffset) := by
  have hcap := cfg.capacity_pos
  obtain ⟨htaken, hfreeing, hwaiting, hstoring⟩ : s.consumer.taken = 0 ∧
      s.consumer.freeing = false ∧ s.consumer.waiting = false ∧ s.consumer.storing = false := by
    simpa only [ConsumerPc.shown, Prod.mk.injEq] using hshown
  have hlen : s.readOffset < s.pushed.length := h.pushed.symm ▸ hlt
  have hget : s.pushed[s.readOffset]? = some s.pushed[s.readOffset] := List.getElem?_eq_getElem hlen
  have hdata : (s.elem cfg s.readOffset).data = some s.pushed[s.readOffset] := by
    rw [h.elem hb le_rfl (by omega) (by omega)]
    refine (View.dataAt_eq fun hf => ?_).trans ((List.getElem?_append_left hlen).trans hget)
    cases hfreeing.symm.trans hf
  have heq : s.handOut cfg s.readOffset = { s with
      consumer := .holding s.readOffset
      pulls := s.pulls ++ [.ok s.pushed[s.readOffset]] } := by rw [State.handOut, hdata]
  refine ⟨_, hget, heq, ?_⟩
  rw [heq]
  refine ⟨h.pushed, h.le, h.full, ?_, ?_, State.producerOk_congr h.producer hwaiting hres rfl rfl
    rfl rfl, And.intro rfl hlt, h.unbroken⟩
  · have hh := h.handed
    rw [htaken, Nat.add_zero] at hh
    rw [handed_append, hh, ConsumerPc.taken, List.take_add_one, hget]
    rfl
  · have hview : ({ s with
        consumer := .holding s.readOffset
        pulls := s.pulls ++ [.ok s.pushed[s.readOffset]] } : State V).view = s.view := by
      simp only [State.view, State.marked, hfreeing, hwaiting, hstoring]
      rfl
    exact hview ▸ h.ring

/-- The slot of `read_offset` shows whether there is a value for a consumer that
is not suspended. -/
theorem Inv.empty_flags (h : Inv cfg s) (hb : Straight cfg s)
    (hshown : s.consumer.shown = (0, false, false, false)) (heq : s.readOffset = s.writeOffset) :
    (s.elem cfg s.readOffset).flags = if s.marked then .closed else .null := by
  have hcap := cfg.capacity_pos
  obtain ⟨-, -, hwaiting, hstoring⟩ : s.consumer.taken = 0 ∧ s.consumer.freeing = false ∧
      s.consumer.waiting = false ∧ s.consumer.storing = false := by
    simpa only [ConsumerPc.shown, Prod.mk.injEq] using hshown
  rw [h.elem hb le_rfl (by omega) (by omega), heq]
  change s.view.flagsAt cfg.capacity s.view.writeOffset = _
  by_cases hm : s.marked = true
  · have hm' : s.view.marked = true := hm
    rw [View.flagsAt_marked hm', if_pos hm]
    exact if_neg (by simp [State.view, hstoring])
  · rw [Bool.not_eq_true] at hm
    have hm' : s.view.marked = false := hm
    have hoff : s.view.waiting = false := hwaiting
    rw [View.flagsAt_free hm', hm, if_neg (by simp [hoff])]
    rfl

theorem Inv.not_empty_lt (h : Inv cfg s) (hb : Straight cfg s)
    (hshown : s.consumer.shown = (0, false, false, false))
    (hnull : ¬ (s.elem cfg s.readOffset).flags = .null)
    (hclosed : ¬ (s.elem cfg s.readOffset).flags = .closed) : s.readOffset < s.writeOffset := by
  refine Nat.lt_of_le_of_ne h.le fun heq => ?_
  rw [h.empty_flags hb hshown heq] at hnull hclosed
  split_ifs at hnull hclosed
  · exact hclosed rfl
  · exact hnull rfl

theorem Inv.dataWaiting_lt (h : Inv cfg s) (hb : Straight cfg s)
    (hshown : s.consumer.shown = (0, false, false, false))
    (hd : (s.elem cfg s.readOffset).flags.dataWaiting = true) : s.readOffset < s.writeOffset := by
  refine h.not_empty_lt hb hshown (fun hf => ?_) fun hf => ?_
  all_goals
    rw [hf] at hd
    cases hd

theorem Inv.tryWait (h : Inv cfg s) (hb : Straight cfg s)
    (hpc : s.consumer = .tryWait s.readOffset) (hf : (s.elem cfg s.readOffset).flags = .null) :
    Inv cfg ((s.setFlags cfg s.readOffset .consumer).setConsumer
      (.suspended s.readOffset false)) := by
  have hcap := cfg.capacity_pos
  have hle := h.le
  have hin : s.readOffset < s.readOffset + cfg.capacity := by omega
  have hcons := h.consumer
  rw [State.consumerOk, hpc] at hcons
  have hshown : s.consumer.shown = (0, false, false, false) := by rw [hpc]; rfl
  have heq : s.readOffset = s.writeOffset := by
    refine Nat.le_antisymm hle (Nat.le_of_not_lt fun hlt => ?_)
    have hlt' : s.readOffset < s.view.writeOffset := hlt
    rw [h.elem hb le_rfl hin (by omega)] at hf
    change s.view.flagsAt cfg.capacity s.readOffset = .null at hf
    rw [View.flagsAt, if_pos hlt'] at hf
    split_ifs at hf
  have hmark : s.marked = false := by
    rw [h.empty_flags hb hshown heq] at hf
    split_ifs at hf with hm
    simpa using hm
  have hview : ((s.setFlags cfg s.readOffset .consumer).setConsumer
      (.suspended s.readOffset false)).view = { s.view with waiting := true } := by
    simp only [State.view, State.setFlags, State.setConsumer, State.marked, hpc]
    rfl
  refine ⟨h.pushed, h.le, h.full, ?_, ?_, ?_, ?_, h.unbroken⟩
  · have hh := h.handed
    rw [hpc] at hh
    exact hh
  · rw [hview]
    refine h.ring_setFlags (by rw [hb s.readOffset (by omega)]) le_rfl hin ?_ ?_ fun _ => rfl
    · have hw : ({ s.view with waiting := true } : View V).writeOffset = s.readOffset := heq.symm
      rw [← hw]
      exact (View.flagsAt_free hmark).trans (if_pos ⟨rfl, hw⟩)
    · intro m _ _ hne
      refine View.flagsAt_congr rfl rfl rfl rfl (fun hm _ => ?_) fun _ => Iff.rfl
      exact absurd (hm.trans heq.symm) hne
  · exact State.producerOk_congr h.producer (by rw [hpc]; rfl) (by rw [hpc]; simp) rfl rfl rfl rfl
  · refine And.intro rfl (And.intro hcons.2 (And.intro (fun hl => ?_) (And.intro (fun hm => ?_)
      fun hm => (by cases hm))))
    · exact absurd heq (Nat.ne_of_lt hl)
    · cases hmark.symm.trans hm

theorem Inv.release (h : Inv cfg s) (hb : Straight cfg s) {idx : Nat}
    (hpc : s.consumer = .holding idx) : (s.elem cfg idx).data.isSome = true ∧
      Inv cfg ((s.setData cfg idx none).setConsumer (.freeSlot idx)) := by
  have hcons := h.consumer
  rw [State.consumerOk, hpc] at hcons
  obtain ⟨rfl, hlt⟩ := hcons
  have hin : s.readOffset < s.readOffset + cfg.capacity := Nat.lt_add_of_pos_right cfg.capacity_pos
  have hlen : s.readOffset < s.pushed.length := h.pushed.symm ▸ hlt
  have hview : ((s.setData cfg s.readOffset none).setConsumer (.freeSlot s.readOffset)).view =
      { s.view with freeing := true } := by
    simp only [State.view, State.setData, State.setConsumer, State.marked, hpc]
    rfl
  refine ⟨?_, h.pushed, h.le, h.full, ?_, ?_, ?_, And.intro rfl hlt, h.unbroken⟩
  · rw [h.elem hb le_rfl hin (by omega)]
    change (s.view.dataAt s.readOffset).isSome = true
    rw [View.dataAt_eq (fun hf => by simp [State.view, hpc, ConsumerPc.freeing] at hf)]
    simp only [State.view, List.getElem?_append_left hlen, List.getElem?_eq_getElem hlen,
      Option.isSome_some]
  · have hh := h.handed
    rw [hpc] at hh
    exact hh
  · rw [hview]
    refine h.ring_setData (by rw [hb s.readOffset (by omega)]) le_rfl hin ?_ ?_ fun _ => rfl
    · exact View.dataAt_freed (w := { s.view with freeing := true }) rfl
    · intro m _ _ hne
      rw [View.dataAt_eq (w := s.view) fun _ => hne]
      exact View.dataAt_eq fun _ => hne
  · exact State.producerOk_congr h.producer (by rw [hpc]; rfl) (by rw [hpc]; simp) rfl rfl rfl rfl

theorem Inv.writing_le (h : Inv cfg s) :
    (s.writeOffset < s.readOffset + cfg.capacity →
      s.writeOffset + s.producer.stored < s.readOffset + cfg.capacity) ∧
      s.writeOffset + s.producer.built.length ≤ s.readOffset + cfg.capacity := by
  have hp := h.producer
  have hfull := h.full
  cases hpc : s.producer with
  | publish v idx =>
    rw [State.producerOk, hpc] at hp
    exact ⟨id, hp.2.2⟩
  | bulkPublish vs idx =>
    rw [State.producerOk, hpc] at hp
    obtain ⟨-, -, hpos, hle⟩ := hp
    simp only [ProducerPc.stored, ProducerPc.built]
    omega
  | bulkEmplace vs idx i | bulkStore vs idx i =>
    rw [State.producerOk, hpc] at hp
    obtain ⟨-, -, ⟨-, hi⟩, hle⟩ := hp
    simp only [ProducerPc.stored, ProducerPc.built, List.length_take]
    omega
  | _ => exact ⟨id, hfull⟩

/-- What a slot that is being freed holds besides a value. -/
theorem Inv.freed_flags (h : Inv cfg s) (hb : Straight cfg s) (hlt : s.readOffset < s.writeOffset) :
    (s.elem cfg s.readOffset).flags =
      if s.producer.waitsFor = some (s.readOffset + cfg.capacity) then .producer
      else if s.marked ∧ s.readOffset + cfg.capacity = s.writeOffset then .dataClosed
      else .data := by
  rw [h.elem hb le_rfl (Nat.lt_add_of_pos_right cfg.capacity_pos) (by omega)]
  have hlt' : s.view.readOffset < s.view.writeOffset := hlt
  exact if_pos hlt'

theorem Inv.waitsFor_cases (h : Inv cfg s) {last : Nat} (hw : s.producer.waitsFor = some last) :
    s.marked = false ∧ last < s.writeOffset + cfg.capacity ∧
      s.readOffset + cfg.capacity ≤ last + 1 ∧
      (s.readOffset + cfg.capacity = last + 1 → s.consumer = .resumeProducer) := by
  have hp := h.producer
  have hcap := cfg.capacity_pos
  cases hpc : s.producer with
  | pushSuspended v idx =>
    rw [hpc] at hw
    cases hw
    rw [State.producerOk, hpc] at hp
    obtain ⟨hopen, hidx, hle, hc⟩ := hp
    exact ⟨marked_of_open hopen, by omega, hle, hc⟩
  | bulkSuspended vs idx =>
    rw [hpc] at hw
    cases hw
    rw [State.producerOk, hpc] at hp
    obtain ⟨hopen, hidx, hpos, hlen, hle, hc⟩ := hp
    exact ⟨marked_of_open hopen, by omega, by omega, fun hl => hc (by omega)⟩
  | _ =>
    rw [hpc] at hw
    cases hw

/-- The producer keeps what it knows when a slot is freed, and it is resumed if
that was the slot it waited for. -/
theorem State.producerOk_freed (h : s.producerOk cfg) (hwaiting : s.consumer.waiting = false)
    (hres : s.consumer ≠ .resumeProducer) (hp : s'.producer = s.producer)
    (hcl : s'.closed = s.closed) (hr : s'.readOffset = s.readOffset + 1)
    (hw : s'.writeOffset = s.writeOffset)
    (hc : s.producer.waitsFor = some (s.readOffset + cfg.capacity) →
      s'.consumer = .resumeProducer) : s'.producerOk cfg := by
  rw [State.producerOk] at h
  rw [State.producerOk, hp, hcl, hr, hw]
  cases hpc : s.producer with
  | pushSuspended v idx =>
    rw [hpc] at h hc
    obtain ⟨hopen, hidx, hle, hn⟩ := h
    have hne : s.readOffset + cfg.capacity ≠ idx + 1 := fun hl => hres (hn hl)
    refine ⟨hopen, hidx, by omega, fun hl => hc ?_⟩
    exact congrArg some (by omega)
  | bulkSuspended vs idx =>
    rw [hpc] at h hc
    obtain ⟨hopen, hidx, hpos, hcap, hle, hn⟩ := h
    have hne : s.readOffset + cfg.capacity ≠ idx + vs.length := fun hl => hres (hn hl)
    refine ⟨hopen, hidx, hpos, hcap, by omega, fun hl => hc ?_⟩
    exact congrArg some (by omega)
  | emplace v idx | publish v idx =>
    rw [hpc] at h
    exact ⟨h.1, h.2.1, by omega⟩
  | bulkFirst vs idx | bulkPublish vs idx =>
    rw [hpc] at h
    exact ⟨h.1, h.2.1, h.2.2.1, by omega⟩
  | bulkEmplace vs idx i | bulkStore vs idx i =>
    rw [hpc] at h
    exact ⟨h.1, h.2.1, h.2.2.1, by omega⟩
  | resumeConsumer =>
    rw [hpc] at h
    rw [h.2.2] at hwaiting
    cases hwaiting
  | closeElemNull | closeResume =>
    rw [hpc] at h
    rw [h.2] at hwaiting
    cases hwaiting
  | _ =>
    rw [hpc] at h
    exact h

section Freed

variable {cap n : Nat} {w : View V} {b : Bool}

/-- The view once the first slot of the window is free; `b` says that it carried
the mark of `close()`. -/
def View.freed (w : View V) (b : Bool) : View V :=
  { w with readOffset := w.readOffset + 1, storing := b, waiting := false, freeing := false }

theorem View.cell_entering (hfull : w.writeOffset ≤ w.readOffset + cap)
    (hstored : w.writeOffset < w.readOffset + cap → w.writeOffset + w.stored < w.readOffset + cap)
    (hlen : w.values.length ≤ w.readOffset + cap)
    (hb : b = true ↔ w.marked = true ∧ w.readOffset + cap = w.writeOffset) :
    (w.freed b).cell cap (w.readOffset + cap) = ⟨.null, none⟩ := by
  have hw : (w.freed b).writeOffset = w.writeOffset := rfl
  have hd : (w.freed b).dataAt (w.readOffset + cap) = none := by
    rw [View.dataAt_eq (by simp [View.freed])]
    exact List.getElem?_eq_none hlen
  rw [cell, hd]
  refine congrArg (Element.mk · none) ?_
  rcases Nat.eq_or_lt_of_le hfull with heq | hgt
  · rw [← heq, ← hw]
    cases hm : w.marked with
    | true =>
      have hm' : (w.freed b).marked = true := hm
      have hon : (w.freed b).storing = true := hb.mpr ⟨hm, heq.symm⟩
      rw [View.flagsAt_marked hm', if_pos hon]
    | false =>
      have hm' : (w.freed b).marked = false := hm
      rw [View.flagsAt_free hm', if_neg (by simp [View.freed])]
  · exact View.flagsAt_null hgt (hstored hgt)

theorem View.cell_freed (hn : w.readOffset < n) (hn' : n < w.readOffset + cap)
    (hoff : w.storing = false)
    (hb : b = true ↔ w.marked = true ∧ w.readOffset + cap = w.writeOffset) :
    (w.freed b).cell cap n = w.cell cap n := by
  have hd : (w.freed b).dataAt n = w.dataAt n := by
    rw [View.dataAt_eq (by simp [View.freed]), View.dataAt_eq (fun _ => by omega)]
    rfl
  rw [cell, cell, hd]
  refine congrArg (Element.mk · _) ?_
  simp only [flagsAt, freed, hoff]
  split_ifs <;> grind

end Freed

/-- The slot is free and enters the window again one lap later. -/
theorem Inv.freeSlot (h : Inv cfg s) (hb : Straight cfg s) {idx : Nat}
    (hpc : s.consumer = .freeSlot idx) :
    Inv cfg ({ s.setFlags cfg idx .null with readOffset := idx + 1 }.setConsumer
      (if (s.elem cfg idx).flags.isPointer then .resumeProducer
      else if (s.elem cfg idx).flags.closedBit then .storeClosed idx else .idle)) := by
  have hcons := h.consumer
  rw [State.consumerOk, hpc] at hcons
  obtain ⟨rfl, hlt⟩ := hcons
  have hcap := cfg.capacity_pos
  have hflags := h.freed_flags hb hlt
  generalize hnext : (if (s.elem cfg s.readOffset).flags.isPointer then ConsumerPc.resumeProducer
    else if (s.elem cfg s.readOffset).flags.closedBit then .storeClosed s.readOffset
    else .idle) = pc
  -- the three ways on, by what the exchange found
  have hcases : (s.producer.waitsFor = some (s.readOffset + cfg.capacity) ∧ pc = .resumeProducer) ∨
      (s.producer.waitsFor ≠ some (s.readOffset + cfg.capacity) ∧
        (s.marked = true ∧ s.readOffset + cfg.capacity = s.writeOffset ∧
            pc = .storeClosed s.readOffset ∨
          ¬ (s.marked = true ∧ s.readOffset + cfg.capacity = s.writeOffset) ∧ pc = .idle)) := by
    rw [← hnext, hflags]
    by_cases hw : s.producer.waitsFor = some (s.readOffset + cfg.capacity)
    · exact .inl ⟨hw, by rw [if_pos hw]; rfl⟩
    · refine .inr ⟨hw, ?_⟩
      rw [if_neg hw]
      by_cases hm : s.marked = true ∧ s.readOffset + cfg.capacity = s.writeOffset
      · exact .inl ⟨hm.1, hm.2, by rw [if_pos hm]; rfl⟩
      · exact .inr ⟨hm, by rw [if_neg hm]; rfl⟩
  have hpc' : pc.taken = 0 ∧ pc.freeing = false ∧ pc.waiting = false := by
    rcases hcases with ⟨-, rfl⟩ | ⟨-, ⟨-, -, rfl⟩ | ⟨-, rfl⟩⟩ <;> exact ⟨rfl, rfl, rfl⟩
  obtain ⟨htaken, hfreeing, hwaiting⟩ := hpc'
  have hstoring : pc.storing = true ↔
      s.marked = true ∧ s.readOffset + cfg.capacity = s.writeOffset := by
    rcases hcases with ⟨hw, rfl⟩ | ⟨-, ⟨hm, hr, rfl⟩ | ⟨hm, rfl⟩⟩
    · refine ⟨fun hs => (by cases hs), fun hs => ?_⟩
      cases hs.1.symm.trans (h.waitsFor_cases hw).1
    · exact ⟨fun _ => ⟨hm, hr⟩, fun _ => rfl⟩
    · exact ⟨fun hs => (by cases hs), fun hs => absurd hs hm⟩
  have hdata : (s.elem cfg s.readOffset).data = none := by
    rw [h.elem hb le_rfl (Nat.lt_add_of_pos_right hcap) (by omega)]
    exact View.dataAt_freed (w := s.view) (by simp [State.view, hpc, ConsumerPc.freeing])
  have hview : ({ s.setFlags cfg s.readOffset .null with
      readOffset := s.readOffset + 1 }.setConsumer pc).view = s.view.freed pc.storing := by
    simp only [State.view, View.freed, State.setFlags, State.setConsumer, State.marked, hfreeing,
      hwaiting]
  refine ⟨h.pushed, hlt, ?_, ?_, ?_, ?_, ?_, h.unbroken⟩
  · exact Nat.le_trans h.full (Nat.add_le_add_right (Nat.le_succ _) _)
  · have hh := h.handed
    rw [hpc] at hh
    change SpscBounded.handed s.pulls = s.pushed.take (s.readOffset + 1 + pc.taken)
    rw [htaken]
    exact hh
  · rw [hview, State.setConsumer, State.setFlags, hb s.readOffset (by omega), hdata]
    obtain ⟨hstored, hbuilt⟩ := h.writing_le
    have hlen : s.view.values.length ≤ s.readOffset + cfg.capacity := by
      rw [State.view, List.length_append, h.pushed]
      exact hbuilt
    have hoff : s.view.storing = false := by simp [State.view, hpc, ConsumerPc.storing]
    exact h.ring.advance (View.cell_entering h.full hstored hlen hstoring)
      fun n hn hn' => View.cell_freed hn hn' hoff hstoring
  · refine State.producerOk_freed h.producer (by rw [hpc]; rfl) (by rw [hpc]; simp) rfl rfl rfl rfl
      fun hw => ?_
    rcases hcases with ⟨-, rfl⟩ | ⟨hne, -⟩
    · rfl
    · exact absurd hw hne
  · rcases hcases with ⟨hw, rfl⟩ | ⟨-, ⟨hm, hr, rfl⟩ | ⟨-, rfl⟩⟩
    · change s.producer.waitsFor = some (s.readOffset + 1 + cfg.capacity - 1)
      rw [hw, Nat.add_right_comm, Nat.add_sub_cancel]
    · exact And.intro rfl (And.intro hr hm)
    · trivial

theorem Inv.resumeProducer (h : Inv cfg s) (hpc : s.consumer = .resumeProducer) :
    Inv cfg (s.resumeProducer.setConsumer .idle) := by
  have hcap := cfg.capacity_pos
  have hwaits := h.consumer
  rw [State.consumerOk, hpc] at hwaits
  have hp := h.producer
  have hmoves : ∃ pc, s.resumeProducer = s.setProducer pc ∧ s.producer.shown =
      ([], 0, some (s.readOffset + cfg.capacity - 1), false) ∧ pc.shown = ([], 0, none, false) ∧
      ((s.setProducer pc).setConsumer .idle).producerOk cfg := by
    cases hq : s.producer with
    | pushSuspended v idx =>
      rw [hq] at hwaits
      rw [State.producerOk, hq] at hp
      obtain ⟨hopen, rfl, -⟩ := hp
      refine ⟨.emplace v s.writeOffset, by rw [State.resumeProducer, hq], ?_, rfl, ?_⟩
      · exact congrArg (fun o => ([], 0, o, false)) hwaits
      · have hlast : s.writeOffset = s.readOffset + cfg.capacity - 1 := Option.some.inj hwaits
        exact And.intro hopen (And.intro rfl
          (show s.writeOffset < s.readOffset + cfg.capacity by omega))
    | bulkSuspended vs idx =>
      rw [hq] at hwaits
      rw [State.producerOk, hq] at hp
      obtain ⟨hopen, rfl, hpos, -⟩ := hp
      refine ⟨.bulkFirst vs s.writeOffset, by rw [State.resumeProducer, hq], ?_, rfl, ?_⟩
      · exact congrArg (fun o => ([], 0, o, false)) hwaits
      · have hlast : s.writeOffset + vs.length - 1 = s.readOffset + cfg.capacity - 1 :=
          Option.some.inj hwaits
        exact And.intro hopen (And.intro rfl (And.intro hpos
          (show s.writeOffset + vs.length ≤ s.readOffset + cfg.capacity by omega)))
    | _ =>
      rw [hq] at hwaits
      cases hwaits
  obtain ⟨pc, hres, hshown, hshown', hok⟩ := hmoves
  simp only [ProducerPc.shown, Prod.mk.injEq] at hshown hshown'
  obtain ⟨hbuilt, hstored, -, hmark⟩ := hshown
  obtain ⟨hbuilt', hstored', hwaits', hmark'⟩ := hshown'
  have hview : ((s.setProducer pc).setConsumer .idle).view = { s.view with waitsFor := none } := by
    simp only [State.view, State.setProducer, State.setConsumer, State.marked, hpc, hbuilt, hstored,
      hmark, hbuilt', hstored', hwaits', hmark']
    rfl
  rw [hres]
  refine ⟨h.pushed, h.le, h.full, ?_, ?_, hok, trivial, h.unbroken⟩
  · have hh := h.handed
    rw [hpc] at hh
    exact hh
  · rw [hview]
    refine h.ring.congr fun m hm _ => congrArg (Element.mk · _) ?_
    have hne : s.view.waitsFor ≠ some (m + cfg.capacity) := by
      intro hl
      have hlast := Option.some.inj (hwaits.symm.trans hl)
      omega
    simp only [View.flagsAt, if_neg hne]
    rfl

theorem Inv.storeClosed (h : Inv cfg s) (hb : Straight cfg s) {idx : Nat}
    (hpc : s.consumer = .storeClosed idx) :
    Inv cfg ((s.setFlags cfg idx .closed).setConsumer .idle) := by
  have hcons := h.consumer
  rw [State.consumerOk, hpc] at hcons
  obtain ⟨hr, hw, hmark⟩ := hcons
  have hcap := cfg.capacity_pos
  have hview : ((s.setFlags cfg idx .closed).setConsumer .idle).view =
      { s.view with storing := false } := by
    simp only [State.view, State.setFlags, State.setConsumer, State.marked, hpc]
    rfl
  refine ⟨h.pushed, h.le, h.full, ?_, ?_, ?_, trivial, h.unbroken⟩
  · have hh := h.handed
    rw [hpc] at hh
    exact hh
  · rw [hview]
    refine h.ring_setFlags (n := s.writeOffset) ?_ h.le (by omega) ?_ ?_ fun _ => rfl
    · rw [hb idx (by omega), ← hw, Nat.add_mod_right]
    · exact View.flagsAt_marked (w := { s.view with storing := false }) hmark
    · intro m _ _ hne
      have hne' : m ≠ s.view.writeOffset := hne
      simp only [View.flagsAt, if_neg hne']
  · exact State.producerOk_congr h.producer (by rw [hpc]; rfl) (by rw [hpc]; simp) rfl rfl rfl rfl

/-- A step of the consumer keeps the invariant. -/
theorem Inv.consumerStep (h : Inv cfg s) (hb : Straight cfg s)
    (hstep : s.consumerStep cfg = some s') : Inv cfg s' := by
  have hc := h.consumer
  have hcap := cfg.capacity_pos
  have hle := h.le
  rw [State.consumerOk] at hc
  cases hpc : s.consumer with
  | idle => simp [State.consumerStep, hpc] at hstep
  | suspended idx n => simp [State.consumerStep, hpc] at hstep
  | holding idx => simp [State.consumerStep, hpc] at hstep
  | poll k =>
    rw [hpc] at hc
    have hres : s.consumer ≠ .resumeProducer := by simp [hpc]
    simp only [State.consumerStep, hpc] at hstep
    split at hstep
    · next hd =>
      cases hstep
      obtain ⟨v, -, -, hi⟩ := h.handOut hb (by rw [hpc]; rfl) hres
        (h.dataWaiting_lt hb (by rw [hpc]; rfl) hd)
      exact hi
    · cases k with
      | pull =>
        cases hstep
        exact h.quietConsumer (by rw [hpc]; rfl) (by rw [hpc]; rfl) hres (And.intro rfl (hc rfl))
      | tryPull =>
        cases hstep
        refine h.returnPull ?_ (by rw [hpc]; rfl) hres
        split_ifs <;> rfl
  | tryWait idx =>
    rw [hpc] at hc
    obtain ⟨rfl, hcan⟩ := hc
    have hres : s.consumer ≠ .resumeProducer := by simp [hpc]
    simp only [State.consumerStep, hpc] at hstep
    split at hstep
    · next hf =>
      cases hstep
      exact h.tryWait hb hpc hf
    · next hnull =>
      split at hstep
      · cases hstep
        exact h.returnPull rfl (by rw [hpc]; rfl) hres
      · next hclosed =>
        cases hstep
        obtain ⟨v, -, -, hi⟩ := h.handOut hb (by rw [hpc]; rfl) hres
          (h.not_empty_lt hb (by rw [hpc]; rfl) hnull hclosed)
        exact hi
  | resumed idx n =>
    rw [hpc] at hc
    obtain ⟨rfl, hn⟩ := hc
    have hres : s.consumer ≠ .resumeProducer := by simp [hpc]
    simp only [State.consumerStep, hpc] at hstep
    split at hstep <;> cases hstep
    · exact h.returnPull rfl (by rw [hpc]; rfl) hres
    · next hfalse =>
      obtain ⟨v, -, -, hi⟩ := h.handOut hb (by rw [hpc]; rfl) hres (hn (by simpa using hfalse))
      exact hi
  | freeSlot idx =>
    simp only [State.consumerStep, hpc, Option.some.injEq] at hstep
    exact hstep ▸ h.freeSlot hb hpc
  | resumeProducer =>
    simp only [State.consumerStep, hpc, Option.some.injEq] at hstep
    exact hstep ▸ h.resumeProducer hpc
  | storeClosed idx =>
    simp only [State.consumerStep, hpc, Option.some.injEq] at hstep
    exact hstep ▸ h.storeClosed hb hpc

end CoroUtil.SpscBounded
