import CoroUtil.SpscBounded.Wrap

/-!
# Closing the queue at any fill level

`close_at_any_level`: the mark that `close()` leaves on the slot of the cutoff is
found after the last value, however many values are unreleased, and it stays
there for every later call; a consumer suspended on that slot is resumed once.
-/

namespace CoroUtil.SpscBounded

open CoroUtil.General

variable {V : Type} {cfg : Config} {s s' : State V}

/-- After the mark the producer only closes the queue again. -/
theorem Inv.marked_producer (h : Inv cfg s) (hm : s.marked = true) :
    s.closed = true ∧ (s.producer = .idle ∨ s.producer = .closeCas ∨ s.producer = .closeElemNull ∨
      s.producer = .closeResume) := by
  have hp := h.producer
  rw [State.marked, Bool.and_eq_true, Bool.not_eq_true'] at hm
  obtain ⟨hclosed, hmark⟩ := hm
  refine ⟨hclosed, ?_⟩
  rw [State.producerOk] at hp
  cases hpc : s.producer with
  | idle => exact .inl rfl
  | closeCas => exact .inr (.inl rfl)
  | closeElemNull => exact .inr (.inr (.inl rfl))
  | closeResume => exact .inr (.inr (.inr rfl))
  | closeStoreAt | closeLoad | closeCasFlags cur =>
    rw [hpc] at hmark
    cases hmark
  | pushPoll v | tryPoll v =>
    rw [hpc] at hp
    cases hclosed.symm.trans hp
  | _ =>
    rw [hpc] at hp
    cases hclosed.symm.trans hp.1

theorem State.consumerStep_frame (h : s.consumer ≠ .resumeProducer)
    (hstep : s.consumerStep cfg = some s') : s'.producer = s.producer ∧ s'.closed = s.closed ∧
      s'.pushed = s.pushed ∧ s'.writeOffset = s.writeOffset := by
  have hout : ∀ idx, (s.handOut cfg idx).producer = s.producer ∧
      (s.handOut cfg idx).closed = s.closed ∧ (s.handOut cfg idx).pushed = s.pushed ∧
      (s.handOut cfg idx).writeOffset = s.writeOffset := by
    intro idx
    rw [State.handOut]
    split <;> exact ⟨rfl, rfl, rfl, rfl⟩
  simp only [State.consumerStep] at hstep
  split at hstep
  case h_8 hpc => exact absurd hpc h
  case h_1 | h_4 | h_6 => cases hstep
  case h_2 k hpc =>
    split at hstep
    · cases hstep
      exact hout _
    · cases k <;> cases hstep <;> exact ⟨rfl, rfl, rfl, rfl⟩
  case h_3 idx hpc =>
    split_ifs at hstep <;> cases hstep
    · exact ⟨rfl, rfl, rfl, rfl⟩
    · exact ⟨rfl, rfl, rfl, rfl⟩
    · exact hout _
  case h_5 idx n hpc =>
    split_ifs at hstep <;> cases hstep
    · exact ⟨rfl, rfl, rfl, rfl⟩
    · exact hout _
  case h_7 idx hpc =>
    cases hstep
    exact ⟨rfl, rfl, rfl, rfl⟩
  case h_9 idx hpc =>
    cases hstep
    exact ⟨rfl, rfl, rfl, rfl⟩

/-- The mark stays and nothing is pushed after it. -/
theorem Inv.marked_step (h : Inv cfg s) (hm : s.marked = true) {act : Act V}
    (hstep : SpscBounded.step cfg s act = some s') :
    s'.marked = true ∧ s'.pushed = s.pushed ∧ s'.writeOffset = s.writeOffset := by
  obtain ⟨hclosed, hpc⟩ := h.marked_producer hm
  have hcall : ∀ pc b, s.call pc b = some s' → pc.beforeMark = false →
      s'.marked = true ∧ s'.pushed = s.pushed ∧ s'.writeOffset = s.writeOffset := by
    intro pc b hcall hmark
    simp only [State.call] at hcall
    split at hcall
    · split at hcall <;> cases hcall
      exact ⟨by simp [State.marked, State.setProducer, hclosed, hmark], rfl, rfl⟩
    · cases hcall
  cases act with
  | push v | tryPush v | pushBulk vs | close => exact hcall _ _ hstep rfl
  | producer spurious =>
    have hp := h.producer
    rcases hpc with hpc | hpc | hpc | hpc
    · simp [SpscBounded.step, State.producerStep, hpc] at hstep
    · simp only [SpscBounded.step, State.producerStep, hpc, if_pos hclosed, Option.some.injEq] at hstep
      rw [← hstep]
      exact ⟨by simp [State.marked, State.setProducer, hclosed, ProducerPc.beforeMark], rfl, rfl⟩
    · rw [State.producerOk, hpc] at hp
      simp only [SpscBounded.step, State.producerStep, hpc, hp.2, Option.some.injEq] at hstep
      rw [← hstep]
      exact ⟨by simp [State.marked, State.setProducer, State.setConsumer, hclosed,
        ProducerPc.beforeMark], rfl, rfl⟩
    · rw [State.producerOk, hpc] at hp
      simp only [SpscBounded.step, State.producerStep, hpc, State.resumeConsumer, hp.2,
        Option.some.injEq] at hstep
      rw [← hstep]
      exact ⟨by simp [State.marked, State.setProducer, State.setConsumer, hclosed,
        ProducerPc.beforeMark], rfl, rfl⟩
  | consumer =>
    have hres : s.consumer ≠ .resumeProducer := by
      intro hres
      have hc := h.consumer
      rw [State.consumerOk, hres] at hc
      rcases hpc with hpc | hpc | hpc | hpc <;> rw [hpc] at hc <;> cases hc
    obtain ⟨hp, hcl, hpushed, hw⟩ := State.consumerStep_frame hres hstep
    exact ⟨by rw [State.marked, hp, hcl]; exact hm, hpushed, hw⟩
  | pull k =>
    simp only [SpscBounded.step] at hstep
    split at hstep
    · split at hstep <;> cases hstep
      exact ⟨hm, rfl, rfl⟩
    · cases hstep
  | release =>
    simp only [SpscBounded.step, State.release] at hstep
    split at hstep <;> cases hstep
    exact ⟨hm, rfl, rfl⟩

/-- What a resumed consumer that finds no element knows, and what is known once
a pull has reported the close. -/
structure Reported (s : State V) : Prop where
  told : ∀ idx, s.consumer = .resumed idx true → s.marked = true ∧ s.readOffset = s.writeOffset
  drained : ∀ l r, s.pulls = l ++ .closed :: r → s.marked = true ∧ handed l = s.pushed

/-- The flags of an element that show the close are past the last value. -/
theorem Inv.closed_flags (h : Inv cfg s) (hb : Straight cfg s)
    (hshown : s.consumer.shown = (0, false, false, false))
    (hf : (s.elem cfg s.readOffset).flags = .closed) :
    s.marked = true ∧ s.readOffset = s.writeOffset := by
  have heq : s.readOffset = s.writeOffset := by
    refine Nat.le_antisymm h.le (Nat.le_of_not_lt fun hlt => ?_)
    rw [h.freed_flags hb hlt] at hf
    split_ifs at hf
  refine ⟨?_, heq⟩
  rw [h.empty_flags hb hshown heq] at hf
  by_contra hm
  rw [if_neg hm] at hf
  cases hf

/-- What a step adds to the pulls. -/
inductive Pulled (s s' : State V) : Prop
  | same (h : s'.pulls = s.pulls)
  | other (r : Pull V) (h : s'.pulls = s.pulls ++ [r]) (hr : r ≠ .closed)
  | closed (h : s'.pulls = s.pulls ++ [.closed]) (hm : s.marked = true)
    (hr : s.readOffset = s.writeOffset) (htaken : s.consumer.taken = 0)

theorem State.producerStep_pulls {spurious : Bool}
    (hstep : s.producerStep cfg spurious = some s') : s'.pulls = s.pulls := by
  have hres : s.resumeConsumer.pulls = s.pulls := by
    rw [State.resumeConsumer]
    split <;> rfl
  cases hpc : s.producer with
  | publish v idx | bulkPublish vs idx =>
    simp only [State.producerStep, hpc, Option.some.injEq] at hstep
    obtain ⟨pc, b, -, heq⟩ := s.publish_spec cfg idx _
    rw [← hstep, heq]
    rfl
  | resumeConsumer | closeResume =>
    simp only [State.producerStep, hpc, Option.some.injEq] at hstep
    rw [← hstep]
    exact hres
  | _ =>
    simp only [State.producerStep, hpc] at hstep
    try split at hstep
    all_goals try split at hstep
    all_goals
      cases hstep
      try rfl

theorem Pulled.handOut (idx : Nat) : Pulled s (s.handOut cfg idx) := by
  rw [State.handOut]
  split
  · next v hv => exact .other (.ok v) rfl (by simp)
  · exact .same rfl

theorem Inv.consumerStep_pulls (h : Inv cfg s) (hb : Straight cfg s) (ht : Reported s)
    (hstep : s.consumerStep cfg = some s') : Pulled s s' := by
  cases hpc : s.consumer with
  | idle | suspended idx n | holding idx => simp [State.consumerStep, hpc] at hstep
  | poll k =>
    have hshown : s.consumer.shown = (0, false, false, false) := by rw [hpc]; rfl
    simp only [State.consumerStep, hpc] at hstep
    split at hstep
    · cases hstep
      exact .handOut _
    · cases k with
      | pull =>
        cases hstep
        exact .same rfl
      | tryPull =>
        cases hstep
        split_ifs with hf
        · obtain ⟨hm, hr⟩ := h.closed_flags hb hshown hf
          exact .closed rfl hm hr (by rw [hpc]; rfl)
        · exact .other .empty rfl (by simp)
  | tryWait idx =>
    have hc := h.consumer
    rw [State.consumerOk, hpc] at hc
    obtain ⟨rfl, -⟩ := hc
    have hshown : s.consumer.shown = (0, false, false, false) := by rw [hpc]; rfl
    simp only [State.consumerStep, hpc] at hstep
    split_ifs at hstep with hnull hf <;> cases hstep
    · exact .same rfl
    · obtain ⟨hm, hr⟩ := h.closed_flags hb hshown hf
      exact .closed rfl hm hr (by rw [hpc]; rfl)
    · exact .handOut _
  | resumed idx n =>
    simp only [State.consumerStep, hpc] at hstep
    split_ifs at hstep with hn <;> cases hstep
    · obtain ⟨hm, hr⟩ := ht.told idx (by rw [hpc, hn])
      exact .closed rfl hm hr (by rw [hpc]; rfl)
    · exact .handOut _
  | freeSlot idx | storeClosed idx =>
    simp only [State.consumerStep, hpc, Option.some.injEq] at hstep
    rw [← hstep]
    exact .same rfl
  | resumeProducer =>
    simp only [State.consumerStep, hpc, Option.some.injEq] at hstep
    rw [← hstep, State.resumeProducer]
    split <;> exact .same rfl

theorem Inv.step_pulls (h : Inv cfg s) (hb : Straight cfg s) (ht : Reported s) {act : Act V}
    (hstep : SpscBounded.step cfg s act = some s') : Pulled s s' := by
  cases act with
  | producer spurious => exact .same (State.producerStep_pulls hstep)
  | consumer => exact h.consumerStep_pulls hb ht hstep
  | push v | tryPush v | pushBulk vs | close =>
    simp only [SpscBounded.step, State.call] at hstep
    split at hstep
    · split at hstep <;> cases hstep
      exact .same rfl
    · cases hstep
  | pull k =>
    simp only [SpscBounded.step] at hstep
    split at hstep
    · split at hstep <;> cases hstep
      exact .same rfl
    · cases hstep
  | release =>
    simp only [SpscBounded.step, State.release] at hstep
    split at hstep <;> cases hstep
    exact .same rfl

/-- What a list that has grown by one element splits into. -/
theorem split_concat {α : Type} {x y : α} {l r m : List α} (h : m ++ [y] = l ++ x :: r) :
    (l = m ∧ x = y) ∨ ∃ r', m = l ++ x :: r' := by
  rcases List.eq_nil_or_concat r with rfl | ⟨r', z, rfl⟩
  · obtain ⟨hl, hx⟩ := List.append_inj' h rfl
    cases hx
    exact .inl ⟨hl.symm, rfl⟩
  · rw [List.concat_eq_append, ← List.cons_append, ← List.append_assoc] at h
    exact .inr ⟨r', (List.append_inj' h rfl).1⟩

/-- A consumer that is told of the close is told by `close()`. -/
theorem Inv.told_step (h : Inv cfg s) {act : Act V}
    (hstep : SpscBounded.step cfg s act = some s') {idx : Nat}
    (hc' : s'.consumer = .resumed idx true) :
    s'.readOffset = s.readOffset ∧ (s.consumer = .resumed idx true ∨ s.producer = .closeResume) := by
  cases act with
  | producer spurious =>
    have hp := h.producer
    cases hpc : s.producer with
    | publish v n | bulkPublish vs n =>
      simp only [SpscBounded.step, State.producerStep, hpc, Option.some.injEq] at hstep
      obtain ⟨pc, b, -, heq⟩ := s.publish_spec cfg n _
      rw [← hstep, heq] at hc' ⊢
      exact ⟨rfl, .inl hc'⟩
    | resumeConsumer =>
      rw [State.producerOk, hpc] at hp
      simp only [SpscBounded.step, State.producerStep, hpc, State.resumeConsumer, hp.2.2,
        Option.some.injEq] at hstep
      rw [← hstep] at hc'
      cases hc'
    | closeElemNull =>
      rw [State.producerOk, hpc] at hp
      simp only [SpscBounded.step, State.producerStep, hpc, hp.2, Option.some.injEq] at hstep
      rw [← hstep] at hc'
      cases hc'
    | closeResume =>
      rw [State.producerOk, hpc] at hp
      simp only [SpscBounded.step, State.producerStep, hpc, State.resumeConsumer, hp.2,
        Option.some.injEq] at hstep
      rw [← hstep]
      exact ⟨rfl, .inr rfl⟩
    | _ =>
      simp only [SpscBounded.step, State.producerStep, hpc] at hstep
      try split at hstep
      all_goals
        cases hstep
        try exact ⟨rfl, .inl hc'⟩
  | consumer =>
    simp only [SpscBounded.step, State.consumerStep] at hstep
    have hout : ∀ n, (s.handOut cfg n).consumer ≠ .resumed idx true := by
      intro n
      rw [State.handOut]
      split <;> simp [State.check]
    split at hstep
    case h_1 | h_4 | h_6 => cases hstep
    case h_2 k hpc =>
      split at hstep
      · cases hstep
        exact absurd hc' (hout _)
      · cases k <;> cases hstep <;> cases hc'
    case h_3 n hpc =>
      split_ifs at hstep <;> cases hstep
      · cases hc'
      · cases hc'
      · exact absurd hc' (hout _)
    case h_5 n b hpc =>
      split_ifs at hstep <;> cases hstep
      · cases hc'
      · exact absurd hc' (hout _)
    case h_7 n hpc =>
      cases hstep
      simp only [State.setConsumer] at hc'
      split_ifs at hc'
    case h_8 hpc =>
      cases hstep
      cases hc'
    case h_9 n hpc =>
      cases hstep
      cases hc'
  | push v | tryPush v | pushBulk vs | close =>
    simp only [SpscBounded.step, State.call] at hstep
    split at hstep
    · split at hstep <;> cases hstep
      exact ⟨rfl, .inl hc'⟩
    · cases hstep
  | pull k =>
    simp only [SpscBounded.step] at hstep
    split at hstep
    · split at hstep <;> cases hstep
      cases hc'
    · cases hstep
  | release =>
    simp only [SpscBounded.step, State.release] at hstep
    split at hstep <;> cases hstep
    cases hc'

theorem Reported.step (h : Inv cfg s) (hb : Straight cfg s) (ht : Reported s) {act : Act V}
    (hstep : SpscBounded.step cfg s act = some s') : Reported s' := by
  constructor
  · intro idx hc'
    obtain ⟨hr, hc | hpc⟩ := h.told_step hstep hc'
    · obtain ⟨hm, heq⟩ := ht.told idx hc
      obtain ⟨hm', -, hw⟩ := h.marked_step hm hstep
      exact ⟨hm', by rw [hr, hw, heq]⟩
    · -- the consumer it resumes was suspended on the slot of the cutoff
      have hp := h.producer
      rw [State.producerOk, hpc] at hp
      have hm : s.marked = true := by simp [State.marked, hp.1, hpc, ProducerPc.beforeMark]
      have hc := h.consumer
      rw [State.consumerOk, hp.2, hpc] at hc
      have heq : s.readOffset = s.writeOffset := by
        refine Nat.le_antisymm h.le (Nat.le_of_not_lt fun hlt => ?_)
        cases hc.2.2.1 hlt
      obtain ⟨hm', -, hw⟩ := h.marked_step hm hstep
      exact ⟨hm', by rw [hr, hw, heq]⟩
  · intro l r hl
    have hold : ∀ r', s.pulls = l ++ .closed :: r' → s'.marked = true ∧ handed l = s'.pushed := by
      intro r' hl'
      obtain ⟨hm, hh⟩ := ht.drained l r' hl'
      obtain ⟨hm', hpushed, -⟩ := h.marked_step hm hstep
      exact ⟨hm', by rw [hpushed, hh]⟩
    cases h.step_pulls hb ht hstep with
    | same heq => exact hold r (heq.symm.trans hl)
    | other x heq hx =>
      rcases split_concat (heq.symm.trans hl) with ⟨-, hx'⟩ | ⟨r', hl'⟩
      · exact absurd hx'.symm hx
      · exact hold r' hl'
    | closed heq hm hr htaken =>
      rcases split_concat (heq.symm.trans hl) with ⟨rfl, -⟩ | ⟨r', hl'⟩
      · obtain ⟨hm', hpushed, -⟩ := h.marked_step hm hstep
        refine ⟨hm', ?_⟩
        rw [h.handed, htaken, hpushed, hr, Nat.add_zero, ← h.pushed, List.take_length]
      · exact hold r' hl'

theorem reported (h : (system V cfg).Reachable s) (hb : Straight cfg s) : Reported s := by
  have hrun : Inv cfg s ∧ Reported s := by
    refine invariant_of_straight (I := fun s => Inv cfg s ∧ Reported s) ⟨.init, ?_⟩ ?_ h hb
    · constructor
      · intro idx hc
        cases hc
      · intro l r hl
        cases l <;> cases hl
    · rintro s act s' ⟨hi, ht⟩ hb hs
      exact ⟨hi.step hb hs, Reported.step hi hb ht hs⟩
  exact hrun.2

/-- Every value has been released and `close()` has put its mark. -/
def State.finished (s : State V) : Prop :=
  s.marked = true ∧ s.fifo.released = s.pushed.length

/-- What `close()` promises whatever the fill level. -/
structure CloseSpec (cfg : Config) (s : State V) : Prop where
  /-- Every value is handed out before the first pull that reports the close. -/
  drained : ∀ l r, s.pulls = l ++ .closed :: r → handed l = s.pushed
  /-- Until then a pull hands out the next value. -/
  delivers : ∀ k, s.consumer = .poll k → s.readOffset < s.writeOffset → ∃ v,
    s.pushed[s.readOffset]? = some v ∧ step cfg s .consumer =
      some { s with consumer := .holding s.readOffset, pulls := s.pulls ++ [.ok v] }
  /-- Then every call reports the close without suspending. -/
  reports : s.finished → (s.consumer = .poll .tryPull → step cfg s .consumer =
      some (s.returnPull .closed)) ∧
    (s.consumer = .poll .pull → step cfg s .consumer =
      some (s.setConsumer (.tryWait s.readOffset))) ∧
    ∀ idx, s.consumer = .tryWait idx → step cfg s .consumer = some (s.returnPull .closed)
  lasts : ∀ act s', s.finished → step cfg s act = some s' → s'.finished
  /-- A consumer that is suspended when the mark is there waits on the cutoff
  slot, and the `close()` that put it there is about to resume it. -/
  wakes : s.marked = true → s.consumer.waiting = true → s.readOffset = s.writeOffset ∧
    (s.producer = .closeElemNull ∧ s.consumer = .suspended s.readOffset false ∧
      (∀ b, step cfg s (.producer b) = some
        { s with producer := .closeResume, consumer := .suspended s.readOffset true }) ∨
    s.producer = .closeResume ∧ s.consumer = .suspended s.readOffset true ∧
      ∀ b, step cfg s (.producer b) = some
        { s with producer := .idle, consumer := .resumed s.readOffset true })
  told : ∀ idx, s.consumer = .resumed idx true → step cfg s .consumer =
    some (s.returnPull .closed)
  /-- Another `close()` changes nothing. -/
  again : s.closed = true → s.producer = .closeCas → ∀ b, step cfg s (.producer b) =
    some (s.setProducer .idle)
  unbroken : s.broken = false

/-- All values are released when the slot of the last one is free or is being
freed. -/
theorem Inv.finished_at (h : Inv cfg s) (hf : s.fifo.released = s.pushed.length)
    (htaken : s.consumer.taken = 0) : s.readOffset = s.writeOffset := by
  have hlen := h.handed_length
  have hrel : s.fifo.released = (SpscBounded.handed s.pulls).length - s.consumer.lent := rfl
  have hpushed := h.pushed
  have hle := h.le
  omega

theorem Inv.marked_flags (h : Inv cfg s) (hb : Straight cfg s) (hm : s.marked = true)
    (hshown : s.consumer.shown = (0, false, false, false)) (heq : s.readOffset = s.writeOffset) :
    (s.elem cfg s.readOffset).flags = .closed := by
  rw [h.empty_flags hb hshown heq, if_pos hm]

theorem Inv.delivers (h : Inv cfg s) (hb : Straight cfg s) {k : Call} (hpc : s.consumer = .poll k)
    (hlt : s.readOffset < s.writeOffset) : ∃ v, s.pushed[s.readOffset]? = some v ∧
      SpscBounded.step cfg s .consumer =
        some { s with consumer := .holding s.readOffset, pulls := s.pulls ++ [.ok v] } := by
  obtain ⟨v, hv, heq, -⟩ := h.handOut hb (by rw [hpc]; rfl) (by simp [hpc]) hlt
  refine ⟨v, hv, ?_⟩
  have hf : (s.elem cfg s.readOffset).flags.dataWaiting = true := by
    rw [h.freed_flags hb hlt]
    split_ifs <;> rfl
  simp only [SpscBounded.step, State.consumerStep, hpc, hf, if_true, heq]

theorem Inv.reports (h : Inv cfg s) (hb : Straight cfg s) (hf : s.finished) :
    (s.consumer = .poll .tryPull → SpscBounded.step cfg s .consumer =
      some (s.returnPull .closed)) ∧
    (s.consumer = .poll .pull → SpscBounded.step cfg s .consumer =
      some (s.setConsumer (.tryWait s.readOffset))) ∧
    ∀ idx, s.consumer = .tryWait idx → SpscBounded.step cfg s .consumer =
      some (s.returnPull .closed) := by
  obtain ⟨hm, hrel⟩ := hf
  have hflags : s.consumer.shown = (0, false, false, false) →
      (s.elem cfg s.readOffset).flags = .closed := fun hshown =>
    h.marked_flags hb hm hshown (h.finished_at hrel (congrArg Prod.fst hshown))
  refine ⟨fun hpc => ?_, fun hpc => ?_, fun idx hpc => ?_⟩
  · have hc := hflags (by rw [hpc]; rfl)
    simp [SpscBounded.step, State.consumerStep, hpc, hc, Flags.dataWaiting, Flags.dataBit,
      Flags.isPointer]
  · have hc := hflags (by rw [hpc]; rfl)
    simp [SpscBounded.step, State.consumerStep, hpc, hc, Flags.dataWaiting, Flags.dataBit,
      Flags.isPointer]
  · have hi := h.consumer
    rw [State.consumerOk, hpc] at hi
    obtain ⟨rfl, -⟩ := hi
    have hc := hflags (by rw [hpc]; rfl)
    simp [SpscBounded.step, State.consumerStep, hpc, hc]

/-- The values that have been released stay so. -/
theorem Inv.released_mono (h : Inv cfg s) (hb : Straight cfg s) {act : Act V}
    (hstep : SpscBounded.step cfg s act = some s') : s.fifo.released ≤ s'.fifo.released := by
  rcases h.fifo_step hb hstep with heq | ⟨op, hop⟩
  · rw [heq]
  · cases op with
    | push vs =>
      simp only [Fifo.step] at hop
      split_ifs at hop
      exact (congrArg Fifo.released (Option.some.inj hop)).le
    | pull =>
      simp only [Fifo.step] at hop
      split_ifs at hop
      obtain ⟨v, -, hv⟩ := Option.map_eq_some_iff.mp hop
      exact (congrArg Fifo.released hv).le
    | release =>
      simp only [Fifo.step] at hop
      split_ifs at hop
      exact Nat.le_of_succ_le (congrArg Fifo.released (Option.some.inj hop)).le

theorem Inv.finished_step (h : Inv cfg s) (hb : Straight cfg s) (hf : s.finished) {act : Act V}
    (hstep : SpscBounded.step cfg s act = some s') : s'.finished := by
  obtain ⟨hm, hrel⟩ := hf
  obtain ⟨hm', hpushed, -⟩ := h.marked_step hm hstep
  have hmono := h.released_mono hb hstep
  have hi := h.step hb hstep
  refine ⟨hm', Nat.le_antisymm ?_ ?_⟩
  · have hlen : (SpscBounded.handed s'.pulls).length ≤ s'.pushed.length := by
      rw [hi.handed]
      exact List.length_take_le' _ _
    exact Nat.le_trans (Nat.sub_le _ _) hlen
  · rw [hpushed]
    omega

theorem Inv.close_wakes (h : Inv cfg s) (hm : s.marked = true) (hw : s.consumer.waiting = true) :
    s.readOffset = s.writeOffset ∧
    (s.producer = .closeElemNull ∧ s.consumer = .suspended s.readOffset false ∧
      (∀ b, SpscBounded.step cfg s (.producer b) = some
        { s with producer := .closeResume, consumer := .suspended s.readOffset true }) ∨
    s.producer = .closeResume ∧ s.consumer = .suspended s.readOffset true ∧
      ∀ b, SpscBounded.step cfg s (.producer b) = some
        { s with producer := .idle, consumer := .resumed s.readOffset true }) := by
  obtain ⟨n, hn, -⟩ := h.waiting hw
  have hc := h.consumer
  rw [State.consumerOk, hn] at hc
  obtain ⟨-, -, hlt, hmark, -⟩ := hc
  have hp := h.producer
  refine ⟨Nat.le_antisymm h.le (Nat.le_of_not_lt fun hl => ?_), ?_⟩
  · rcases hmark hm with hpc | hpc <;> cases hpc.symm.trans (hlt hl)
  · rcases hmark hm with hpc | hpc
    · rw [State.producerOk, hpc] at hp
      refine .inl ⟨hpc, hp.2, fun b => ?_⟩
      simp only [SpscBounded.step, State.producerStep, hpc, hp.2]
      rfl
    · rw [State.producerOk, hpc] at hp
      refine .inr ⟨hpc, hp.2, fun b => ?_⟩
      simp only [SpscBounded.step, State.producerStep, hpc, State.resumeConsumer, hp.2]
      rfl

/-- `close()` works at every fill level while the slots are selected right. -/
theorem close_at_any_level (h : (system V cfg).Reachable s) (hlap : Unwrapped cfg s) :
    CloseSpec cfg s := by
  have hb := hlap.straight
  have hi := inv h hb
  exact
    { drained := fun l r hl => ((reported h hb).drained l r hl).2
      delivers := fun _ hpc hlt => hi.delivers hb hpc hlt
      reports := hi.reports hb
      lasts := fun _ _ hf hs => hi.finished_step hb hf hs
      wakes := hi.close_wakes
      told := fun idx hpc => by simp [step, State.consumerStep, hpc]
      again := fun hclosed hpc b => by simp [step, State.producerStep, hpc, hclosed]
      unbroken := hi.unbroken }

/-- A full queue of two slots is closed, then drained. -/
def closeFull : List (Act Nat) :=
  .push 7 :: List.replicate 3 (.producer false) ++ .push 8 :: List.replicate 3 (.producer false) ++
    .close :: List.replicate 4 (.producer false) ++
    [.pull .pull, .consumer, .release, .consumer, .consumer, .pull .pull, .consumer, .release,
      .consumer, .pull .pull, .consumer, .consumer]

theorem close_at_any_level_closeFull : ∃ s,
    closeFull.foldlM (step ⟨64, 2, true, by decide, by decide⟩) .init = some s ∧
      s.finished ∧ CloseSpec ⟨64, 2, true, by decide, by decide⟩ s :=
  ⟨_, rfl, ⟨rfl, rfl⟩, close_at_any_level (System.ofStep_reachable closeFull rfl) (.inl (by decide))⟩

section PastEnd

theorem threePolled_fits : 3 < 2 ^ (32 - 1) := by decide

/-- Three slots, 32-bit offsets and a consumer that does not suspend. -/
def threePolled : Config := ⟨32, 3, false, Nat.succ_pos 2, threePolled_fits⟩

/-- The elements of three slots. -/
def threeElements (e₀ e₁ e₂ : Element Nat) (k : Nat) : Element Nat :=
  if k = 0 then e₀ else if k = 1 then e₁ else if k = 2 then e₂ else ⟨.null, none⟩

variable (e₀ e₁ e₂ e : Element Nat)

@[simp] theorem threeElements_zero : threeElements e₀ e₁ e₂ 0 = e₀ := rfl

@[simp] theorem threeElements_one : threeElements e₀ e₁ e₂ 1 = e₁ := rfl

@[simp] theorem threeElements_two : threeElements e₀ e₁ e₂ 2 = e₂ := rfl

@[simp] theorem update_threeElements_zero :
    Function.update (threeElements e₀ e₁ e₂) 0 e = threeElements e e₁ e₂ := by
  funext k
  rw [Function.update_apply, threeElements, threeElements]
  split_ifs <;> rfl

@[simp] theorem update_threeElements_one :
    Function.update (threeElements e₀ e₁ e₂) 1 e = threeElements e₀ e e₂ := by
  funext k
  rw [Function.update_apply, threeElements, threeElements]
  split_ifs <;> first | rfl | omega

@[simp] theorem update_threeElements_two :
    Function.update (threeElements e₀ e₁ e₂) 2 e = threeElements e₀ e₁ e := by
  funext k
  rw [Function.update_apply, threeElements, threeElements]
  split_ifs <;> first | rfl | omega

theorem threePolled_slotOf : threePolled.slotOf 4294967295 = 0 ∧ threePolled.slotOf 4294967296 = 0 ∧
    threePolled.slotOf 4294967297 = 1 ∧ threePolled.slotOf 4294967298 = 2 ∧
    threePolled.slotOf 4294967299 = 0 := by decide

theorem threePolled_capacity : threePolled.capacity = 3 ∧ threePolled.consumerCanSuspend = false :=
  ⟨rfl, rfl⟩

variable (vs : List Nat) (rs : List (Pull Nat))

/-- The first two values of a bulk push that crosses the end of the range share a
slot.  Without `NDEBUG` the assertion of `emplace` stops the run here. -/
theorem bulkPastEnd_run :
    (Act.pushBulk [1, 2, 3] :: List.replicate 7 (Act.producer false)).foldlM (step threePolled)
      { State.init with
        writeOffset := 4294967295
        readOffset := 4294967295
        elements := threeElements ⟨.null, none⟩ ⟨.null, none⟩ ⟨.null, none⟩
        pushed := vs
        pulls := rs } =
    some { State.init with
      writeOffset := 4294967298
      readOffset := 4294967295
      elements := threeElements ⟨.data, some 2⟩ ⟨.data, some 3⟩ ⟨.null, none⟩
      pushed := vs ++ [1, 2, 3]
      pulls := rs
      broken := true } := by
  simp [List.replicate, step, State.call, State.init, State.setProducer, State.producerStep,
    State.elem, State.construct, State.check, State.setData, State.publish, State.setFlags,
    State.nextItem, threePolled_slotOf, threePolled_capacity]

/-- The mark of `close()` goes to the same slot. -/
theorem closePastEnd_run :
    (Act.push 4 :: List.replicate 3 (Act.producer false) ++
      Act.close :: List.replicate 4 (Act.producer false)).foldlM (step threePolled)
      { State.init with
        writeOffset := 4294967298
        readOffset := 4294967295
        elements := threeElements ⟨.data, some 2⟩ ⟨.data, some 3⟩ ⟨.null, none⟩
        pushed := vs
        pulls := rs
        broken := true } =
    some { State.init with
      writeOffset := 4294967299
      readOffset := 4294967295
      elements := threeElements ⟨.dataClosed, some 2⟩ ⟨.data, some 3⟩ ⟨.data, some 4⟩
      closed := true
      writeClosedAt := 4294967299
      pushed := vs ++ [4]
      pulls := rs
      broken := true } := by
  simp [List.replicate, step, State.call, State.init, State.setProducer, State.producerStep,
    State.elem, State.construct, State.check, State.setData, State.publish, State.setFlags,
    threePolled_slotOf, threePolled_capacity, Flags.isPointer]

/-- The consumer finds it there after one value. -/
theorem drainPastEnd_run :
    [Act.pull .tryPull, .consumer, .release, .consumer].foldlM (step threePolled)
      { State.init with
        writeOffset := 4294967299
        readOffset := 4294967295
        elements := threeElements ⟨.dataClosed, some 2⟩ ⟨.data, some 3⟩ ⟨.data, some 4⟩
        closed := true
        writeClosedAt := 4294967299
        pushed := vs
        pulls := rs
        broken := true } =
    some { State.init with
      writeOffset := 4294967299
      readOffset := 4294967296
      elements := threeElements ⟨.null, none⟩ ⟨.data, some 3⟩ ⟨.data, some 4⟩
      closed := true
      writeClosedAt := 4294967299
      consumer := .storeClosed 4294967295
      pushed := vs
      pulls := rs ++ [.ok 2]
      broken := true } := by
  simp [step, State.init, State.setConsumer, State.consumerStep, State.elem, State.check,
    State.setData, State.setFlags, State.release, State.handOut, threePolled_slotOf,
    Flags.isPointer, Flags.dataWaiting, Flags.dataBit, Flags.closedBit]

theorem reportPastEnd_run :
    [Act.consumer, .pull .tryPull, .consumer].foldlM (step threePolled)
      { State.init with
        writeOffset := 4294967299
        readOffset := 4294967296
        elements := threeElements ⟨.null, none⟩ ⟨.data, some 3⟩ ⟨.data, some 4⟩
        closed := true
        writeClosedAt := 4294967299
        consumer := .storeClosed 4294967295
        pushed := vs
        pulls := rs
        broken := true } =
    some { State.init with
      writeOffset := 4294967299
      readOffset := 4294967296
      elements := threeElements ⟨.closed, none⟩ ⟨.data, some 3⟩ ⟨.data, some 4⟩
      closed := true
      writeClosedAt := 4294967299
      pushed := vs
      pulls := rs ++ [.closed]
      broken := true } := by
  simp [step, State.init, State.setConsumer, State.consumerStep, State.elem, State.setFlags,
    State.returnPull, threePolled_slotOf, Flags.isPointer, Flags.dataWaiting, Flags.dataBit]

end PastEnd

/-- Past the end of the range, with `NDEBUG`, the close is reported after one of four
values. -/
theorem closePastEnd_drops : ∃ s : State Nat, (system Nat threePolled).Reachable s ∧
    ∃ l, s.pulls = l ++ [.closed] ∧ (handed l).length + 3 = s.pushed.length := by
  obtain ⟨rs, hh, hr⟩ := reach_level threePolled 0 4294967295
  have hblank : (fun _ => ⟨.null, none⟩ : Nat → Element Nat) =
      threeElements ⟨.null, none⟩ ⟨.null, none⟩ ⟨.null, none⟩ := by
    funext k
    rw [threeElements]
    split_ifs <;> rfl
  have hlen : (List.replicate 4294967295 0).length = 4294967295 := List.length_replicate
  rw [State.level, hlen, hblank] at hr
  have hbulk := System.ofStep_run _ hr (bulkPastEnd_run _ _)
  have hclose := System.ofStep_run _ hbulk (closePastEnd_run _ _)
  have hdrain := System.ofStep_run _ hclose (drainPastEnd_run _ _)
  refine ⟨_, System.ofStep_run _ hdrain (reportPastEnd_run _ _), rs ++ [.ok 2], rfl, ?_⟩
  rw [handed_append, hh, List.length_append, List.length_append, List.length_append, hlen]
  rfl

end CoroUtil.SpscBounded
