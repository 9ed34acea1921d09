import CoroUtil.SpscBounded.Consumer
import CoroUtil.SpscBounded.Producer

/-!
# The invariant of every run

`inv`: the ring invariant holds wherever a run gets while no index of its calls
selects a slot that is not its own, `Straight`, which offsets that have not
wrapped are.
-/

namespace CoroUtil.SpscBounded

open CoroUtil.General

variable {V : Type} {cfg : Config} {s s' : State V}

theorem Inv.init : Inv cfg (State.init : State V) where
  pushed := rfl
  le := le_rfl
  full := Nat.zero_le _
  handed := rfl
  ring := by
    intro n _ _
    have hd : (State.init : State V).view.dataAt n = none :=
      (View.dataAt_eq (by simp [State.view, State.init, ConsumerPc.freeing])).trans rfl
    rw [View.cell, hd]
    refine congrArg (Element.mk · none) (Eq.symm ?_)
    rcases Nat.eq_zero_or_pos n with rfl | hn
    · rfl
    · exact View.flagsAt_null hn hn
  producer := trivial
  consumer := trivial
  unbroken := rfl

theorem Inv.step (h : Inv cfg s) (hb : Straight cfg s) {act : Act V}
    (hstep : SpscBounded.step cfg s act = some s') : Inv cfg s' := by
  cases act with
  | push v =>
    refine h.call hstep rfl fun hopen => ?_
    rw [Bool.not_eq_true'] at hopen
    exact hopen
  | tryPush v =>
    refine h.call hstep rfl fun hopen => ?_
    rw [Bool.not_eq_true'] at hopen
    exact hopen
  | pushBulk vs =>
    refine h.call hstep rfl fun hopen => ?_
    simp only [Bool.and_eq_true, Bool.not_eq_true', decide_eq_true_eq] at hopen
    exact hopen
  | close => exact h.call hstep rfl fun _ => trivial
  | producer spurious => exact h.producerStep hb hstep
  | pull k =>
    simp only [SpscBounded.step] at hstep
    split at hstep
    · next hpc =>
      split at hstep <;> cases hstep
      next hk =>
        refine h.quietConsumer (by rw [hpc]; rfl) (by rw [hpc]; rfl) (by simp [hpc]) fun hp => ?_
        simpa [hp] using hk
    · cases hstep
  | consumer => exact h.consumerStep hb hstep
  | release =>
    simp only [SpscBounded.step, State.release] at hstep
    split at hstep <;> cases hstep
    next idx hpc =>
      obtain ⟨hsome, hi⟩ := h.release hb hpc
      have hcheck : s.check true = s := by simp [State.check]
      rw [hsome, hcheck]
      exact hi

/-- A call goes on from where the last one ended. -/
def Started (s : State V) : Prop := ∀ i, s.producer.start = some i → i = s.writeOffset

theorem State.publish_spec (cfg : Config) (s : State V) (idx : Nat) (vs : List V) : ∃ pc b,
    (pc = .idle ∨ pc = .resumeConsumer) ∧
      s.publish cfg idx vs = { s.setFlags cfg idx .data with
        writeOffset := idx + vs.length
        pushed := s.pushed ++ vs
        producer := pc
        broken := b } := by
  rw [State.publish]
  split_ifs
  · split
    · exact ⟨.idle, _, .inl rfl, rfl⟩
    · exact ⟨.resumeConsumer, _, .inr rfl, rfl⟩
    · exact ⟨.idle, _, .inl rfl, rfl⟩
  · exact ⟨.idle, _, .inl rfl, rfl⟩

theorem Started.publish (h : Started s) {idx : Nat} (hidx : s.producer.start = some idx)
    {vs : List V} (hcount : s.producer.count = vs.length) :
    Started (s.publish cfg idx vs) ∧ s.writeOffset + s.producer.count ≤
      (s.publish cfg idx vs).writeOffset + (s.publish cfg idx vs).producer.count := by
  obtain ⟨pc, b, hpc, heq⟩ := s.publish_spec cfg idx vs
  rw [heq, h idx hidx, hcount]
  refine ⟨fun i hi => ?_, Nat.le_add_right ..⟩
  rcases hpc with rfl | rfl <;> cases hi

theorem State.producerStep_started (h : Started s) {spurious : Bool}
    (hstep : s.producerStep cfg spurious = some s') :
    Started s' ∧ s.writeOffset + s.producer.count ≤ s'.writeOffset + s'.producer.count := by
  cases hpc : s.producer with
  | publish v idx =>
    simp only [State.producerStep, hpc, Option.some.injEq] at hstep
    rw [← hstep, ← hpc]
    exact h.publish (by rw [hpc]; rfl) (by rw [hpc]; rfl)
  | bulkPublish vs idx =>
    simp only [State.producerStep, hpc, Option.some.injEq] at hstep
    rw [← hstep, ← hpc]
    exact h.publish (by rw [hpc]; rfl) (by rw [hpc]; rfl)
  | _ =>
    rw [Started] at h ⊢
    simp only [State.producerStep, hpc] at hstep
    grind [State.setProducer, State.setFlags, State.setData, State.check, State.construct,
      State.notParked, State.nextItem, State.resumeConsumer, State.setConsumer,
      ProducerPc.start.eq_def, ProducerPc.count.eq_def]

theorem State.consumerStep_started (h : Started s)
    (hstep : s.consumerStep cfg = some s') :
    Started s' ∧ s.writeOffset + s.producer.count ≤ s'.writeOffset + s'.producer.count := by
  rw [Started] at h ⊢
  simp only [State.consumerStep] at hstep
  split at hstep <;> grind [State.setProducer, State.setFlags, State.setData, State.check,
    State.handOut, State.returnPull, State.resumeProducer, State.setConsumer,
    ProducerPc.start.eq_def, ProducerPc.count.eq_def]

theorem Started.step (h : Started s) {act : Act V}
    (hstep : SpscBounded.step cfg s act = some s') :
    Started s' ∧ s.writeOffset + s.producer.count ≤ s'.writeOffset + s'.producer.count := by
  cases act with
  | producer spurious => exact State.producerStep_started h hstep
  | consumer => exact State.consumerStep_started h hstep
  | push v | tryPush v | pushBulk vs | close | pull k | release =>
    rw [Started] at h ⊢
    simp only [SpscBounded.step, State.call, State.release] at hstep
    grind [State.setProducer, State.setConsumer, State.setData, State.check,
      ProducerPc.start.eq_def, ProducerPc.count.eq_def]

theorem started (h : (system V cfg).Reachable s) : Started s := by
  refine System.Reach.invariant ?_ (fun _ _ _ hi _ hs => (hi.step hs).1) h
  rintro s rfl i hi
  cases hi

theorem straight_of_lt (hb : s.writeOffset + s.producer.count < 2 ^ cfg.bits) :
    Straight cfg s := by
  intro n hn
  rw [Config.slotOf, word_of_lt (hn.trans_lt hb)]

/-- What the steps keep while the slots are selected right. -/
theorem invariant_of_straight {I : State V → Prop} (hinit : I .init)
    (hstep : ∀ s act s', I s → Straight cfg s → step cfg s act = some s' → I s')
    (h : (system V cfg).Reachable s) (hb : Straight cfg s) : I s := by
  refine System.Reach.invariant_under (B := Straight cfg) (fun s act s' hr hs hb => ?_) ?_
    (fun _ _ _ hi hb _ _ hs => hstep _ _ _ hi hb hs) h hb
  · exact fun n hn => hb n (hn.trans ((started hr).step hs).2)
  · rintro s rfl
    exact hinit

theorem inv (h : (system V cfg).Reachable s) (hb : Straight cfg s) : Inv cfg s :=
  invariant_of_straight .init (fun _ _ _ hi hb hs => hi.step hb hs) h hb

end CoroUtil.SpscBounded
