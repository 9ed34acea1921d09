import CoroUtil.MpscBounded.Consumer

/-!
# The queue refines its slot protocol

Every step of the queue is a move of the protocol, with the closed test of the
code, or leaves its state alone, so what these moves keep holds of every run:
`slotted`.  A move is that of the protocol where the comparison that the step makes
comes out right, `State.compares`: where the two offsets are less than half the word
range apart.  `InRange` is a bound on the whole queue under which they all do; offsets
are only compared once the queue is closed.
-/

namespace CoroUtil.MpscBounded

open CoroUtil.General

variable {V : Type} {cfg : Config} {s s' : State V} {a a' : Abs V}

/-- The bound under which `circular_less_than` is the order of the offsets. -/
def InRange (cfg : Config) (s : State V) : Prop :=
  s.closed = true → s.writeOffset < 2 ^ (cfg.bits - 1)

/-- The offsets that the step compares, if it compares two, come out in their order. -/
def State.compares (cfg : Config) (s : State V) : Act V → Bool
  | .task p _ =>
    match s.task p with
    | .loadClosedAt _ idx => cfg.ordered idx s.writeClosedAt
    | .loadWaitIdx cutoff _ => cfg.ordered (s.elem cfg cutoff).waitingConsumerIdx cutoff
    | _ => true
  | .consumer _ =>
    match s.consumer with
    | .loadClosedAt _ idx _ | .sentinelClosedAt idx => cfg.ordered idx s.writeClosedAt
    | _ => true
  | .push .. | .close _ | .pull _ | .release => true

/-- A step of a task is a move of the protocol, or none. -/
theorem Rel.taskStep (h : Rel cfg s a) (hi : SlotInv cfg a) {p : Tid} {spurious : Bool}
    (hstep : s.taskStep cfg p spurious = some s') :
    Tracks cfg a (s.compares cfg (.task p spurious) = true) s' := by
  cases hpc : s.task p with
  | idle => simp [State.taskStep, hpc] at hstep
  | suspended v i => simp [State.taskStep, hpc] at hstep
  | fetchTicket v =>
    simp only [State.taskStep, hpc, Option.some.injEq] at hstep
    exact hstep ▸ (h.fetchTicket hpc).tracks _
  | loadClosed v i =>
    simp only [State.taskStep, hpc, Option.some.injEq] at hstep
    exact hstep ▸ (h.loadClosed hpc).tracks _
  | spinReady v i =>
    simp only [State.taskStep, hpc, Option.some.injEq] at hstep
    exact hstep ▸ (h.spinReady hpc).tracks _
  | loadClosedAt v i =>
    simp only [State.taskStep, hpc, ← apply_ite some, Option.some.injEq] at hstep
    exact hstep ▸ (h.loadClosedAt hpc).of (by simp [State.compares, hpc])
  | claimLoad v i =>
    simp only [State.taskStep, hpc, Option.some.injEq] at hstep
    exact hstep ▸ (h.afterClaimLoad (by rw [hpc]; rfl) (by rw [hpc]; rfl)).tracks _
  | claimCas v i f =>
    simp only [State.taskStep, hpc] at hstep
    split at hstep <;> cases hstep
    · next hf => exact (h.claimCas hpc hf.2).tracks _
    · exact (h.afterClaimLoad (by rw [hpc]; rfl) (by rw [hpc]; rfl)).tracks _
  | parkLoad v i =>
    simp only [State.taskStep, hpc, Option.some.injEq] at hstep
    exact hstep ▸ (h.afterParkLoad hi (by rw [hpc]; rfl) (by rw [hpc]; rfl)).tracks _
  | parkCas v i f =>
    simp only [State.taskStep, hpc] at hstep
    split at hstep <;> cases hstep
    · next hf => exact (h.parkCas hpc hf.2).tracks _
    · exact (h.afterParkLoad hi (by rw [hpc]; rfl) (by rw [hpc]; rfl)).tracks _
  | emplace v i =>
    simp only [State.taskStep, hpc, Option.some.injEq] at hstep
    exact hstep ▸ (h.emplace hi hpc).tracks _
  | publishLoad v i =>
    simp only [State.taskStep, hpc, Option.some.injEq] at hstep
    exact hstep ▸ (h.publishLoad hi (by rw [hpc]; rfl) (by rw [hpc]; rfl)).tracks _
  | publishCas v i f =>
    obtain ⟨hprod, hdata⟩ : f.prod = true ∧ f.data = false := h.knows_at hpc
    simp only [State.taskStep, hpc, hprod, hdata, Bool.not_false, Bool.and_true,
      s.check_true rfl] at hstep
    split at hstep
    · next hf =>
      simp only [← apply_ite some, Option.some.injEq] at hstep
      exact hstep ▸ (h.publishCas hi hpc hf.2).tracks _
    · cases hstep
      exact (h.publishLoad hi (by rw [hpc]; rfl) (by rw [hpc]; rfl)).tracks _
  | takeConsumer v i =>
    obtain ⟨hwait, hsim⟩ := h.takeConsumer hpc
    simp only [State.taskStep, hpc, hwait, if_true, Option.some.injEq] at hstep
    exact hstep ▸ hsim.tracks _
  | resumeConsumer v i =>
    simp only [State.taskStep, hpc, Option.some.injEq] at hstep
    exact hstep ▸ (h.resumeConsumer hpc).tracks _
  | closeCas =>
    simp only [State.taskStep, hpc, ← apply_ite some, Option.some.injEq] at hstep
    exact hstep ▸ (h.closeCas hpc).tracks _
  | closeTicket =>
    simp only [State.taskStep, hpc, Option.some.injEq] at hstep
    exact hstep ▸ (h.closeTicket hpc).tracks _
  | storeClosedAt c =>
    simp only [State.taskStep, hpc, Option.some.injEq] at hstep
    exact hstep ▸ (h.storeClosedAt hpc).tracks _
  | storeReady c =>
    simp only [State.taskStep, hpc, Option.some.injEq] at hstep
    exact hstep ▸ (h.storeReady hpc).tracks _
  | fetchOr c =>
    simp only [State.taskStep, hpc, ← apply_ite some, Option.some.injEq] at hstep
    exact hstep ▸ (h.fetchOr hi hpc).tracks _
  | loadWaitIdx c f =>
    simp only [State.taskStep, hpc, ← apply_ite some, Option.some.injEq] at hstep
    exact hstep ▸ (h.loadWaitIdx hpc).of (by simp [State.compares, hpc])
  | closeArmedCas c f =>
    simp only [State.taskStep, hpc] at hstep
    split at hstep <;> cases hstep
    · next hf => exact (h.closeArmedCas hi hpc hf.2).tracks _
    · exact (h.afterCloseLoad hi (by rw [hpc]; rfl) (.inr (.inl rfl)) (by rw [hpc]; rfl)).tracks _
  | closeFreeCas c f =>
    simp only [State.taskStep, hpc] at hstep
    split at hstep <;> cases hstep
    · next hf => exact (h.closeFreeCas hi hpc hf.2).tracks _
    · exact (h.afterCloseLoad hi (by rw [hpc]; rfl) (.inr (.inr rfl)) (by rw [hpc]; rfl)).tracks _
  | closeTakeConsumer c =>
    obtain ⟨hwait, hcons, hsim⟩ := h.closeTakeConsumer hi hpc
    simp only [State.taskStep, hpc, hwait, hcons, if_true, Option.some.injEq] at hstep
    exact hstep ▸ hsim.tracks _
  | closeResume c =>
    simp only [State.taskStep, hpc, Option.some.injEq] at hstep
    exact hstep ▸ (h.closeResume hi hpc).tracks _

/-- A step of the consumer is a move of the protocol, or none. -/
theorem Rel.consumerStep (h : Rel cfg s a) (hi : SlotInv cfg a) {spurious : Bool}
    (hstep : s.consumerStep cfg spurious = some s') :
    Tracks cfg a (s.compares cfg (.consumer spurious) = true) s' := by
  have hknows := h.consumer
  cases hpc : s.consumer with
  | idle => simp [State.consumerStep, hpc] at hstep
  | suspended idx n => simp [State.consumerStep, hpc] at hstep
  | holding idx => simp [State.consumerStep, hpc] at hstep
  | poll k =>
    simp only [State.consumerStep, hpc, ← apply_ite some, Option.some.injEq] at hstep
    exact hstep ▸ (h.poll hpc).tracks _
  | loadClosed k idx f =>
    simp only [State.consumerStep, hpc, ← apply_ite some, Option.some.injEq] at hstep
    exact hstep ▸ (h.consumerLoadClosed hpc).of fun _ => trivial
  | spinReady k idx f =>
    simp only [State.consumerStep, hpc, Option.some.injEq] at hstep
    exact hstep ▸ (h.consumerSpinReady hpc).tracks _
  | loadClosedAt k idx f =>
    simp only [State.consumerStep, hpc, ← apply_ite some, Option.some.injEq] at hstep
    exact hstep ▸ (h.consumerLoadClosedAt hpc).of (by simp [State.compares, hpc])
  | storeIdx =>
    simp only [State.consumerStep, hpc, Option.some.injEq] at hstep
    exact hstep ▸ (h.storeIdx hpc).tracks _
  | storeSelf idx =>
    simp only [State.consumerStep, hpc, Option.some.injEq] at hstep
    exact hstep ▸ (h.storeSelf hpc).tracks _
  | loadFlags idx =>
    rw [hpc] at hknows
    obtain ⟨hc, rfl⟩ := hknows
    simp only [State.consumerStep, hpc, Option.some.injEq] at hstep
    exact hstep ▸ (h.afterLoadFlags hi hc).tracks _
  | withdrawData idx =>
    rw [hpc] at hknows
    obtain ⟨hc, rfl, i, v, l, l', hs⟩ := hknows
    simp only [State.consumerStep, hpc, h.waiting_at hc, if_true, Option.some.injEq] at hstep
    exact hstep ▸ (h.handOut (.inr (.inl hc)) hs).tracks _
  | withdrawSentinel idx =>
    rw [hpc] at hknows
    obtain ⟨hc, rfl, hs⟩ := hknows
    simp only [State.consumerStep, hpc, h.waiting_at hc, if_true, Option.some.injEq] at hstep
    exact hstep ▸ (h.withdrawSentinel hc hs).tracks _
  | sentinelReady idx =>
    simp only [State.consumerStep, hpc, Option.some.injEq] at hstep
    exact hstep ▸ (h.sentinelReady hpc).tracks _
  | sentinelClosedAt idx =>
    simp only [State.consumerStep, hpc, ← apply_ite some, Option.some.injEq] at hstep
    exact hstep ▸ (h.sentinelClosedAt hpc).of (by simp [State.compares, hpc])
  | armCas idx f =>
    simp only [State.consumerStep, hpc] at hstep
    split at hstep <;> cases hstep
    · next hf => exact (h.armCas hi hpc hf.2).tracks _
    · rw [hpc] at hknows
      obtain ⟨hc, rfl, -⟩ := hknows
      exact (h.afterLoadFlags hi hc).tracks _
  | resumed idx n =>
    simp only [State.consumerStep, hpc, ← apply_ite some, Option.some.injEq] at hstep
    exact hstep ▸ (h.resumed hi hpc).of fun _ => trivial
  | drainLoad idx =>
    simp only [State.consumerStep, hpc, Option.some.injEq] at hstep
    exact hstep ▸ (h.drainLoad hi hpc).tracks _
  | handoffCas idx f =>
    rw [hpc] at hknows
    obtain ⟨-, -, hdata, hprod, -⟩ := hknows
    simp only [State.consumerStep, hpc, hdata, hprod, Bool.not_false, Bool.and_true,
      s.check_true rfl] at hstep
    split at hstep
    · next hf =>
      obtain ⟨p, hp, hsim⟩ := h.handoffCas hi hpc hf.2
      simp only [hp, Option.some.injEq] at hstep
      exact hstep ▸ hsim.tracks _
    · cases hstep
      exact (h.handoffLoad hi hpc).tracks _
  | drainCas idx =>
    simp only [State.consumerStep, hpc, ← apply_ite some, Option.some.injEq] at hstep
    exact hstep ▸ (h.drainCas hi hpc).tracks _
  | drainExchange idx =>
    simp only [State.consumerStep, hpc, Option.some.injEq] at hstep
    exact hstep ▸ (h.drainExchange hi hpc).tracks _
  | reverse idx prev curr =>
    cases curr with
    | some p =>
      simp only [State.consumerStep, hpc, Option.some.injEq] at hstep
      exact hstep ▸ (h.reverse hi hpc).tracks _
    | none =>
      simp only [State.consumerStep, hpc, Option.some.injEq] at hstep
      exact hstep ▸ (h.afterReverse hi hpc).tracks _
  | resumeProducer idx p =>
    simp only [State.consumerStep, hpc, Option.some.injEq] at hstep
    exact hstep ▸ (h.resumeProducer hi hpc).tracks _

/-- A step of the queue is a move of the protocol, or none. -/
theorem Rel.tracks (h : Rel cfg s a) (hi : SlotInv cfg a) {act : Act V}
    (hstep : step cfg s act = some s') : Tracks cfg a (s.compares cfg act = true) s' := by
  cases act with
  | push p v =>
    simp only [MpscBounded.step] at hstep
    split at hstep <;> cases hstep
    next hpc =>
      have hgo := h.stay p (.fetchTicket v) (by rw [hpc]; rfl) (by rw [hpc]; rfl) trivial
      exact hgo.simulates.tracks _
  | close p =>
    simp only [MpscBounded.step] at hstep
    split at hstep <;> cases hstep
    next hpc =>
      have hgo := h.stay p .closeCas (by rw [hpc]; rfl) (by rw [hpc]; rfl) trivial
      exact hgo.simulates.tracks _
  | task p spurious => exact h.taskStep hi hstep
  | pull k =>
    simp only [MpscBounded.step] at hstep
    split at hstep
    · next hpc =>
      have hc : a.crole = .away := by
        have := h.consumer
        rwa [hpc] at this
      split at hstep <;> cases hstep
      next hk => exact (h.setPc (.poll k) ⟨hc, fun hp => by simpa [hp] using hk⟩).simulates.tracks _
    · cases hstep
  | consumer spurious => exact h.consumerStep hi hstep
  | release =>
    simp only [MpscBounded.step, State.release] at hstep
    split at hstep <;> cases hstep
    next hpc => exact (h.release hi hpc).tracks _

theorem Rel.follows (h : Rel cfg s a) (hi : SlotInv cfg a) {act : Act V}
    (hstep : step cfg s act = some s') : ∃ a', Rel cfg s' a' ∧ (a' = a ∨ RawMove cfg a a') := by
  obtain ⟨a', hr, ha⟩ := h.tracks hi hstep
  exact ⟨a', hr, ha.imp_right And.left⟩

/-- What the slots hold, in every state of every run. -/
theorem slotted (h : (system V cfg).Reachable s) : ∃ a, Rel cfg s a ∧ SlotInv cfg a := by
  refine System.Reach.invariant (I := fun s => ∃ a, Rel cfg s a ∧ SlotInv cfg a) ?_ ?_ h
  · rintro s rfl
    exact ⟨_, .init, .init⟩
  · rintro s act s' ⟨a, hr, hi⟩ - hs
    obtain ⟨a', hr', ha⟩ := hr.follows hi hs
    exact ⟨a', hr', hi.next ha⟩

theorem Rel.step (h : Rel cfg s a) (hi : Inv cfg a) {act : Act V} (hok : s.compares cfg act = true)
    (hstep : step cfg s act = some s') : Simulates cfg a s' := by
  obtain ⟨a', hr, ha⟩ := h.tracks hi.slots hstep
  exact ⟨a', hr, ha.imp_right fun hm => hm.2 hi hok⟩

/-- Below half the word range every comparison comes out right. -/
theorem InRange.compares (hb : InRange cfg s) (h : Rel cfg s a) (hi : Inv cfg a) {act : Act V} :
    s.compares cfg act = true := by
  have hord : ∀ {n c : Nat}, a.stage.cutoff = some c → n ≤ a.tickets →
      cfg.ordered n c = true := by
    intro n c hc hn
    have hclosed : s.closed = true := by
      rw [h.closed]
      cases hst : a.stage <;> simp_all [Stage.cutoff, Stage.closed]
    have htickets := hb hclosed
    have hcut := hi.cutoff_lt c hc
    rw [h.tickets] at htickets
    rw [Config.ordered, beq_iff_eq]
    exact circularLessThan_near (by omega) (by omega)
  cases act with
  | task p spurious =>
    rw [State.compares]
    split
    · next v i hpc =>
      obtain ⟨c, hc, rfl⟩ := h.past (h.knows_at hpc)
      exact hord hc (hi.ticket_lt p i (by rw [h.role_eq hpc]; rfl)).le
    · next c f hpc =>
      have hst : a.stage = .cut p c .readIdx := h.stage p _ (by rw [hpc]; rfl)
      exact hord (by rw [hst]; rfl) ((h.waitIdx_le _).trans hi.reads_le)
    · rfl
  | consumer spurious =>
    have hknows := h.consumer
    rw [State.compares]
    split
    · next k i f hpc =>
      rw [hpc] at hknows
      obtain ⟨-, -, rfl, -, hready⟩ := hknows
      obtain ⟨c, hc, rfl⟩ := h.past hready
      exact hord hc hi.reads_le
    · next i hpc =>
      rw [hpc] at hknows
      obtain ⟨-, rfl, -, hready⟩ := hknows
      obtain ⟨c, hc, rfl⟩ := h.past hready
      exact hord hc hi.reads_le
    · rfl
  | push p v | close p | pull k | release => rfl

/-- What is known of a state that a run has reached. -/
structure Reached (cfg : Config) (s : State V) (a : Abs V) : Prop where
  rel : Rel cfg s a
  inv : Inv cfg a
  pushes : Pushes a
  values : Values cfg a
  handed : Handed cfg a
  closed : Closed a
  places : Places cfg a

theorem Reached.init : Reached cfg (State.init : State V) Abs.init where
  rel := .init
  inv := .init
  pushes := .init
  values := .init
  handed := .init
  closed := .init
  places := .init

theorem Reached.move (h : Reached cfg s a) (hr : Rel cfg s' a') (hm : Move cfg a a') :
    Reached cfg s' a' where
  rel := hr
  inv := h.inv.move hm
  pushes := h.pushes.move h.inv hm
  values := h.values.move h.inv h.pushes hm
  handed := h.handed.move h.inv h.values hm
  closed := h.closed.move h.inv h.values h.handed hm
  places := h.places.move h.inv h.handed hm

theorem Reached.step (h : Reached cfg s a) {act : Act V} (hok : s.compares cfg act = true)
    (hstep : MpscBounded.step cfg s act = some s') :
    ∃ a', Reached cfg s' a' ∧ (a' = a ∨ Move cfg a a') := by
  obtain ⟨a', hr, rfl | hm⟩ := h.rel.step h.inv hok hstep
  · exact ⟨a', { h with rel := hr }, .inl rfl⟩
  · exact ⟨a', h.move hr hm, .inr hm⟩

section Grows

/-- No ticket is given back, and a closed queue stays closed. -/
theorem State.taskStep_grows {p : Tid} {spurious : Bool}
    (h : s.taskStep cfg p spurious = some s') :
    s.writeOffset ≤ s'.writeOffset ∧ (s.closed = true → s'.closed = true) := by
  simp only [State.taskStep] at h
  grind [State.afterClaimLoad, State.afterParkLoad, State.afterCloseLoad, State.resumeConsumer,
    State.setTask, State.setConsumer, State.setElem, State.setFlags, State.check,
    State.returnPush, State.returnClose]

theorem State.consumerStep_same {spurious : Bool} (h : s.consumerStep cfg spurious = some s') :
    s'.writeOffset = s.writeOffset ∧ s'.closed = s.closed := by
  simp only [State.consumerStep] at h
  split at h <;> grind [State.handOut, State.afterPoll.eq_def, State.afterLoadFlags,
    State.afterDrainLoad, State.afterReverse.eq_def, State.resumeProducer, State.setTask,
    State.setConsumer, State.setElem, State.setFlags, State.check, State.returnPull]

theorem step_grows {act : Act V} (h : step cfg s act = some s') :
    s.writeOffset ≤ s'.writeOffset ∧ (s.closed = true → s'.closed = true) := by
  cases act with
  | task p spurious => exact State.taskStep_grows h
  | consumer spurious =>
    obtain ⟨hw, hc⟩ := State.consumerStep_same h
    exact ⟨hw.ge, fun hcl => hc.trans hcl⟩
  | push p v | close p | pull k | release =>
    simp only [MpscBounded.step, State.release] at h
    grind [State.setTask, State.setConsumer, State.setElem, State.check]

theorem InRange.back (hb : InRange cfg s') {act : Act V} (h : step cfg s act = some s') :
    InRange cfg s := fun hc => (step_grows h).1.trans_lt (hb ((step_grows h).2 hc))

end Grows

/-- A run of the queue is a run of the protocol as long as its comparisons come out right. -/
theorem reached (h : (system V cfg).Reach (fun s act => s.compares cfg act = true) s) :
    ∃ a, Reached cfg s a := by
  refine System.Reach.invariant (I := fun s => ∃ a, Reached cfg s a) ?_ ?_ h
  · rintro s rfl
    exact ⟨_, .init⟩
  · rintro s act s' ⟨a, ha⟩ hok hs
    obtain ⟨a', ha', -⟩ := ha.step hok hs
    exact ⟨a', ha'⟩

/-- They do in every run that ends inside the bound. -/
theorem InRange.reach (h : (system V cfg).Reachable s) (hb : InRange cfg s) :
    (system V cfg).Reach (fun s act => s.compares cfg act = true) s := by
  refine System.Reach.invariant_under (B := InRange cfg)
    (I := fun s => (system V cfg).Reach (fun s act => s.compares cfg act = true) s)
    (fun _ _ _ _ hs hb => hb.back hs) (fun _ h => .init h) ?_ h hb
  rintro s act s' h hb - - hs
  obtain ⟨a, ha⟩ := reached h
  exact .step h (hb.compares ha.rel ha.inv) hs

end CoroUtil.MpscBounded
