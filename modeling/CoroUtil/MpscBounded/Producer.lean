import CoroUtil.MpscBounded.Frame

/-!
# The steps of a producer

Each atomic operation of `push` is a move of the slot protocol, or none.
-/

namespace CoroUtil.MpscBounded

open CoroUtil.General

variable {V : Type} {cfg : Config} {s s' : State V} {a a' : Abs V}

section Producer

variable {p : Tid} {v : V} {i : Nat}

theorem State.check_true (s : State V) {b : Bool} (hb : b = true) : s.check b = s := by
  subst hb
  simp [State.check]

theorem Rel.addTicket (h : Rel cfg s a) :
    Rel cfg { s with writeOffset := s.writeOffset + 1 } { a with tickets := a.tickets + 1 } :=
  { h with
    tickets := congrArg (· + 1) h.tickets
    knows := fun q => (h.knows q).frame (fun _ _ => ⟨rfl, rfl⟩) id rfl }

theorem Rel.fetchTicket (h : Rel cfg s a) (hpc : s.task p = .fetchTicket v) :
    Simulates cfg a ({ s with writeOffset := s.writeOffset + 1 }.setTask p
      (.loadClosed v s.writeOffset)) := by
  have hidx : (Pc.loadClosed v s.writeOffset : Pc V) = .loadClosed v a.tickets := by rw [h.tickets]
  rw [hidx]
  exact (Move.ticket v (h.role_eq hpc)).simulates
    (h.addTicket.goto p (.loadClosed v a.tickets) (by rw [hpc]; rfl) trivial)

theorem Rel.loadClosed (h : Rel cfg s a) (hpc : s.task p = .loadClosed v i) :
    Simulates cfg a (s.setTask p (if s.closed then .spinReady v i else .claimLoad v i)) := by
  cases hc : s.closed with
  | true => exact (h.stay p (.spinReady v i) (by rw [hpc]; rfl)
    (by rw [hpc]; rfl) trivial).simulates
  | false =>
    have hopen : a.stage = .opened := by
      have := h.closed.symm.trans hc
      cases hst : a.stage <;> simp_all [Stage.closed]
    refine (Move.pass (h.role_eq hpc) ?_).simulates
      (h.goto p (.claimLoad v i) (by rw [hpc]; rfl) trivial)
    rw [hopen]
    simp [Stage.cutoff]

theorem Rel.spinReady (h : Rel cfg s a) (hpc : s.task p = .spinReady v i) :
    Simulates cfg a (s.setTask p
      (if s.closedReady then .loadClosedAt v i else .spinReady v i)) := by
  cases hc : s.closedReady with
  | true =>
    exact (h.stay p (.loadClosedAt v i) (by rw [hpc]; rfl) (by rw [hpc]; rfl)
      (h.closedReady.symm.trans hc)).simulates
  | false =>
    exact (h.stay p (.spinReady v i) (by rw [hpc]) (by rw [hpc]) trivial).simulates

/-- Where `is_closed_past` finds the cutoff. -/
theorem Rel.past (h : Rel cfg s a) (hready : a.stage.ready = true) :
    ∃ c, a.stage.cutoff = some c ∧ s.writeClosedAt = c := by
  obtain ⟨c, hc⟩ : ∃ c, a.stage.cutoff = some c := by
    cases hst : a.stage <;> simp_all [Stage.ready, Stage.cutoff]
  refine ⟨c, hc, h.closedAt c hc ?_⟩
  rintro q hq
  simp [hq, Stage.ready] at hready

theorem Rel.loadClosedAt (h : Rel cfg s a) (hpc : s.task p = .loadClosedAt v i) :
    Tracks cfg a (cfg.ordered i s.writeClosedAt = true)
      (if circularLessThan cfg.bits i s.writeClosedAt then
        s.setTask p (.claimLoad v i) else s.returnPush p v i false) := by
  have hrole : a.role p = .fresh i v := h.role_eq hpc
  obtain ⟨c, hc, rfl⟩ := h.past (h.knows_at hpc)
  split
  · next hcl =>
    refine (RawMove.pass hrole hc hcl).tracks
      (h.goto p (.claimLoad v i) (by rw [hpc]; rfl) trivial) fun _ hok => ?_
    refine .pass hrole fun c' hc' => ?_
    rw [← Option.some.inj (hc.symm.trans hc')]
    exact Config.lt_of_ordered hok hcl
  · next hcl =>
    have hcl := Bool.not_eq_true _ ▸ hcl
    exact (RawMove.reject hrole hc hcl).tracks (h.returnPush (by rw [hpc]; rfl) v i false)
      fun _ hok => .reject hrole hc (Config.le_of_ordered hok hcl)

/-- What `producer_try_claim` does with the flags it has loaded. -/
theorem Rel.afterClaimLoad (h : Rel cfg s a) (hrole : (s.task p).role = .passed i v)
    (hstage : (s.task p).stage p = none) :
    Simulates cfg a (s.afterClaimLoad p v i (s.elem cfg i).flags) := by
  have hr : a.role p = .passed i v := (h.role p).trans hrole
  rw [State.afterClaimLoad]
  split
  · next hc => exact (h.stay p (.claimCas v i _) hrole.symm hstage.symm hc).simulates
  · split
    · next hs =>
      rw [h.elem_flags, Slot.hasCloseSentinel_flags] at hs
      exact (Move.rejectShut hr hs).simulates (h.returnPush hstage v i false)
    · exact (h.stay p (.parkLoad v i) hrole.symm hstage.symm trivial).simulates

theorem Rel.claimCas (h : Rel cfg s a) {f : Flags} (hpc : s.task p = .claimCas v i f)
    (hf : (s.elem cfg i).flags = f) :
    Simulates cfg a ((s.setFlags cfg i { f with prod := true }).setTask p (.emplace v i)) := by
  have hr : a.role p = .passed i v := h.role_eq hpc
  have hclaim : f.claimable = true := h.knows_at hpc
  rw [← hf, h.elem_flags, Slot.claimable_flags] at hclaim
  obtain ⟨b, hs⟩ := hclaim
  have hflags : f = ⟨false, false, b, .null⟩ := by rw [← hf, h.elem_flags, hs]; rfl
  have hset : Rel cfg (s.setFlags cfg i { f with prod := true })
      (a.setSlot (cfg.slotOf i) (.busy (.task p i none) b [] [])) :=
    h.setFlags (by rw [hflags]; rfl) rfl (by rw [hs]; rfl) (by rw [hs]; rfl)
      (Slot.keeps_of_free hs)
  have hgo := hset.goto p (.emplace v i) (by rw [State.setFlags, State.setElem, hpc]; rfl) trivial
  exact (Move.claim hr hs).simulates
    { hgo with
      knows := fun q => (hgo.knows q).frame (fun _ _ => ⟨rfl, rfl⟩) id rfl
      consumer := hgo.consumer }

theorem Rel.passed_not_waiter (h : Rel cfg s a) (hi : SlotInv cfg a)
    (hrole : (s.task p).role = .passed i v) (k : Nat) : p ∉ (a.slot k).waiters := by
  intro hk
  obtain ⟨j, w, hj, -⟩ := hi.waiter_parked k p hk
  rw [h.role, hrole] at hj
  cases hj

/-- A task that is in no chain writes its link. -/
theorem Rel.setNext (h : Rel cfg s a) (hnot : ∀ k, p ∉ (a.slot k).waiters) (o : Option Tid)
    (hknows : (s.task p).Knows cfg (Function.update s.next p o) a p) :
    Rel cfg { s with next := Function.update s.next p o } a :=
  { h with
    input := fun k => (h.input k).update (fun hp => hnot k (List.mem_append_left _ hp)) o
    output := fun k hk =>
      (h.output k hk).update (fun hp => hnot k (List.mem_append_right _ hp)) o
    knows := by
      intro q
      by_cases hq : q = p
      · rw [hq]
        exact hknows
      · exact (h.knows q).frame (fun _ _ => ⟨rfl, rfl⟩) id (Function.update_of_ne hq ..)
    consumer := by
      refine h.consumer.frame rfl rfl id (fun _ hs => hs) (fun _ _ _ l _ hs => ⟨l, hs, id⟩) ?_
        (fun _ => rfl) (fun _ => rfl)
      intro k l l' hs
      refine ⟨l, hs, fun q hq => Function.update_of_ne ?_ ..⟩
      rintro rfl
      exact hnot k (by rw [hs]; exact List.mem_append_right _ hq) }

theorem State.setTask_setTask (s : State V) (p : Tid) (pc pc' : Pc V) :
    (s.setTask p pc).setTask p pc' = s.setTask p pc' := by
  simp only [State.setTask, Function.update_idem]

/-- What `producer_park` does with the flags it has loaded. -/
theorem Rel.afterParkLoad (h : Rel cfg s a) (hi : SlotInv cfg a)
    (hrole : (s.task p).role = .passed i v) (hstage : (s.task p).stage p = none) :
    Simulates cfg a (s.afterParkLoad p v i (s.elem cfg i).flags) := by
  have hr : a.role p = .passed i v := (h.role p).trans hrole
  rw [State.afterParkLoad]
  split
  · exact (h.stay p (.claimLoad v i) hrole.symm hstage.symm trivial).simulates
  · next hc =>
    split
    · next hs =>
      rw [h.elem_flags, Slot.hasCloseSentinel_flags] at hs
      exact (Move.rejectShut hr hs).simulates (h.returnPush hstage v i false)
    · next hs =>
      have hnot := h.passed_not_waiter hi hrole
      have hgo := h.stay p (.claimLoad v i) hrole.symm hstage.symm trivial
      have hnext := hgo.setNext hnot (s.elem cfg i).flags.chainPtr
        (by rw [State.setTask_self]; trivial)
      have hcas := hnext.stay p (.parkCas v i (s.elem cfg i).flags)
        (by simp only [State.setTask_self]; rfl) (by simp only [State.setTask_self]; rfl)
        ⟨by simpa using hc, by simpa using hs, Function.update_self ..⟩
      have htwice := { s with
        next := Function.update s.next p (s.elem cfg i).flags.chainPtr }.setTask_setTask p
          (.claimLoad v i) (.parkCas v i (s.elem cfg i).flags)
      rw [← htwice]
      exact hcas.simulates

theorem Rel.parkCas (h : Rel cfg s a) {f : Flags} (hpc : s.task p = .parkCas v i f)
    (hf : (s.elem cfg i).flags = f) :
    Simulates cfg a ((s.setFlags cfg i { f with chain := .node p }).setTask p
      (.suspended v i)) := by
  have hr : a.role p = .passed i v := h.role_eq hpc
  obtain ⟨hc, hsent, hnext⟩ : f.claimable = false ∧ f.hasCloseSentinel = false ∧
    s.next p = f.chainPtr := h.knows_at hpc
  rw [← hf, h.elem_flags] at hc hsent hnext
  have hheld := Slot.held_flags hc hsent
  have hset : Rel cfg (s.setFlags cfg i { f with chain := .node p })
      (a.setSlot (cfg.slotOf i) ((a.slot (cfg.slotOf i)).park p)) := by
    refine h.setFlags ?_ ?_ ?_ ?_ ?_
    · rw [← hf, h.elem_flags, Slot.flags_park hheld]
    · rw [Slot.input_park hheld]
      refine ⟨rfl, ?_⟩
      rw [hnext, Slot.chainPtr_flags]
      exact h.input _
    · exact Slot.output_park
    · exact Slot.value_park
    · exact Slot.keeps_park
  have hgo := hset.goto p (.suspended v i) (by rw [State.setFlags, State.setElem, hpc]; rfl) trivial
  exact (Move.park hr hheld).simulates hgo

theorem Rel.emplace (h : Rel cfg s a) (hi : SlotInv cfg a) (hpc : s.task p = .emplace v i) :
    Simulates cfg a ({ (s.setElem cfg i { s.elem cfg i with data := some (i, v) }).check
      (s.elem cfg i).data.isNone with constructed := s.constructed ++ [(i, v)] }.setTask p
        (.publishLoad v i)) := by
  have hr : a.role p = .writing i v := h.role_eq hpc
  obtain ⟨b, l, l', hs⟩ := hi.writing_slot p i v hr
  have hnone : (s.elem cfg i).data = none := by
    rw [State.elem, h.data, hs]
    exact ite_self _
  have hfront : ¬(a.crole = .draining ∧ cfg.slotOf i = cfg.slotOf a.front) := by
    rintro ⟨hd, hk⟩
    obtain ⟨j, w, m, m', hf⟩ := hi.full_front (by rw [hd]; rfl)
    rw [← hk, hs] at hf
    cases hf
  have hset : Rel cfg (s.setElem cfg i { s.elem cfg i with data := some (i, v) })
      (a.setSlot (cfg.slotOf i) (.busy (.task p i (some v)) b l l')) := by
    have hin := h.input (cfg.slotOf i)
    have hout := h.output (cfg.slotOf i)
    rw [hs] at hin hout
    refine h.setElem ?_ hin hout (if_neg hfront).symm rfl rfl ?_
    · rw [h.elem_flags, hs]
      rfl
    · exact h.knows_setSlot (Slot.keeps_of_owner hs) rfl rfl
  rw [State.check_true _ (by rw [hnone]; rfl)]
  have hgo := hset.goto p (.publishLoad v i) (by rw [State.setElem, hpc]; rfl) trivial
  exact (Move.emplace hr hs).simulates
    { hgo with
      knows := fun q => (hgo.knows q).frame (fun _ _ => ⟨rfl, rfl⟩) id rfl
      consumer := hgo.consumer
      constructed := congrArg (· ++ [(i, v)]) h.constructed }

/-- What a producer that owns `PROD_BIT` sees of its slot. -/
theorem Rel.owner_flags (h : Rel cfg s a) (hi : SlotInv cfg a) (hr : a.role p = .written i v) :
    (s.elem cfg i).flags.prod = true ∧ (s.elem cfg i).flags.data = false := by
  obtain ⟨b, l, l', hs⟩ := hi.written_slot p i v hr
  rw [h.elem_flags, hs]
  exact ⟨rfl, rfl⟩

theorem Rel.publishLoad (h : Rel cfg s a) (hi : SlotInv cfg a)
    (hrole : (s.task p).role = .written i v)
    (hstage : (s.task p).stage p = none) :
    Simulates cfg a (s.setTask p (.publishCas v i (s.elem cfg i).flags)) :=
  (h.stay p (.publishCas v i (s.elem cfg i).flags) hrole.symm hstage.symm
    (h.owner_flags hi ((h.role p).trans hrole))).simulates

/-- `producer_publish` publishes, and wakes the consumer if `CONS_BIT` was set. -/
theorem Rel.publishCas (h : Rel cfg s a) (hi : SlotInv cfg a) {f : Flags}
    (hpc : s.task p = .publishCas v i f) (hf : (s.elem cfg i).flags = f) :
    Simulates cfg a
      (if cfg.consumerCanSuspend && f.cons then
        (s.setFlags cfg i { f with prod := false, cons := false, data := true }).setTask p
          (.takeConsumer v i)
      else
        (s.setFlags cfg i { f with prod := false, cons := false, data := true }).returnPush p v i
          true) := by
  have hr : a.role p = .written i v := h.role_eq hpc
  obtain ⟨b, l, l', hs⟩ := hi.written_slot p i v hr
  have hflags : f = ⟨true, false, b, .ofHead l.head?⟩ := by rw [← hf, h.elem_flags, hs]; rfl
  have hset : Rel cfg (s.setFlags cfg i { f with prod := false, cons := false, data := true })
      (a.setSlot (cfg.slotOf i) (.full i v l l')) := by
    have hin := h.input (cfg.slotOf i)
    rw [hs] at hin
    exact h.setFlags (by rw [hflags]; rfl) hin (by rw [hs]; rfl) (by rw [hs]; rfl)
      (Slot.keeps_of_owner hs)
  have hstage : (s.task p).stage p = none := by rw [hpc]; rfl
  cases b with
  | false =>
    rw [if_neg (by simp [hflags])]
    exact (Move.publish hr hs).simulates (hset.returnPush hstage v i true)
  | true =>
    obtain ⟨harmed, hslot⟩ := hi.armed_at (cfg.slotOf i) (by rw [hs]; rfl)
    have hcfg : cfg.consumerCanSuspend = true := by
      by_contra hc
      have := hi.no_suspend (by simpa using hc)
      rw [harmed] at this
      cases this
    rw [if_pos (by simp [hflags, hcfg])]
    have hwoken := hset.setWoken (.woken (some p) false) (hset.suspended_of_armed harmed)
      (by simp [harmed, ConsumerRole.calm]) rfl (by simp [harmed, ConsumerRole.stored])
      (fun q => (hset.knows q).frame (fun t ht => absurd (harmed.symm.trans ht) (by simp)) id rfl)
      ⟨rfl, .inr (.inl ⟨⟨p, false, rfl⟩, rfl⟩)⟩
    exact (Move.publishArmed hr hs).simulates
      (hwoken.goto p (.takeConsumer v i) hstage.symm ⟨rfl, hslot⟩)

theorem Rel.takeConsumer (h : Rel cfg s a) (hpc : s.task p = .takeConsumer v i) :
    (s.elem cfg i).waitingConsumer = true ∧
    Simulates cfg a ((s.setElem cfg i { s.elem cfg i with waitingConsumer := false }).setTask p
      (.resumeConsumer v i)) := by
  obtain ⟨hc, hslot⟩ : a.crole = .woken (some p) false ∧ cfg.slotOf i = cfg.slotOf a.reads :=
    h.knows_at hpc
  refine ⟨(h.waiting _).mpr ⟨by rw [hc]; rfl, hslot⟩, (Move.takeConsumer hc).simulates ?_⟩
  have hcons := h.suspended_of_woken hc
  have := h.setStored (.woken (some p) true) s.consumer
    (Function.update s.task p (.resumeConsumer v i)) (by rw [hc]; rfl) rfl
      (by simp [ConsumerRole.stored])
    (by
      intro q
      by_cases hq : q = p
      · subst hq
        rw [Function.update_self, hpc]
        exact ⟨rfl, rfl, rfl⟩
      · rw [Function.update_of_ne hq]
        refine ⟨rfl, rfl, (h.knows q).frame (fun t ht => ?_) id rfl⟩
        rw [hc] at ht
        cases ht
        exact absurd rfl hq)
    (by
      rw [hcons]
      exact ⟨rfl, .inr (.inl ⟨⟨p, true, rfl⟩, rfl⟩)⟩)
  have htaken : (ConsumerRole.woken (some p) true).stored = false := rfl
  simpa only [State.setTask, State.setElem, State.elem, hslot, htaken] using this

theorem Rel.resumeConsumer (h : Rel cfg s a) (hpc : s.task p = .resumeConsumer v i) :
    Simulates cfg a (s.resumeConsumer.returnPush p v i true) := by
  have hr : a.role p = .notify i v := h.role_eq hpc
  have hc : a.crole = .woken (some p) true := h.knows_at hpc
  have hcons := h.suspended_of_woken hc
  refine (Move.wakeConsumer hr hc).simulates ?_
  have hret := h.returnPush (p := p) (by rw [hpc]; rfl) v i true
  have := hret.setCrole (.resumed false) (.resumed a.reads false)
    (by simp [hc, ConsumerRole.calm]) rfl
    (by simp [hc, ConsumerRole.stored])
    (by
      intro q
      by_cases hq : q = p
      · rw [hq, show (s.returnPush p v i true).task p = .idle from Function.update_self ..]
        trivial
      · refine (hret.knows q).frame (fun t ht => ?_) id rfl
        cases hc.symm.trans ht
        exact absurd rfl hq)
    ⟨rfl, rfl⟩
  rw [State.resumeConsumer, hcons]
  exact this

end Producer

end CoroUtil.MpscBounded
