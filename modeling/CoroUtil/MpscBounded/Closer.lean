import CoroUtil.MpscBounded.Producer

/-!
# The steps of a closer

Each atomic operation of `close_get_waiting_consumer` is a move of the slot
protocol, or none.
-/

namespace CoroUtil.MpscBounded

open CoroUtil.General

variable {V : Type} {cfg : Config} {s s' : State V} {a a' : Abs V}

section Closer

variable {p : Tid} {c : Nat}

theorem Rel.closeCas (h : Rel cfg s a) (hpc : s.task p = .closeCas) :
    Simulates cfg a (if s.closed then s.returnClose p
      else { s with closed := true }.setTask p .closeTicket) := by
  split
  · next hc =>
    exact (h.returnClose (by rw [hpc]; rfl) (by rw [hpc]; rfl) (h.closed.symm.trans hc)).simulates
  · next hc =>
    have hopen : a.stage = .opened := by
      have := h.closed
      cases hst : a.stage <;> simp_all [Stage.closed]
    have hold : ∀ q, q ≠ p → (s.task q).stage q = none := by
      intro q _
      cases hq : (s.task q).stage q with
      | none => rfl
      | some st =>
        have := h.stage q st hq
        rcases Pc.stage_owner hq with rfl | ⟨c, ph, rfl⟩ <;> cases hopen.symm.trans this
    have hready : s.closedReady = false := by rw [h.closedReady, hopen]; rfl
    exact (Move.win hopen).simulates
      (h.setStage p .closeTicket (.won p) true s.closedReady s.writeClosedAt (by rw [hpc]; rfl)
        trivial hold (by rw [hopen]; simp [Stage.ready]) (.inl rfl) rfl hready
        (by simp [Stage.cutoff]) rfl)

/-- The winner of `close()` goes on. -/
theorem Rel.closer (h : Rel cfg s a) (st' : Stage) {st : Stage}
    (hstage : (s.task p).stage p = some st)
    (pc : Pc V) (rd : Bool) (ca : Nat) (hrole : pc.role = (s.task p).role)
    (hknows : pc.Knows cfg s.next { a with stage := st' } p)
    (hmono : st.ready = true → st'.ready = true)
    (hpc : pc.stage p = some st' ∨ pc.stage p = none ∧ ∃ c, st' = .done c)
    (hclosed : st'.closed = true) (hready : rd = st'.ready)
    (hat : ∀ c, st'.cutoff = some c → (∀ q, st' ≠ .cut q c .storeAt) → ca = c) :
    Rel cfg ({ s with closedReady := rd, writeClosedAt := ca }.setTask p pc)
      { a with stage := st' } := by
  have hst := h.stage p st hstage
  have hsc : s.closed = true := by
    rw [h.closed, hst]
    rcases Pc.stage_owner hstage with rfl | ⟨c, ph, rfl⟩ <;> rfl
  have := h.setStage p pc st' true rd ca hrole hknows
    (fun q hq => h.stage_unique hstage hq) (hst ▸ hmono) hpc hclosed.symm hready hat hclosed
  rwa [← hsc] at this

/-- The winner of `close()` goes on within the cutoff slot, or returns. -/
theorem Rel.closerAt (h : Rel cfg s a) (st' : Stage) {ph : ClosePhase}
    (hstage : (s.task p).stage p = some (.cut p c ph))
    (hph : ph ≠ .storeAt ∧ ph ≠ .storeReady) (hst' : st'.ready = true ∧ st'.cutoff = some c)
    (pc : Pc V) (hrole : pc.role = (s.task p).role)
    (hknows : pc.Knows cfg s.next { a with stage := st' } p)
    (hpc : pc.stage p = some st' ∨ pc.stage p = none ∧ ∃ c, st' = .done c) :
    Rel cfg (s.setTask p pc) { a with stage := st' } := by
  have hst := h.stage p _ hstage
  have hready : a.stage.ready = true := by
    rw [hst]
    cases ph <;> simp_all [Stage.ready]
  have hclosed : st'.closed = true := by
    cases st' <;> simp_all [Stage.ready, Stage.closed]
  have hat : s.writeClosedAt = c := by
    refine h.closedAt c (by rw [hst]; rfl) ?_
    intro q hq
    rw [hst] at hq
    cases hq
    exact hph.1 rfl
  refine h.closer st' hstage pc s.closedReady s.writeClosedAt hrole hknows
    (fun _ => hst'.1) hpc hclosed
    (by rw [h.closedReady, hready, hst'.1]) ?_
  intro c' hc' _
  rw [hat]
  exact Option.some.inj (hst'.2.symm.trans hc')

theorem Rel.closeTicket (h : Rel cfg s a) (hpc : s.task p = .closeTicket) :
    Simulates cfg a ({ s with writeOffset := s.writeOffset + 1 }.setTask p
      (.storeClosedAt s.writeOffset)) := by
  have hstage : (s.task p).stage p = some (.won p) := by rw [hpc]; rfl
  have hst := h.stage p _ hstage
  have hidx : (Pc.storeClosedAt s.writeOffset : Pc V) = .storeClosedAt a.tickets := by
    rw [h.tickets]
  rw [hidx]
  refine (Move.cut hst).simulates (h.addTicket.closer (.cut p a.tickets .storeAt) hstage
    (.storeClosedAt a.tickets) s.closedReady s.writeClosedAt (by rw [hpc]; rfl) trivial
    (by simp [Stage.ready]) (.inl rfl) rfl ?_ ?_)
  · rw [h.closedReady, hst]
    rfl
  · intro c' hc' hne
    cases hc'
    exact absurd rfl (hne p)

theorem Rel.storeClosedAt (h : Rel cfg s a) (hpc : s.task p = .storeClosedAt c) :
    Simulates cfg a ({ s with writeClosedAt := c }.setTask p (.storeReady c)) := by
  have hstage : (s.task p).stage p = some (.cut p c .storeAt) := by rw [hpc]; rfl
  have hst := h.stage p _ hstage
  refine (Move.storeAt hst).simulates
    (h.closer (.cut p c .storeReady) hstage (.storeReady c) s.closedReady c
    (by rw [hpc]; rfl) trivial (by simp [Stage.ready]) (.inl rfl) rfl ?_ ?_)
  · rw [h.closedReady, hst]
    rfl
  · intro c' hc' _
    exact Option.some.inj hc'

theorem Rel.storeReady (h : Rel cfg s a) (hpc : s.task p = .storeReady c) :
    Simulates cfg a ({ s with closedReady := true }.setTask p (.fetchOr c)) := by
  have hstage : (s.task p).stage p = some (.cut p c .storeReady) := by rw [hpc]; rfl
  have hst := h.stage p _ hstage
  have hat := h.closedAt c (by rw [hst]; rfl) (by rw [hst]; simp)
  refine (Move.storeReady hst).simulates
    (h.closer (.cut p c .look) hstage (.fetchOr c) true s.writeClosedAt
    (by rw [hpc]; rfl) trivial (fun _ => rfl) (.inl rfl) rfl rfl ?_)
  intro c' hc' _
  exact hat.trans (Option.some.inj hc')

/-- `close()` returns from the cutoff slot. -/
theorem Rel.closerReturns (h : Rel cfg s a) {ph : ClosePhase}
    (hstage : (s.task p).stage p = some (.cut p c ph)) (hph : ph ≠ .storeAt ∧ ph ≠ .storeReady)
    (hrole : (s.task p).role = .out) : Rel cfg (s.returnClose p) { a with stage := .done c } :=
  { h.closerAt (.done c) hstage hph ⟨rfl, rfl⟩ .idle hrole.symm trivial (.inr ⟨rfl, c, rfl⟩)
    with closes := fun _ => rfl }

/-- The loop of `close_get_waiting_consumer`. -/
theorem Rel.afterCloseLoad (h : Rel cfg s a) (hi : SlotInv cfg a) {ph : ClosePhase}
    (hstage : (s.task p).stage p = some (.cut p c ph))
    (hph : ph = .look ∨ ph = .casArmed ∨ ph = .casFree) (hrole : (s.task p).role = .out) :
    Simulates cfg a (s.afterCloseLoad p c (s.elem cfg c).flags) := by
  have hst := h.stage p _ hstage
  have hne : ph ≠ .storeAt ∧ ph ≠ .storeReady := by
    rcases hph with rfl | rfl | rfl <;> simp
  rw [State.afterCloseLoad]
  cases hs : a.slot (cfg.slotOf c) with
  | busy o b l l' =>
    rw [if_pos (by rw [h.elem_flags, hs]; rfl)]
    exact (Move.lookBusy hst hph (by rw [hs]; rfl)).simulates (h.closerReturns hstage hne hrole)
  | full i v l l' =>
    rw [if_pos (by rw [h.elem_flags, hs]; rfl)]
    exact (Move.lookBusy hst hph (by rw [hs]; rfl)).simulates (h.closerReturns hstage hne hrole)
  | shut =>
    obtain ⟨c', -, hd | ⟨q, hd | hd⟩⟩ := hi.shut_cut _ hs
    · cases hst.symm.trans hd
    · cases hst.symm.trans hd
      simp at hph
    · cases hst.symm.trans hd
      simp at hph
  | free b =>
    have hf : (s.elem cfg c).flags = ⟨false, false, b, .null⟩ := by rw [h.elem_flags, hs]; rfl
    rw [if_neg (by simp [hf])]
    cases b with
    | true =>
      rw [if_pos (by simp [hf])]
      exact (Move.lookArmed hst hph hs).simulates
        (h.closerAt (.cut p c .readIdx) hstage hne ⟨rfl, rfl⟩ (.loadWaitIdx c _) hrole.symm
          (by simp [Pc.Knows, hf])
          (.inl rfl))
    | false =>
      rw [if_neg (by simp [hf])]
      exact (Move.lookFree hst hph hs).simulates
        (h.closerAt (.cut p c .casFree) hstage hne ⟨rfl, rfl⟩ (.closeFreeCas c _) hrole.symm
          (by simp [Pc.Knows, hf])
          (.inl rfl))

theorem Rel.fetchOr (h : Rel cfg s a) (hi : SlotInv cfg a) (hpc : s.task p = .fetchOr c) :
    Simulates cfg a (if cfg.consumerCanSuspend then s.afterCloseLoad p c (s.elem cfg c).flags
      else s.returnClose p) := by
  have hstage : (s.task p).stage p = some (.cut p c .look) := by rw [hpc]; rfl
  have hrole : (s.task p).role = .out := by rw [hpc]; rfl
  split
  · exact h.afterCloseLoad hi hstage (.inl rfl) hrole
  · next hcfg =>
    exact (Move.leaveAlone (h.stage p _ hstage) (by simpa using hcfg)).simulates
      (h.closerReturns hstage (by simp) hrole)

theorem Rel.loadWaitIdx (h : Rel cfg s a) {f : Flags} (hpc : s.task p = .loadWaitIdx c f) :
    Tracks cfg a (cfg.ordered (s.elem cfg c).waitingConsumerIdx c = true)
      (if circularLessThan cfg.bits (s.elem cfg c).waitingConsumerIdx c then
        s.returnClose p else s.setTask p (.closeArmedCas c f)) := by
  have hstage : (s.task p).stage p = some (.cut p c .readIdx) := by rw [hpc]; rfl
  have hst := h.stage p _ hstage
  have hle : (s.elem cfg c).waitingConsumerIdx ≤ a.reads := h.waitIdx_le _
  have hidx : a.crole = .armed → cfg.slotOf c = cfg.slotOf a.reads →
      (s.elem cfg c).waitingConsumerIdx = a.reads := by
    intro harmed hslot
    have hidx := h.waitIdx (by rw [harmed]; rfl)
    rwa [State.elem, ← hslot] at hidx
  split
  · next hcl =>
    refine (RawMove.idxBelow hst hle hidx hcl).tracks
      (h.closerReturns hstage (by simp) (by rw [hpc]; rfl)) fun hi hok => ?_
    have hlt := Config.lt_of_ordered hok hcl
    refine .idxBelow hst fun harmed => ?_
    have hreads := hi.reads_cut c (by rw [hst]; rfl)
    refine Nat.lt_of_le_of_ne hreads fun heq => ?_
    rw [hidx harmed (by rw [heq]), heq] at hlt
    exact Nat.lt_irrefl c hlt
  · next hcl =>
    have hcl := Bool.not_eq_true _ ▸ hcl
    exact (RawMove.idxReached hst hle hcl).tracks
      (h.closerAt (.cut p c .casArmed) hstage (by simp) ⟨rfl, rfl⟩ (.closeArmedCas c f)
        (by rw [hpc]; rfl) (h.knows_at hpc) (.inl rfl))
      fun _ hok => .idxReached hst ((Config.le_of_ordered hok hcl).trans hle)

theorem Rel.closeFreeCas (h : Rel cfg s a) (hi : SlotInv cfg a) {f : Flags}
    (hpc : s.task p = .closeFreeCas c f) (hf : (s.elem cfg c).flags = f) :
    Simulates cfg a
      ((s.setFlags cfg c ⟨false, false, false, .closeSentinel⟩).returnClose p) := by
  have hstage : (s.task p).stage p = some (.cut p c .casFree) := by rw [hpc]; rfl
  have hst := h.stage p _ hstage
  obtain ⟨hprod, hdata, hcons⟩ : f.prod = false ∧ f.data = false ∧ f.cons = false :=
    h.knows_at hpc
  rw [← hf, h.elem_flags] at hprod hdata hcons
  have hs : a.slot (cfg.slotOf c) = .free false := by
    cases hs : a.slot (cfg.slotOf c) with
    | free b => simp [hs, Slot.flags] at hcons; rw [hcons]
    | busy o b l l' => simp [hs, Slot.flags] at hprod
    | full i v l l' => simp [hs, Slot.flags] at hdata
    | shut =>
      obtain ⟨c', -, hd | ⟨q, hd | hd⟩⟩ := hi.shut_cut _ hs <;> cases hst.symm.trans hd
  have hset : Rel cfg (s.setFlags cfg c ⟨false, false, false, .closeSentinel⟩)
      (a.setSlot (cfg.slotOf c) .shut) :=
    h.setFlags rfl rfl (by rw [hs]; rfl) (by rw [hs]; rfl) (Slot.keeps_of_free hs)
  exact (Move.shutFree hst hs).simulates
    (hset.closerReturns hstage (by simp) (by rw [State.setFlags, State.setElem, hpc]; rfl))

theorem Rel.closeArmedCas (h : Rel cfg s a) (hi : SlotInv cfg a) {f : Flags}
    (hpc : s.task p = .closeArmedCas c f) (hf : (s.elem cfg c).flags = f) :
    Simulates cfg a ((s.setFlags cfg c { f with cons := false, chain := .closeSentinel }).setTask p
      (.closeTakeConsumer c)) := by
  have hstage : (s.task p).stage p = some (.cut p c .casArmed) := by rw [hpc]; rfl
  have hst := h.stage p _ hstage
  obtain ⟨hprod, hdata, hcons⟩ : f.prod = false ∧ f.data = false ∧ f.cons = true :=
    h.knows_at hpc
  have hflags : f = ⟨false, false, true, f.chain⟩ := by
    cases f
    simp_all
  rw [← hf, h.elem_flags] at hprod hdata hcons
  have hs : a.slot (cfg.slotOf c) = .free true := by
    cases hs : a.slot (cfg.slotOf c) with
    | free b => simp [hs, Slot.flags] at hcons; rw [hcons]
    | busy o b l l' => simp [hs, Slot.flags] at hprod
    | full i v l l' => simp [hs, Slot.flags] at hdata
    | shut => simp [hs, Slot.flags] at hcons
  have harmed := (hi.armed_at (cfg.slotOf c) (by rw [hs]; rfl)).1
  have hset : Rel cfg (s.setFlags cfg c { f with cons := false, chain := .closeSentinel })
      (a.setSlot (cfg.slotOf c) .shut) :=
    h.setFlags (by rw [hflags]; rfl) rfl (by rw [hs]; rfl) (by rw [hs]; rfl) (Slot.keeps_of_free hs)
  have hwoken := hset.setWoken (.woken none false) (hset.suspended_of_armed harmed)
    (by simp [harmed, ConsumerRole.calm]) rfl (by simp [harmed, ConsumerRole.stored])
    (fun q => (hset.knows q).frame (fun t ht => absurd (harmed.symm.trans ht) (by simp)) id rfl)
    ⟨rfl, .inr (.inr rfl)⟩
  exact (Move.shutArmed hst hs).simulates
    (hwoken.closerAt (.cut p c .take) hstage (by simp) ⟨rfl, rfl⟩ (.closeTakeConsumer c)
      (by rw [State.setFlags, State.setElem, hpc]; rfl) trivial (.inl rfl))

theorem Rel.closeTakeConsumer (h : Rel cfg s a) (hi : SlotInv cfg a)
    (hpc : s.task p = .closeTakeConsumer c) :
    (s.elem cfg c).waitingConsumer = true ∧ s.consumer = .suspended a.reads false ∧
    Simulates cfg a (((s.setElem cfg c { s.elem cfg c with waitingConsumer := false }).setConsumer
      (.suspended a.reads true)).setTask p (.closeResume c)) := by
  have hstage : (s.task p).stage p = some (.cut p c .take) := by rw [hpc]; rfl
  have hst := h.stage p _ hstage
  obtain ⟨hc, hslot⟩ := hi.taking p c hst
  have hcons : s.consumer = .suspended a.reads false := h.suspended_of_woken hc
  refine ⟨(h.waiting _).mpr ⟨by rw [hc]; rfl, hslot⟩, hcons,
    (Move.closeTake hst).simulates ?_⟩
  have hset := h.setStored (.woken none true) (.suspended a.reads true) s.task (by rw [hc]; rfl) rfl
    (by simp [ConsumerRole.stored])
    (fun q => ⟨rfl, rfl,
      (h.knows q).frame (fun t ht => absurd (hc.symm.trans ht) (by simp)) id rfl⟩)
    ⟨rfl, .inr (.inr rfl)⟩
  have := hset.closerAt (.cut p c .wake) hstage (by simp) ⟨rfl, rfl⟩ (.closeResume c)
    (by rw [State.setElem, hpc]; rfl) trivial (.inl rfl)
  have htaken : (ConsumerRole.woken none true).stored = false := rfl
  simpa only [State.setTask, State.setConsumer, State.setElem, State.elem, hslot, htaken] using this

theorem Rel.closeResume (h : Rel cfg s a) (hi : SlotInv cfg a) (hpc : s.task p = .closeResume c) :
    Simulates cfg a (s.resumeConsumer.returnClose p) := by
  have hstage : (s.task p).stage p = some (.cut p c .wake) := by rw [hpc]; rfl
  have hst := h.stage p _ hstage
  have hc := hi.waking p c hst
  have hcons : s.consumer = .suspended a.reads true := h.suspended_of_woken hc
  have hset := h.setCrole (.resumed true) (.resumed a.reads true) (by rw [hc]; rfl) rfl
    (by rw [hc]; rfl)
    (fun q => (h.knows q).frame (fun t ht => absurd (hc.symm.trans ht) (by simp)) id rfl) ⟨rfl, rfl⟩
  have := hset.closerReturns hstage (by simp) (by rw [State.setConsumer, hpc]; rfl)
  rw [State.resumeConsumer, hcons]
  exact (Move.closeWake hst).simulates this

end Closer

end CoroUtil.MpscBounded
