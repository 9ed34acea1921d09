import CoroUtil.MpscBounded.Invariant

/-!
# The slots, whatever the closed test answers

The moves of the protocol compare an index with the cutoff as numbers, the code
asks `circular_less_than`.  `RawMove` has the moves with the code's test, and
`SlotInv` is kept by each of them: what the slots hold does not depend on how far
the offsets are apart.
-/

namespace CoroUtil.MpscBounded

open CoroUtil.General

variable {V : Type} {cfg : Config} {a : Abs V}

/-- The moves of the protocol, with the closed test of the code. -/
inductive RawMove {V : Type} (cfg : Config) : Abs V → Abs V → Prop
  | move {a a' : Abs V} (h : Move cfg a a') : RawMove cfg a a'
  | pass {a : Abs V} {p : Tid} {i c : Nat} {v : V} (h : a.role p = .fresh i v)
      (hs : a.stage.cutoff = some c) (hc : circularLessThan cfg.bits i c = true) :
      RawMove cfg a (a.setRole p (.passed i v))
  | reject {a : Abs V} {p : Tid} {i c : Nat} {v : V} (h : a.role p = .fresh i v)
      (hs : a.stage.cutoff = some c) (hc : circularLessThan cfg.bits i c = false) :
      RawMove cfg a (a.returnPush p v i false)
  | beginArming {a : Abs V} {c : Nat} (h : a.crole = .away) (hcfg : cfg.consumerCanSuspend = true)
      (hs : a.stage.cutoff = some c) (hc : circularLessThan cfg.bits a.reads c = true) :
      RawMove cfg a { a with crole := .arming false }
  | reportClosed {a : Abs V} {c : Nat} (h : a.crole = .away ∨ a.crole = .arming false)
      (hs : a.stage.cutoff = some c) (hc : circularLessThan cfg.bits a.reads c = false) :
      RawMove cfg a { a with crole := .away, pulls := a.pulls ++ [.closed] }
  | reportWoken {a : Abs V} (h : a.crole = .resumed true) :
      RawMove cfg a { a with crole := .away, pulls := a.pulls ++ [.closed] }
  | skip {a : Abs V} {c : Nat} (h : a.crole = .away ∨ a.crole = .arming false)
      (hs : a.slot (cfg.slotOf a.reads) = .shut) (hst : a.stage.cutoff = some c)
      (hc : circularLessThan cfg.bits a.reads c = true) :
      RawMove cfg a { a with reads := a.reads + 1 }
  | idxBelow {a : Abs V} {p : Tid} {c n : Nat} (h : a.stage = .cut p c .readIdx)
      (hn : n ≤ a.reads) (ha : a.crole = .armed → cfg.slotOf c = cfg.slotOf a.reads → n = a.reads)
      (hc : circularLessThan cfg.bits n c = true) : RawMove cfg a { a with stage := .done c }
  | idxReached {a : Abs V} {p : Tid} {c n : Nat} (h : a.stage = .cut p c .readIdx)
      (hn : n ≤ a.reads) (hc : circularLessThan cfg.bits n c = false) :
      RawMove cfg a { a with stage := .cut p c .casArmed }

namespace SlotInv

theorem init : SlotInv cfg (Abs.init : Abs V) := Inv.init.slots

theorem at_eq (h : SlotInv cfg a) {r : ConsumerRole} (hr : a.crole = r) (hne : r ≠ .resumed true) :
    ConsumerOk cfg a r := by
  have := h.at_slot (hr ▸ hne)
  rwa [hr] at this

theorem full_front (h : SlotInv cfg a) (hr : a.crole.took = true) : FullAt cfg a a.front := by
  cases hc : a.crole with
  | holding =>
    have hf : FullAt cfg a a.reads := h.at_eq hc (by simp)
    simpa [Abs.front, hc] using hf
  | draining =>
    have hf : FullAt cfg a (a.reads - 1) := (h.at_eq hc (by simp)).2
    simpa [Abs.front, hc] using hf
  | _ => simp [hc, ConsumerRole.took] at hr

/-- A producer is parked on one slot, once. -/
theorem waiter_unique (h : SlotInv cfg a) {p : Tid} {k k' : Nat} (hk : p ∈ (a.slot k).waiters)
    (hk' : p ∈ (a.slot k').waiters) : k = k' := by
  obtain ⟨i, v, hp, rfl⟩ := h.waiter_parked k p hk
  obtain ⟨j, w, hq, rfl⟩ := h.waiter_parked k' p hk'
  rw [hp] at hq
  cases hq
  rfl

/-- The closer goes on without touching a slot or the consumer. -/
theorem setStage (h : SlotInv cfg a) {st : Stage}
    (hcut : ∀ c, a.stage.cutoff = some c → st.cutoff = some c) (hold : a.stage.waking = false)
    (hnew : st.waking = false) (hndone : ∀ c, a.stage ≠ .done c) (n : Nat) :
    SlotInv cfg { a with tickets := n, stage := st } :=
  { h with
    at_slot := fun hne => (h.at_slot hne).frame rfl (by grind) (by grind) (by grind) (by grind)
      hcut (by grind)
    shut_cut := by grind [→ SlotInv.shut_cut]
    taking := by grind
    waking := by grind }

/-- The consumer goes on; neither role has anything to do with a slot. -/
theorem setConsumer (h : SlotInv cfg a) {r : ConsumerRole} (hold : a.crole.idle = true)
    (hcfg : r.suspending = true → cfg.consumerCanSuspend = true)
    (hok : r ≠ .resumed true → ConsumerOk cfg a r) (l : List (Pull V)) :
    SlotInv cfg { a with crole := r, pulls := l } :=
  { h with
    handoff_handing := by grind [→ SlotInv.handoff_handing]
    armed_at := by grind [→ SlotInv.armed_at]
    at_slot := hok
    notify_woken := by grind [→ SlotInv.notify_woken]
    no_suspend := by grind
    taking := by grind [→ SlotInv.taking]
    waking := by grind [→ SlotInv.waking] }

variable {p : Tid} {i : Nat} {v : V}

/-- A task changes its role; neither role has anything to do with a slot. -/
theorem setRole (h : SlotInv cfg a) {r : Role V} (hold : (a.role p).unseen = true)
    (hnew : r.unseen = true) (n : Nat) : SlotInv cfg ({ a with tickets := n }.setRole p r) :=
  { h with
    writing_slot := by grind [→ SlotInv.writing_slot]
    written_slot := by grind [→ SlotInv.written_slot]
    owner_writing := by grind [→ SlotInv.owner_writing]
    owner_written := by grind [→ SlotInv.owner_written]
    waiter_parked := by grind [→ SlotInv.waiter_parked]
    parked_waiter := by grind [→ SlotInv.parked_waiter]
    at_slot := fun hne => (h.at_slot hne).frame rfl (by grind) (by grind) (by grind) (by grind)
      (by grind) (by grind)
    notify_woken := by grind [→ SlotInv.notify_woken] }

theorem claim (h : SlotInv cfg a) {b : Bool} (hr : a.role p = .passed i v)
    (hs : a.slot (cfg.slotOf i) = .free b) :
    SlotInv cfg (((a.claim cfg (cfg.slotOf i) i).setSlot (cfg.slotOf i)
      (.busy (.task p i none) b [] [])).setRole p (.writing i v)) :=
  { h with
    writing_slot := by
      intro q j w hq
      by_cases hqp : q = p
      · obtain ⟨rfl, rfl⟩ : i = j ∧ v = w := by grind
        exact ⟨b, [], [], by grind⟩
      · grind [→ SlotInv.writing_slot]
    written_slot := by grind [→ SlotInv.written_slot]
    owner_slotOf := by grind [→ SlotInv.owner_slotOf]
    owner_writing := by
      intro k q j b' l₁ l₂ hk
      by_cases hki : k = cfg.slotOf i
      · exact ⟨v, by grind⟩
      · grind [→ SlotInv.owner_writing, → SlotInv.owner_slotOf]
    owner_written := by grind [→ SlotInv.owner_written]
    waiter_parked := by grind [→ SlotInv.waiter_parked]
    parked_waiter := by grind [→ SlotInv.parked_waiter]
    waiters_nodup := by
      have := h.waiters_nodup
      grind
    handoff_handing := by grind [→ SlotInv.handoff_handing]
    armed_at := by
      have := h.armed_at
      grind
    at_slot := fun hne => (h.at_slot hne).frame rfl (by grind) (by grind) (by grind) (by grind)
      (by grind) (by grind)
    notify_woken := by grind [→ SlotInv.notify_woken]
    shut_cut := by grind [→ SlotInv.shut_cut] }

theorem park (h : SlotInv cfg a) (hr : a.role p = .passed i v)
    (hs : (a.slot (cfg.slotOf i)).held = true) :
    SlotInv cfg ((a.setSlot (cfg.slotOf i) ((a.slot (cfg.slotOf i)).park p)).setRole p
      (.parked i v)) :=
  have hnot : ∀ k, p ∉ (a.slot k).waiters := by
    intro k hp
    obtain ⟨j, w, hj, -⟩ := h.waiter_parked k p hp
    grind
  { h with
    writing_slot := by grind [→ SlotInv.writing_slot]
    written_slot := by grind [→ SlotInv.written_slot]
    owner_slotOf := by grind [→ SlotInv.owner_slotOf, → Slot.eq_busy_of_park]
    owner_writing := by
      intro k q j b l₁ l₂ hk
      have : ∃ l, a.slot k = .busy (.task q j none) b l l₂ := by grind [→ Slot.eq_busy_of_park]
      grind [→ SlotInv.owner_writing]
    owner_written := by
      intro k q j w b l₁ l₂ hk
      have : ∃ l, a.slot k = .busy (.task q j (some w)) b l l₂ := by grind [→ Slot.eq_busy_of_park]
      grind [→ SlotInv.owner_written]
    waiter_parked := by
      intro k q hq
      by_cases hqp : q = p
      · exact ⟨i, v, by grind⟩
      · grind [→ SlotInv.waiter_parked, Slot.waiters_park]
    parked_waiter := by
      intro q j w hq
      by_cases hqp : q = p
      · grind [Slot.waiters_park]
      · grind [→ SlotInv.parked_waiter, Slot.waiters_park]
    waiters_nodup := by
      have := h.waiters_nodup
      grind [Slot.waiters_park]
    handoff_handing := by
      intro k b l₁ l₂ hk
      have : ∃ l, a.slot k = .busy .handoff b l l₂ := by grind [→ Slot.eq_busy_of_park]
      grind [→ SlotInv.handoff_handing]
    armed_at := by grind [→ SlotInv.armed_at, Slot.armed_park]
    at_slot := fun hne => (h.at_slot hne).frame rfl (by grind [Slot.armed_park]) (by grind)
      (by grind) (by grind) (by grind) (by grind)
    notify_woken := by grind [→ SlotInv.notify_woken]
    shut_cut := by grind [→ SlotInv.shut_cut, Slot.park_eq_shut] }

theorem emplace (h : SlotInv cfg a) {b : Bool} {l₁ l₂ : List Tid} (hr : a.role p = .writing i v)
    (hs : a.slot (cfg.slotOf i) = .busy (.task p i none) b l₁ l₂) :
    SlotInv cfg ({ a with constructed := a.constructed ++ [(i, v)] }.setSlot (cfg.slotOf i)
      (.busy (.task p i (some v)) b l₁ l₂) |>.setRole p (.written i v)) :=
  have hw : (a.slot (cfg.slotOf i)).waiters = l₁ ++ l₂ := by rw [hs]; rfl
  { h with
    writing_slot := by grind [→ SlotInv.writing_slot]
    written_slot := by
      intro q j w hq
      by_cases hqp : q = p
      · obtain ⟨rfl, rfl⟩ : i = j ∧ v = w := by grind
        exact ⟨b, l₁, l₂, by grind⟩
      · grind [→ SlotInv.written_slot]
    owner_slotOf := by grind [→ SlotInv.owner_slotOf]
    owner_writing := by grind [→ SlotInv.owner_writing, → SlotInv.owner_slotOf]
    owner_written := by grind [→ SlotInv.owner_written]
    waiter_parked := by grind [→ SlotInv.waiter_parked]
    parked_waiter := by grind [→ SlotInv.parked_waiter]
    waiters_nodup := by
      have := h.waiters_nodup
      grind
    handoff_handing := by grind [→ SlotInv.handoff_handing]
    armed_at := by
      have := h.armed_at
      grind
    at_slot := fun hne => (h.at_slot hne).frame rfl (by grind) (by grind) (by grind) (by grind)
      (by grind) (by grind)
    notify_woken := by grind [→ SlotInv.notify_woken]
    shut_cut := by grind [→ SlotInv.shut_cut] }

theorem publish (h : SlotInv cfg a) {l₁ l₂ : List Tid} (hr : a.role p = .written i v)
    (hs : a.slot (cfg.slotOf i) = .busy (.task p i (some v)) false l₁ l₂) :
    SlotInv cfg ((a.setSlot (cfg.slotOf i) (.full i v l₁ l₂)).returnPush p v i true) :=
  have hw : (a.slot (cfg.slotOf i)).waiters = l₁ ++ l₂ := by rw [hs]; rfl
  { h with
    writing_slot := by grind [→ SlotInv.writing_slot]
    written_slot := by grind [→ SlotInv.written_slot]
    owner_slotOf := by grind [→ SlotInv.owner_slotOf]
    owner_writing := by grind [→ SlotInv.owner_writing]
    owner_written := by grind [→ SlotInv.owner_written, → SlotInv.owner_slotOf]
    waiter_parked := by grind [→ SlotInv.waiter_parked]
    parked_waiter := by grind [→ SlotInv.parked_waiter]
    waiters_nodup := by
      have := h.waiters_nodup
      grind
    handoff_handing := by grind [→ SlotInv.handoff_handing]
    armed_at := by grind [→ SlotInv.armed_at]
    at_slot := fun hne => (h.at_slot hne).frame rfl (by grind) (by grind) (by grind) (by grind)
      (by grind) (by grind)
    notify_woken := by grind [→ SlotInv.notify_woken]
    shut_cut := by grind [→ SlotInv.shut_cut] }

theorem publishArmed (h : SlotInv cfg a) {l₁ l₂ : List Tid} (hr : a.role p = .written i v)
    (hs : a.slot (cfg.slotOf i) = .busy (.task p i (some v)) true l₁ l₂) :
    SlotInv cfg ({ a with crole := .woken (some p) false }.setSlot (cfg.slotOf i)
      (.full i v l₁ l₂) |>.setRole p (.notify i v)) :=
  have harmed : a.crole = .armed ∧ cfg.slotOf i = cfg.slotOf a.reads :=
    h.armed_at _ (by rw [hs]; rfl)
  have hw : (a.slot (cfg.slotOf i)).waiters = l₁ ++ l₂ := by rw [hs]; rfl
  { h with
    writing_slot := by grind [→ SlotInv.writing_slot]
    written_slot := by grind [→ SlotInv.written_slot]
    owner_slotOf := by grind [→ SlotInv.owner_slotOf]
    owner_writing := by grind [→ SlotInv.owner_writing]
    owner_written := by grind [→ SlotInv.owner_written, → SlotInv.owner_slotOf]
    waiter_parked := by grind [→ SlotInv.waiter_parked]
    parked_waiter := by grind [→ SlotInv.parked_waiter]
    waiters_nodup := by
      have := h.waiters_nodup
      grind
    handoff_handing := by grind [→ SlotInv.handoff_handing]
    armed_at := by
      have := h.armed_at
      grind
    at_slot := fun _ => ⟨⟨i, v, l₁, l₂, by grind⟩, i, v, by grind⟩
    notify_woken := by
      intro q j w hq
      by_cases hqp : q = p
      · exact ⟨false, by grind⟩
      · grind [→ SlotInv.notify_woken]
    no_suspend := by grind [→ SlotInv.no_suspend]
    shut_cut := by grind [→ SlotInv.shut_cut]
    taking := by grind [→ SlotInv.taking]
    waking := by grind [→ SlotInv.waking] }

theorem takeConsumer (h : SlotInv cfg a) (hr : a.crole = .woken (some p) false) :
    SlotInv cfg { a with crole := .woken (some p) true } :=
  { h with
    handoff_handing := by grind [→ SlotInv.handoff_handing]
    at_slot := fun _ => h.at_eq hr (by simp)
    armed_at := by grind [→ SlotInv.armed_at]
    notify_woken := by grind [→ SlotInv.notify_woken]
    no_suspend := by grind [→ SlotInv.no_suspend]
    taking := by grind [→ SlotInv.taking]
    waking := by grind [→ SlotInv.waking] }

theorem wakeConsumer (h : SlotInv cfg a) (hr : a.role p = .notify i v)
    (hc : a.crole = .woken (some p) true) :
    SlotInv cfg ({ a with crole := .resumed false }.returnPush p v i true) :=
  { h with
    writing_slot := by grind [→ SlotInv.writing_slot]
    written_slot := by grind [→ SlotInv.written_slot]
    owner_writing := by grind [→ SlotInv.owner_writing]
    owner_written := by grind [→ SlotInv.owner_written]
    waiter_parked := by grind [→ SlotInv.waiter_parked]
    parked_waiter := by grind [→ SlotInv.parked_waiter]
    handoff_handing := by grind [→ SlotInv.handoff_handing]
    at_slot := fun _ => (h.at_eq hc (by simp)).1
    armed_at := by grind [→ SlotInv.armed_at]
    notify_woken := by grind [→ SlotInv.notify_woken]
    no_suspend := by grind [→ SlotInv.no_suspend]
    taking := by grind [→ SlotInv.taking]
    waking := by grind [→ SlotInv.waking] }

theorem arm (h : SlotInv cfg a) (hr : a.crole = .arming true)
    (hs : (a.slot (cfg.slotOf a.reads)).armable = true) :
    SlotInv cfg ({ a with crole := .armed }.setSlot (cfg.slotOf a.reads)
      (a.slot (cfg.slotOf a.reads)).arm) :=
  { h with
    writing_slot := by grind [→ SlotInv.writing_slot]
    written_slot := by grind [→ SlotInv.written_slot]
    owner_slotOf := by grind [→ SlotInv.owner_slotOf, → Slot.eq_busy_of_arm]
    owner_writing := by
      intro k q j b l₁ l₂ hk
      have : ∃ b', a.slot k = .busy (.task q j none) b' l₁ l₂ := by grind [→ Slot.eq_busy_of_arm]
      grind [→ SlotInv.owner_writing]
    owner_written := by
      intro k q j w b l₁ l₂ hk
      have : ∃ b', a.slot k = .busy (.task q j (some w)) b' l₁ l₂ := by
        grind [→ Slot.eq_busy_of_arm]
      grind [→ SlotInv.owner_written]
    waiter_parked := by grind [→ SlotInv.waiter_parked, Slot.waiters_arm]
    parked_waiter := by grind [→ SlotInv.parked_waiter, Slot.waiters_arm]
    waiters_nodup := by
      have := h.waiters_nodup
      grind [Slot.waiters_arm]
    handoff_handing := by
      intro k b l₁ l₂ hk
      have : ∃ b', a.slot k = .busy .handoff b' l₁ l₂ := by grind [→ Slot.eq_busy_of_arm]
      grind [→ SlotInv.handoff_handing]
    at_slot := by
      intro _
      show (Function.update a.slot _ _ _).armed = true
      rw [Function.update_self]
      exact Slot.armed_arm hs
    armed_at := by grind [→ SlotInv.armed_at]
    notify_woken := by grind [→ SlotInv.notify_woken]
    no_suspend := by grind [→ SlotInv.no_suspend]
    shut_cut := by grind [→ SlotInv.shut_cut, Slot.arm_eq_shut]
    taking := by grind [→ SlotInv.taking]
    waking := by grind [→ SlotInv.waking] }

theorem take (h : SlotInv cfg a) {l₁ l₂ : List Tid}
    (hr : a.crole = .away ∨ a.crole = .arming true ∨ a.crole = .resumed false)
    (hs : a.slot (cfg.slotOf a.reads) = .full i v l₁ l₂) :
    SlotInv cfg { a with crole := .holding, pulls := a.pulls ++ [.ok i v] } :=
  { h with
    handoff_handing := by grind [→ SlotInv.handoff_handing]
    at_slot := fun _ => ⟨i, v, l₁, l₂, hs⟩
    armed_at := by grind [→ SlotInv.armed_at]
    notify_woken := by grind [→ SlotInv.notify_woken]
    no_suspend := by grind
    taking := by grind [→ SlotInv.taking]
    waking := by grind [→ SlotInv.waking] }

theorem skip (h : SlotInv cfg a) (hr : a.crole = .away ∨ a.crole = .arming false) :
    SlotInv cfg { a with reads := a.reads + 1 } :=
  { h with
    handoff_handing := by grind [→ SlotInv.handoff_handing]
    at_slot := by grind
    armed_at := by grind [→ SlotInv.armed_at]
    taking := by grind [→ SlotInv.taking] }

theorem release (h : SlotInv cfg a) (hr : a.crole = .holding) :
    SlotInv cfg { a with crole := .draining, reads := a.reads + 1 } :=
  { h with
    handoff_handing := by grind [→ SlotInv.handoff_handing]
    at_slot := fun _ => ⟨Nat.succ_pos _, h.at_eq hr (by simp)⟩
    armed_at := by grind [→ SlotInv.armed_at]
    notify_woken := by grind [→ SlotInv.notify_woken]
    no_suspend := by grind
    taking := by grind [→ SlotInv.taking]
    waking := by grind [→ SlotInv.waking] }

/-- The consumer leaves the slot it has drained, free or with the bit that it
holds for the next producer. -/
theorem drain (h : SlotInv cfg a) {l₁ l₂ : List Tid} {y : Slot V} {r : ConsumerRole}
    (hr : a.crole = .draining) (hs : a.slot (cfg.slotOf a.front) = .full i v l₁ l₂)
    (hmem : ∀ q, q ∈ y.waiters ↔ q ∈ l₁ ++ l₂) (hnodup : y.waiters.Nodup)
    (hy : y = .free false ∧ r = .away ∨
      ∃ l q l', y = .busy .handoff false l (q :: l') ∧ r = .handing) :
    SlotInv cfg ({ a with crole := r }.setSlot (cfg.slotOf a.front) y) :=
  have hfront : a.front = a.reads - 1 := if_pos hr
  have hold : (a.slot (cfg.slotOf a.front)).waiters = l₁ ++ l₂ := by rw [hs]; rfl
  { h with
    writing_slot := by grind [→ SlotInv.writing_slot]
    written_slot := by grind [→ SlotInv.written_slot]
    owner_slotOf := by grind [→ SlotInv.owner_slotOf]
    owner_writing := by grind [→ SlotInv.owner_writing]
    owner_written := by grind [→ SlotInv.owner_written]
    waiter_parked := by grind [→ SlotInv.waiter_parked]
    parked_waiter := by grind [→ SlotInv.parked_waiter]
    waiters_nodup := by
      have := h.waiters_nodup
      grind
    handoff_handing := by grind [→ SlotInv.handoff_handing]
    at_slot := by grind
    armed_at := by grind [→ SlotInv.armed_at]
    notify_woken := by grind [→ SlotInv.notify_woken]
    no_suspend := by grind
    shut_cut := by grind [→ SlotInv.shut_cut]
    taking := by grind [→ SlotInv.taking]
    waking := by grind [→ SlotInv.waking] }

theorem wakeProducer (h : SlotInv cfg a) {l₁ l₂ : List Tid} (hr : a.crole = .handing)
    (hp : a.role p = .parked i v)
    (hs : a.slot (cfg.slotOf i) = .busy .handoff false l₁ (p :: l₂)) :
    SlotInv cfg ({ a.claim cfg (cfg.slotOf i) i with crole := .away }.setSlot (cfg.slotOf i)
      (.busy (.task p i none) false l₁ l₂) |>.setRole p (.writing i v)) :=
  have hw : (a.slot (cfg.slotOf i)).waiters = l₁ ++ p :: l₂ := by rw [hs]; rfl
  have hnodup : p ∉ l₁ ++ l₂ := by
    have := h.waiters_nodup (cfg.slotOf i)
    grind
  { h with
    writing_slot := by
      intro q j w hq
      by_cases hqp : q = p
      · obtain ⟨rfl, rfl⟩ : i = j ∧ v = w := by grind
        exact ⟨false, l₁, l₂, by grind⟩
      · grind [→ SlotInv.writing_slot]
    written_slot := by grind [→ SlotInv.written_slot]
    owner_slotOf := by grind [→ SlotInv.owner_slotOf]
    owner_writing := by
      intro k q j b' l₁ l₂ hk
      by_cases hki : k = cfg.slotOf i
      · exact ⟨v, by grind⟩
      · grind [→ SlotInv.owner_writing, → SlotInv.owner_slotOf]
    owner_written := by grind [→ SlotInv.owner_written]
    waiter_parked := by
      intro k q hq
      have hmem : q ≠ p ∧ q ∈ (a.slot k).waiters := by
        by_cases hk : k = cfg.slotOf i
        · subst hk
          simp only [Function.update_self, Slot.waiters, Slot.input, Slot.output] at hq
          rw [hw]
          grind
        · have hself := hs
          have := h.waiter_parked k
          grind
      obtain ⟨j, w, hj, hk⟩ := h.waiter_parked k q hmem.2
      exact ⟨j, w, by grind, hk⟩
    parked_waiter := by grind [→ SlotInv.parked_waiter]
    waiters_nodup := by
      have := h.waiters_nodup
      grind
    handoff_handing := by grind [→ SlotInv.handoff_handing]
    at_slot := fun _ => trivial
    armed_at := by grind [→ SlotInv.armed_at]
    notify_woken := by grind [→ SlotInv.notify_woken]
    no_suspend := by grind
    shut_cut := by grind [→ SlotInv.shut_cut]
    taking := by grind [→ SlotInv.taking]
    waking := by grind [→ SlotInv.waking] }

theorem shutArmed (h : SlotInv cfg a) {c : Nat} (hr : a.stage = .cut p c .casArmed)
    (hs : a.slot (cfg.slotOf c) = .free true) :
    SlotInv cfg ({ a with stage := .cut p c .take, crole := .woken none false }.setSlot
      (cfg.slotOf c) .shut) :=
  have harmed : a.crole = .armed ∧ cfg.slotOf c = cfg.slotOf a.reads :=
    h.armed_at _ (by rw [hs]; rfl)
  { h with
    writing_slot := by grind [→ SlotInv.writing_slot]
    written_slot := by grind [→ SlotInv.written_slot]
    owner_slotOf := by grind [→ SlotInv.owner_slotOf]
    owner_writing := by grind [→ SlotInv.owner_writing]
    owner_written := by grind [→ SlotInv.owner_written]
    waiter_parked := by grind [→ SlotInv.waiter_parked]
    parked_waiter := by grind [→ SlotInv.parked_waiter]
    waiters_nodup := by
      have := h.waiters_nodup
      grind
    handoff_handing := by grind [→ SlotInv.handoff_handing]
    at_slot := fun _ => ⟨p, c, rfl⟩
    armed_at := by
      have := h.armed_at
      grind
    notify_woken := by grind [→ SlotInv.notify_woken]
    no_suspend := by grind [→ SlotInv.no_suspend]
    shut_cut := by grind [→ SlotInv.shut_cut]
    taking := by grind
    waking := by grind }

theorem shutFree (h : SlotInv cfg a) {c : Nat} (hr : a.stage = .cut p c .casFree)
    (hs : a.slot (cfg.slotOf c) = .free false) :
    SlotInv cfg ({ a with stage := .done c }.setSlot (cfg.slotOf c) .shut) :=
  { h with
    writing_slot := by grind [→ SlotInv.writing_slot]
    written_slot := by grind [→ SlotInv.written_slot]
    owner_slotOf := by grind [→ SlotInv.owner_slotOf]
    owner_writing := by grind [→ SlotInv.owner_writing]
    owner_written := by grind [→ SlotInv.owner_written]
    waiter_parked := by grind [→ SlotInv.waiter_parked]
    parked_waiter := by grind [→ SlotInv.parked_waiter]
    waiters_nodup := by
      have := h.waiters_nodup
      grind
    handoff_handing := by grind [→ SlotInv.handoff_handing]
    at_slot := fun hne => (h.at_slot hne).frame rfl (by grind) (by grind) (by grind) (by grind)
      (by grind) (by grind)
    armed_at := by grind [→ SlotInv.armed_at]
    shut_cut := by grind [→ SlotInv.shut_cut]
    taking := by grind
    waking := by grind }

theorem closeTake (h : SlotInv cfg a) {c : Nat} (hr : a.stage = .cut p c .take) :
    SlotInv cfg { a with stage := .cut p c .wake, crole := .woken none true } :=
  have hwoken := (h.taking p c hr).1
  { h with
    handoff_handing := by grind [→ SlotInv.handoff_handing]
    at_slot := fun _ => ⟨p, c, rfl⟩
    armed_at := by grind [→ SlotInv.armed_at]
    notify_woken := by grind [→ SlotInv.notify_woken]
    no_suspend := by grind [→ SlotInv.no_suspend]
    shut_cut := by grind [→ SlotInv.shut_cut]
    taking := by grind
    waking := by grind }

theorem closeWake (h : SlotInv cfg a) {c : Nat} (hr : a.stage = .cut p c .wake) :
    SlotInv cfg { a with stage := .done c, crole := .resumed true } :=
  have hwoken := h.waking p c hr
  { h with
    handoff_handing := by grind [→ SlotInv.handoff_handing]
    at_slot := fun hne => absurd rfl hne
    armed_at := by grind [→ SlotInv.armed_at]
    notify_woken := by grind [→ SlotInv.notify_woken]
    no_suspend := by grind [→ SlotInv.no_suspend]
    shut_cut := by grind [→ SlotInv.shut_cut]
    taking := by grind
    waking := by grind }

theorem move (h : SlotInv cfg a) {a' : Abs V} (hm : Move cfg a a') : SlotInv cfg a' := by
  cases hm with
  | ticket v hr => exact h.setRole (r := .fresh a.tickets v) (by grind) rfl _
  | pass hr => exact h.setRole (r := .passed _ _) (by grind) rfl a.tickets
  | reject hr | rejectShut hr =>
    exact { h.setRole (r := .out) (by grind) rfl a.tickets with }
  | claim hr hs => exact h.claim hr hs
  | park hr hs => exact h.park hr hs
  | emplace hr hs => exact h.emplace hr hs
  | publish hr hs => exact h.publish hr hs
  | publishArmed hr hs => exact h.publishArmed hr hs
  | takeConsumer hr => exact h.takeConsumer hr
  | wakeConsumer hr hc => exact h.wakeConsumer hr hc
  | beginArming hr hcfg =>
    exact h.setConsumer (r := .arming false) (by grind) (fun _ => hcfg) (fun _ => trivial) a.pulls
  | storeSelf hr =>
    exact h.setConsumer (r := .arming true) (by grind) (by grind [→ SlotInv.no_suspend])
      (fun _ => trivial) a.pulls
  | arm hr hs => exact h.arm hr hs
  | take hr hs => exact h.take hr hs
  | reportClosed hr =>
    exact h.setConsumer (r := .away) (by grind) (by grind) (fun _ => trivial) _
  | reportEmpty => exact { h with }
  | withdraw hr =>
    exact h.setConsumer (r := .arming false) (by grind) (by grind [→ SlotInv.no_suspend])
      (fun _ => trivial) a.pulls
  | skip hr => exact h.skip hr
  | release hr => exact h.release hr
  | drainFree hr hs =>
    exact h.drain hr hs (fun _ => Iff.rfl) List.nodup_nil (.inl ⟨rfl, rfl⟩)
  | drainOutput hr hs =>
    have hnodup := h.waiters_nodup (cfg.slotOf a.front)
    rw [hs] at hnodup
    exact h.drain hr hs (fun _ => Iff.rfl) hnodup (.inr ⟨_, _, _, rfl, rfl⟩)
  | @drainInput i v l₁ hr hs hl =>
    have hnodup := h.waiters_nodup (cfg.slotOf a.front)
    rw [hs] at hnodup
    obtain ⟨q, l, hq⟩ := List.exists_cons_of_ne_nil (mt List.reverse_eq_nil_iff.mp hl)
    refine h.drain hr hs ?_ ?_ (.inr ⟨[], q, l, by rw [hq], rfl⟩)
    · simp [Slot.waiters, Slot.input, Slot.output]
    · simpa [Slot.waiters, Slot.input, Slot.output] using hnodup
  | wakeProducer hr hp hs => exact h.wakeProducer hr hp hs
  | win hr | storeAt hr | storeReady hr | leaveAlone hr | lookBusy hr | lookArmed hr | lookFree hr
  | idxBelow hr | idxReached hr =>
    exact h.setStage (by grind) (by grind) rfl (by grind) a.tickets
  | cut hr => exact h.setStage (by grind) (by grind) rfl (by grind) _
  | shutArmed hr hs => exact h.shutArmed hr hs
  | shutFree hr hs => exact h.shutFree hr hs
  | closeTake hr => exact h.closeTake hr
  | closeWake hr => exact h.closeWake hr

theorem rawMove (h : SlotInv cfg a) {a' : Abs V} (hm : RawMove cfg a a') : SlotInv cfg a' := by
  cases hm with
  | move hm => exact h.move hm
  | pass hr => exact h.setRole (r := .passed _ _) (by grind) rfl a.tickets
  | reject hr => exact { h.setRole (r := .out) (by grind) rfl a.tickets with }
  | beginArming hr hcfg =>
    exact h.setConsumer (r := .arming false) (by grind) (fun _ => hcfg) (fun _ => trivial) a.pulls
  | reportClosed hr | reportWoken hr =>
    exact h.setConsumer (r := .away) (by grind) (by grind) (fun _ => trivial) _
  | skip hr => exact h.skip hr
  | idxBelow hr | idxReached hr =>
    exact h.setStage (by grind) (by grind) rfl (by grind) a.tickets

theorem next (h : SlotInv cfg a) {a' : Abs V} (ha : a' = a ∨ RawMove cfg a a') :
    SlotInv cfg a' := by
  rcases ha with rfl | hm
  · exact h
  · exact h.rawMove hm

end SlotInv

end CoroUtil.MpscBounded
