import CoroUtil.MpscBounded.Slots

/-!
# Every move of the slot protocol keeps `Inv`

One lemma for each move, or for each group of moves that change the same part
of the state; a lemma names the fields of `Inv` that speak of that part and the
facts they rest on.  `Inv.move` collects them.
-/

namespace CoroUtil.MpscBounded

open CoroUtil.General

variable {V : Type} {cfg : Config} {a : Abs V}

/-- The closer goes on without touching a slot or the consumer. -/
theorem Inv.setStage (h : Inv cfg a) {st : Stage} (hcut : st.cutoff = a.stage.cutoff)
    (hold : a.stage.waking = false) (hnew : st.waking = false)
    (hndone : ∀ c, a.stage ≠ .done c)
    (hdone : ∀ c, st = .done c → a.crole.stale = true → c ≤ a.reads →
      a.slot (cfg.slotOf c) = .shut)
    (hread : ∀ p c b, st = .cut p c .readIdx → a.crole = .arming b → a.reads < c)
    (hcas : ∀ p c, st = .cut p c .casArmed → c ≤ a.reads) : Inv cfg { a with stage := st } :=
  { h.slots.setStage (fun c hc => hcut ▸ hc) hold hnew hndone a.tickets, h with
    admitted_lt := by grind [→ Inv.admitted_lt]
    claimed_cut := by grind [→ Inv.claimed_cut]
    accounted := by grind [→ Inv.accounted]
    cutoff_lt := by grind [→ Inv.cutoff_lt]
    reads_cut := by grind [→ Inv.reads_cut]
    consumer := h.consumer.frame rfl (by grind) (by grind) (by grind) (by grind) (by grind)
      (by grind)
    take_woken := by grind
    wake_woken := by grind
    stale_done := hdone
    readIdx_arming := hread
    casArmed_reads := hcas }

/-- The consumer goes on; neither role has anything to do with a slot. -/
theorem Inv.setConsumer (h : Inv cfg a) {r : ConsumerRole} (hold : a.crole.idle = true)
    (hnew : r.idle = true) (hcfg : r.suspending = true → cfg.consumerCanSuspend = true)
    (hok : ConsumerOk cfg a r)
    (hdone : ∀ c, a.stage = .done c → r.stale = true → c ≤ a.reads →
      a.slot (cfg.slotOf c) = .shut)
    (hread : ∀ p c b, a.stage = .cut p c .readIdx → r = .arming b → a.reads < c)
      (l : List (Pull V)) :
    Inv cfg { a with crole := r, pulls := l } :=
  { h.slots.setConsumer hold hcfg (fun _ => hok) l, h with
    count := by grind [→ Inv.count]
    consumer := hok
    take_woken := by grind [→ Inv.take_woken]
    wake_woken := by grind [→ Inv.wake_woken]
    stale_done := hdone
    readIdx_arming := hread }

theorem exists_waiting_update {f : Tid → Role V} {p : Tid} {r : Role V} {i : Nat}
    (h : ∃ q, (f q).waiting = some i) (hp : (f p).waiting = some i → r.waiting = some i) :
    ∃ q, (Function.update f p r q).waiting = some i := by
  obtain ⟨q, hq⟩ := h
  by_cases hqp : q = p
  · subst hqp
    exact ⟨q, by rw [Function.update_self]; exact hp hq⟩
  · exact ⟨q, by rw [Function.update_of_ne hqp]; exact hq⟩

/-- A task changes its role; neither role has anything to do with a slot. -/
theorem Inv.setRole (h : Inv cfg a) {p : Tid} {r : Role V}
    (hold : (a.role p).unseen = true) (hnew : r.unseen = true)
    (hkeep : r.ticket = (a.role p).ticket ∨ r.ticket = none ∧ ∀ i, (a.role p).ticket = some i →
      (∃ c, a.stage.cutoff = some c ∧ c ≤ i) ∨ a.slot (cfg.slotOf i) = .shut)
    (hadm : ∀ i c, r.admitted = some i → a.stage.cutoff = some c → i < c) :
    Inv cfg (a.setRole p r) :=
  have htold := Role.ticket_of_unseen hold
  have htnew := Role.ticket_of_unseen hnew
  { h.slots.setRole hold hnew a.tickets, h with
    ticket_lt := by grind [→ Inv.ticket_lt]
    ticket_inj := by grind [→ Inv.ticket_inj]
    waiting_unclaimed := by
      have := h.waiting_unclaimed
      grind
    placed_claimed := by grind [→ Inv.placed_claimed, → Role.placed_of_unseen]
    admitted_lt := by grind [→ Inv.admitted_lt]
    accounted := by
      intro i hi
      rcases h.accounted i hi with hc | hq | hc
      · exact .inl hc
      · rcases hkeep with hk | ⟨-, hk⟩
        · exact .inr (.inl (exists_waiting_update hq (by grind)))
        · by_cases hp : (a.role p).waiting = some i
          · exact .inr (.inr (hk i (by grind)))
          · exact .inr (.inl (exists_waiting_update hq (by grind)))
      · exact .inr (.inr hc)
    consumer := h.consumer.frame rfl (by grind) (by grind) (by grind) (by grind) (by grind)
      (by grind) }

variable {p : Tid} {i : Nat} {v : V}

theorem Inv.ticket (h : Inv cfg a) (v : V) (hr : a.role p = .out) :
    Inv cfg ({ a with tickets := a.tickets + 1 }.setRole p (.fresh a.tickets v)) :=
  { h.slots.setRole (r := .fresh a.tickets v) (by grind) rfl _, h with
    ticket_lt := by grind [→ Inv.ticket_lt]
    ticket_inj := by
      have hlt := h.ticket_lt
      have hinj := h.ticket_inj
      grind
    waiting_unclaimed := by
      have := h.waiting_unclaimed
      grind [→ Inv.claimed_lt]
    placed_claimed := by grind [→ Inv.placed_claimed]
    admitted_lt := by grind [→ Inv.admitted_lt]
    claimed_lt := by grind [→ Inv.claimed_lt]
    accounted := by
      intro i hi
      rcases Nat.lt_succ_iff_lt_or_eq.mp hi with hi | rfl
      · rcases h.accounted i hi with hc | hq | hc
        · exact .inl hc
        · exact .inr (.inl (exists_waiting_update hq (by grind)))
        · exact .inr (.inr hc)
      · exact .inr (.inl ⟨p, by grind⟩)
    consumer := h.consumer.frame rfl (by grind) (by grind) (by grind) (by grind) (by grind)
      (by grind)
    cutoff_lt := by grind [→ Inv.cutoff_lt]
    reads_le := by grind [→ Inv.reads_le] }

theorem Inv.pass (h : Inv cfg a) (hr : a.role p = .fresh i v)
    (hc : ∀ c, a.stage.cutoff = some c → i < c) : Inv cfg (a.setRole p (.passed i v)) :=
  h.setRole (by grind) (by grind) (.inl (by grind)) (by grind)

theorem Inv.reject (h : Inv cfg a) {c : Nat} (hr : a.role p = .fresh i v)
    (hs : a.stage.cutoff = some c) (hc : c ≤ i) : Inv cfg (a.returnPush p v i false) :=
  { h.setRole (r := .out) (by grind) rfl (.inr ⟨rfl, by grind⟩) (by grind) with }

theorem Inv.claim (h : Inv cfg a) {b : Bool} (hr : a.role p = .passed i v)
    (hs : a.slot (cfg.slotOf i) = .free b) :
    Inv cfg (((a.claim cfg (cfg.slotOf i) i).setSlot (cfg.slotOf i)
      (.busy (.task p i none) b [] [])).setRole p (.writing i v)) :=
  have hlt : i < a.tickets := h.ticket_lt p i (by grind)
  have hcut : ∀ c, a.stage.cutoff = some c → i < c := fun c => h.admitted_lt p i c (by grind)
  have hnew : ∀ k, i ∉ a.claimed k := fun k hi => h.waiting_unclaimed p i k hi (by grind)
  have hother : ∀ q, q ≠ p → (a.role q).ticket ≠ some i := by
    intro q hq ht
    exact hq (h.ticket_inj q p i ht (by grind))
  { h.slots.claim hr hs, h with
    ticket_lt := by grind [→ Inv.ticket_lt]
    ticket_inj := by grind [→ Inv.ticket_inj]
    waiting_unclaimed := by
      have := h.waiting_unclaimed
      grind [→ Role.ticket_of_waiting]
    placed_claimed := by grind [→ Inv.placed_claimed]
    admitted_lt := by grind [→ Inv.admitted_lt]
    claimed_lt := by grind [→ Inv.claimed_lt]
    claimed_slot := by grind [→ Inv.claimed_slot]
    claimed_cut := by grind [→ Inv.claimed_cut]
    accounted := by
      intro j hj
      by_cases hij : j = i
      · exact .inl (by grind)
      · rcases h.accounted j hj with hc | hq | hc
        · exact .inl (by grind)
        · exact .inr (.inl (exists_waiting_update hq (by grind)))
        · exact .inr (.inr (by grind))
    count := by grind [→ Inv.count]
    consumer := h.consumer.frame rfl (by grind) (by grind) (by grind) (by grind) (by grind)
      (by grind)
    stale_done := by grind [→ Inv.stale_done] }

theorem Inv.park (h : Inv cfg a) (hr : a.role p = .passed i v)
    (hs : (a.slot (cfg.slotOf i)).held = true) :
    Inv cfg ((a.setSlot (cfg.slotOf i) ((a.slot (cfg.slotOf i)).park p)).setRole p
      (.parked i v)) :=
  have hnot : ∀ k, p ∉ (a.slot k).waiters := by
    intro k hp
    obtain ⟨j, w, hj, -⟩ := h.waiter_parked k p hp
    grind
  { h.slots.park hr hs, h with
    ticket_lt := by
      have := h.ticket_lt
      grind
    ticket_inj := by
      have := h.ticket_inj
      grind
    waiting_unclaimed := by
      have := h.waiting_unclaimed
      grind
    placed_claimed := by grind [→ Inv.placed_claimed]
    admitted_lt := by
      have := h.admitted_lt
      grind
    accounted := by
      intro j hj
      rcases h.accounted j hj with hc | hq | hc | hk
      · exact .inl hc
      · exact .inr (.inl (exists_waiting_update hq (by grind)))
      · exact .inr (.inr (.inl hc))
      · exact .inr (.inr (.inr (by grind [Slot.park_eq_shut])))
    count := by
      have := h.count
      grind [Slot.park_eq_shut, Slot.load_park]
    consumer := h.consumer.frame rfl (by grind [Slot.armed_park]) (by grind) (by grind) (by grind)
      (by grind)
      (by grind)
    stale_done := by grind [→ Inv.stale_done] }

theorem Inv.emplace (h : Inv cfg a) {b : Bool} {l₁ l₂ : List Tid} (hr : a.role p = .writing i v)
    (hs : a.slot (cfg.slotOf i) = .busy (.task p i none) b l₁ l₂) :
    Inv cfg ({ a with constructed := a.constructed ++ [(i, v)] }.setSlot (cfg.slotOf i)
      (.busy (.task p i (some v)) b l₁ l₂) |>.setRole p (.written i v)) :=
  have hw : (a.slot (cfg.slotOf i)).waiters = l₁ ++ l₂ := by rw [hs]; rfl
  { h.slots.emplace hr hs, h with
    ticket_lt := by
      have := h.ticket_lt
      grind
    ticket_inj := by
      have := h.ticket_inj
      grind
    waiting_unclaimed := by
      have := h.waiting_unclaimed
      grind
    placed_claimed := by
      have := h.placed_claimed
      grind
    admitted_lt := by grind [→ Inv.admitted_lt]
    accounted := by
      intro j hj
      rcases h.accounted j hj with hc | hq | hc
      · exact .inl hc
      · exact .inr (.inl (exists_waiting_update hq (by grind)))
      · exact .inr (.inr (by grind))
    count := by grind [→ Inv.count]
    consumer := h.consumer.frame rfl (by grind) (by grind) (by grind) (by grind) (by grind)
      (by grind)
    stale_done := by grind [→ Inv.stale_done] }

theorem Inv.publish (h : Inv cfg a) {l₁ l₂ : List Tid} (hr : a.role p = .written i v)
    (hs : a.slot (cfg.slotOf i) = .busy (.task p i (some v)) false l₁ l₂) :
    Inv cfg ((a.setSlot (cfg.slotOf i) (.full i v l₁ l₂)).returnPush p v i true) :=
  have hw : (a.slot (cfg.slotOf i)).waiters = l₁ ++ l₂ := by rw [hs]; rfl
  { h.slots.publish hr hs, h with
    ticket_lt := by grind [→ Inv.ticket_lt]
    ticket_inj := by grind [→ Inv.ticket_inj]
    waiting_unclaimed := by
      have := h.waiting_unclaimed
      grind
    placed_claimed := by grind [→ Inv.placed_claimed]
    admitted_lt := by grind [→ Inv.admitted_lt]
    accounted := by
      intro j hj
      rcases h.accounted j hj with hc | hq | hc
      · exact .inl hc
      · exact .inr (.inl (exists_waiting_update hq (by grind)))
      · exact .inr (.inr (by grind))
    count := by grind [→ Inv.count]
    consumer := h.consumer.frame rfl (by grind) (by grind) (by grind) (by grind) (by grind)
      (by grind)
    stale_done := by grind [→ Inv.stale_done] }

theorem Inv.publishArmed (h : Inv cfg a) {l₁ l₂ : List Tid} (hr : a.role p = .written i v)
    (hs : a.slot (cfg.slotOf i) = .busy (.task p i (some v)) true l₁ l₂) :
    Inv cfg ({ a with crole := .woken (some p) false }.setSlot (cfg.slotOf i)
      (.full i v l₁ l₂) |>.setRole p (.notify i v)) :=
  have harmed : a.crole = .armed ∧ cfg.slotOf i = cfg.slotOf a.reads :=
    h.armed_at _ (by rw [hs]; rfl)
  have hw : (a.slot (cfg.slotOf i)).waiters = l₁ ++ l₂ := by rw [hs]; rfl
  { h.slots.publishArmed hr hs, h with
    ticket_lt := by
      have := h.ticket_lt
      grind
    ticket_inj := by
      have := h.ticket_inj
      grind
    waiting_unclaimed := by
      have := h.waiting_unclaimed
      grind
    placed_claimed := by
      have := h.placed_claimed
      grind
    admitted_lt := by grind [→ Inv.admitted_lt]
    accounted := by
      intro j hj
      rcases h.accounted j hj with hc | hq | hc
      · exact .inl hc
      · exact .inr (.inl (exists_waiting_update hq (by grind)))
      · exact .inr (.inr (by grind))
    count := by grind [→ Inv.count]
    consumer := ⟨⟨i, v, l₁, l₂, by grind⟩, i, v, by grind⟩
    take_woken := by grind [→ Inv.take_woken]
    wake_woken := by grind [→ Inv.wake_woken]
    stale_done := by grind
    readIdx_arming := by grind }

theorem Inv.takeConsumer (h : Inv cfg a) (hr : a.crole = .woken (some p) false) :
    Inv cfg { a with crole := .woken (some p) true } :=
  { h.slots.takeConsumer hr, h with
    count := by grind [→ Inv.count]
    consumer := h.consumer_eq hr
    take_woken := by grind [→ Inv.take_woken]
    wake_woken := by grind [→ Inv.wake_woken]
    stale_done := by grind
    readIdx_arming := by grind }

theorem Inv.wakeConsumer (h : Inv cfg a) (hr : a.role p = .notify i v)
    (hc : a.crole = .woken (some p) true) :
    Inv cfg ({ a with crole := .resumed false }.returnPush p v i true) :=
  { h.slots.wakeConsumer hr hc, h with
    ticket_lt := by grind [→ Inv.ticket_lt]
    ticket_inj := by grind [→ Inv.ticket_inj]
    waiting_unclaimed := by
      have := h.waiting_unclaimed
      grind
    placed_claimed := by grind [→ Inv.placed_claimed]
    admitted_lt := by grind [→ Inv.admitted_lt]
    accounted := by
      intro j hj
      rcases h.accounted j hj with hk | hq | hk
      · exact .inl hk
      · exact .inr (.inl (exists_waiting_update hq (by grind)))
      · exact .inr (.inr hk)
    count := by grind [→ Inv.count]
    consumer := (h.consumer_eq hc).1
    take_woken := by grind [→ Inv.take_woken]
    wake_woken := by grind [→ Inv.wake_woken]
    stale_done := by grind
    readIdx_arming := by grind }

theorem Inv.arm (h : Inv cfg a) (hr : a.crole = .arming true)
    (hs : (a.slot (cfg.slotOf a.reads)).armable = true) :
    Inv cfg ({ a with crole := .armed }.setSlot (cfg.slotOf a.reads)
      (a.slot (cfg.slotOf a.reads)).arm) :=
  { h.slots.arm hr hs, h with
    accounted := by grind [→ Inv.accounted]
    count := by
      have := h.count
      grind [Slot.arm_eq_shut, Slot.load_arm]
    consumer := by
      show (Function.update a.slot _ _ _).armed = true
      rw [Function.update_self]
      exact Slot.armed_arm hs
    take_woken := by grind [→ Inv.take_woken]
    wake_woken := by grind [→ Inv.wake_woken]
    stale_done := by grind [→ Inv.stale_done]
    readIdx_arming := by grind }

theorem Inv.take (h : Inv cfg a) {l₁ l₂ : List Tid}
    (hr : a.crole = .away ∨ a.crole = .arming true ∨ a.crole = .resumed false)
    (hs : a.slot (cfg.slotOf a.reads) = .full i v l₁ l₂) :
    Inv cfg { a with crole := .holding, pulls := a.pulls ++ [.ok i v] } :=
  { h.slots.take hr hs, h with
    count := by grind [→ Inv.count]
    consumer := ⟨i, v, l₁, l₂, hs⟩
    take_woken := by grind [→ Inv.take_woken]
    wake_woken := by grind [→ Inv.wake_woken]
    stale_done := by grind
    readIdx_arming := by grind }

theorem Inv.skip (h : Inv cfg a) {c : Nat} (hr : a.crole = .away ∨ a.crole = .arming false)
    (hs : a.slot (cfg.slotOf a.reads) = .shut) (hst : a.stage.cutoff = some c) (hc : a.reads < c) :
    Inv cfg { a with reads := a.reads + 1 } :=
  { h.slots.skip hr, h with
    count := by
      intro k hk
      have hfront : a.front = a.reads := if_neg (by grind)
      have hfront' : Abs.front { a with reads := a.reads + 1 } = a.reads + 1 := if_neg (by grind)
      rw [hfront', visits_succ_of_ne (by grind), ← hfront]
      exact h.count k hk
    consumer := by grind
    reads_le := by grind [→ Inv.cutoff_lt]
    reads_cut := by grind
    take_woken := by grind [→ Inv.take_woken]
    wake_woken := by grind [→ Inv.wake_woken]
    stale_done := by grind [→ Inv.stale_done, → Inv.shut_cut]
    readIdx_arming := by grind [→ Inv.readIdx_arming, → Inv.shut_cut]
    casArmed_reads := by grind [→ Inv.casArmed_reads] }

theorem Inv.release (h : Inv cfg a) (hr : a.crole = .holding) :
    Inv cfg { a with crole := .draining, reads := a.reads + 1 } :=
  have hfull : FullAt cfg a a.reads := h.consumer_eq hr
  have hfront : a.front = a.reads := if_neg (by grind)
  { h.slots.release hr, h with
    count := by grind [→ Inv.count]
    consumer := ⟨Nat.succ_pos _, hfull⟩
    reads_le := hfront ▸ h.front_lt_tickets (hfront ▸ hfull.load)
    reads_cut := fun c hc => hfront ▸ h.front_lt_cutoff (hfront ▸ hfull.load) hc
    take_woken := by grind [→ Inv.take_woken]
    wake_woken := by grind [→ Inv.wake_woken]
    stale_done := by grind
    readIdx_arming := by grind
    casArmed_reads := by grind [→ Inv.casArmed_reads] }

/-- The consumer leaves the slot it has drained, free or with the bit that it
holds for the next producer. -/
theorem Inv.drain (h : Inv cfg a) {l₁ l₂ : List Tid} {y : Slot V} {r : ConsumerRole}
    (hr : a.crole = .draining) (hs : a.slot (cfg.slotOf a.front) = .full i v l₁ l₂)
    (hmem : ∀ q, q ∈ y.waiters ↔ q ∈ l₁ ++ l₂) (hnodup : y.waiters.Nodup)
    (hy : y = .free false ∧ r = .away ∨
      ∃ l q l', y = .busy .handoff false l (q :: l') ∧ r = .handing) :
    Inv cfg ({ a with crole := r }.setSlot (cfg.slotOf a.front) y) :=
  have hfront : a.front = a.reads - 1 := if_pos hr
  have hpos : 0 < a.reads := (h.consumer_eq hr).1
  have hold : (a.slot (cfg.slotOf a.front)).waiters = l₁ ++ l₂ := by rw [hs]; rfl
  { h.slots.drain hr hs hmem hnodup hy, h with
    accounted := by grind [→ Inv.accounted]
    count := by
      intro k hk
      have hk' : a.slot k ≠ .shut := by grind
      have hfront' : Abs.front ({ a with crole := r }.setSlot (cfg.slotOf a.front) y) = a.reads :=
        if_neg (by grind)
      have hsucc : a.reads = a.front + 1 := by omega
      rw [hfront', hsucc, visits_succ]
      have := h.count k hk'
      grind
    consumer := by grind
    take_woken := by grind [→ Inv.take_woken]
    wake_woken := by grind [→ Inv.wake_woken]
    stale_done := by grind
    readIdx_arming := by grind }

theorem Inv.wakeProducer (h : Inv cfg a) {l₁ l₂ : List Tid} (hr : a.crole = .handing)
    (hp : a.role p = .parked i v)
    (hs : a.slot (cfg.slotOf i) = .busy .handoff false l₁ (p :: l₂)) :
    Inv cfg ({ a.claim cfg (cfg.slotOf i) i with crole := .away }.setSlot (cfg.slotOf i)
      (.busy (.task p i none) false l₁ l₂) |>.setRole p (.writing i v)) :=
  have hlt : i < a.tickets := h.ticket_lt p i (by grind)
  have hcut : ∀ c, a.stage.cutoff = some c → i < c := fun c => h.admitted_lt p i c (by grind)
  have hnew : ∀ k, i ∉ a.claimed k := fun k hi => h.waiting_unclaimed p i k hi (by grind)
  have hother : ∀ q, q ≠ p → (a.role q).ticket ≠ some i := by
    intro q hq ht
    exact hq (h.ticket_inj q p i ht (by grind))
  have hw : (a.slot (cfg.slotOf i)).waiters = l₁ ++ p :: l₂ := by rw [hs]; rfl
  have hnodup : p ∉ l₁ ++ l₂ := by
    have := h.waiters_nodup (cfg.slotOf i)
    grind
  { h.slots.wakeProducer hr hp hs, h with
    ticket_lt := by grind [→ Inv.ticket_lt]
    ticket_inj := by grind [→ Inv.ticket_inj]
    waiting_unclaimed := by
      have := h.waiting_unclaimed
      grind [→ Role.ticket_of_waiting]
    placed_claimed := by grind [→ Inv.placed_claimed]
    admitted_lt := by grind [→ Inv.admitted_lt]
    claimed_lt := by grind [→ Inv.claimed_lt]
    claimed_slot := by grind [→ Inv.claimed_slot]
    claimed_cut := by grind [→ Inv.claimed_cut]
    accounted := by
      intro j hj
      by_cases hij : j = i
      · exact .inl (by grind)
      · rcases h.accounted j hj with hc | hq | hc
        · exact .inl (by grind)
        · exact .inr (.inl (exists_waiting_update hq (by grind)))
        · exact .inr (.inr (by grind))
    count := by grind [→ Inv.count]
    consumer := trivial
    take_woken := by grind [→ Inv.take_woken]
    wake_woken := by grind [→ Inv.wake_woken]
    stale_done := by grind
    readIdx_arming := by grind }

theorem Inv.win (h : Inv cfg a) (hr : a.stage = .opened) : Inv cfg { a with stage := .won p } :=
  h.setStage (by grind) (by grind) rfl (by grind) (by grind) (by grind) (by grind)

theorem Inv.cut (h : Inv cfg a) (hr : a.stage = .won p) :
    Inv cfg { a with tickets := a.tickets + 1, stage := .cut p a.tickets .storeAt } :=
  { h.slots.setStage (by grind) (by grind) rfl (by grind) _, h with
    ticket_lt := by grind [→ Inv.ticket_lt]
    admitted_lt := by
      intro q i c hq hc
      have := h.ticket_lt q i (Role.ticket_of_admitted hq)
      grind
    claimed_lt := by grind [→ Inv.claimed_lt]
    claimed_cut := by grind [→ Inv.claimed_lt]
    accounted := by
      have := h.accounted
      grind
    consumer := h.consumer.frame rfl (by grind) (by grind) (by grind) (by grind) (by grind)
      (by grind)
    reads_le := by grind [→ Inv.reads_le]
    cutoff_lt := by grind
    reads_cut := by grind [→ Inv.reads_le]
    take_woken := by grind
    wake_woken := by grind
    stale_done := by grind
    readIdx_arming := by grind
    casArmed_reads := by grind }

theorem Inv.leaveAlone (h : Inv cfg a) {c : Nat} (hr : a.stage = .cut p c .look)
    (hcfg : cfg.consumerCanSuspend = false) : Inv cfg { a with stage := .done c } :=
  h.setStage (by grind) (by grind) rfl (by grind)
    (by grind [→ Inv.no_suspend, → ConsumerRole.suspending_of_stale]) (by grind) (by grind)

/-- The closer leaves the slot alone because a producer owns it or has published
in it.  The consumer cannot be about to suspend there: every ticket of the slot
below the cutoff would have been drained. -/
theorem Inv.lookBusy (h : Inv cfg a) {c : Nat} {ph : ClosePhase} (hr : a.stage = .cut p c ph)
    (hph : ph = .look ∨ ph = .casArmed ∨ ph = .casFree)
    (hs : (a.slot (cfg.slotOf c)).held = true) : Inv cfg { a with stage := .done c } := by
  refine h.setStage (by grind) (by grind) rfl (by grind) ?_ (by grind) (by grind)
  intro c' hc' hstale hle
  obtain rfl : c = c' := by grind
  have hfront : a.front = c := by
    have hreads := h.reads_cut c (by grind)
    rw [Abs.front, if_neg (by grind)]
    omega
  have hload : (a.slot (cfg.slotOf a.front)).load ≠ 1 := by
    intro hl
    have := h.front_lt_cutoff (c := c) hl (by grind)
    omega
  rw [hfront] at hload
  cases hk : a.slot (cfg.slotOf c) with
  | free b => rw [hk] at hs; cases hs
  | shut => rfl
  | full i v l₁ l₂ => exact absurd (by rw [hk]; rfl) hload
  | busy o b l₁ l₂ =>
    cases o with
    | task q i w => exact absurd (by rw [hk]; rfl) hload
    | handoff =>
      have := h.handoff_handing _ b l₁ l₂ hk
      grind

theorem Inv.lookArmed (h : Inv cfg a) {c : Nat} {ph : ClosePhase} (hr : a.stage = .cut p c ph)
    (hph : ph = .look ∨ ph = .casArmed ∨ ph = .casFree) (hs : a.slot (cfg.slotOf c) = .free true) :
    Inv cfg { a with stage := .cut p c .readIdx } :=
  have harmed := h.armed_at (cfg.slotOf c) (by rw [hs]; rfl)
  h.setStage (by grind) (by grind) rfl (by grind) (by grind) (by grind) (by grind)

theorem Inv.idxBelow (h : Inv cfg a) {c : Nat} (hr : a.stage = .cut p c .readIdx)
    (hc : a.crole = .armed → a.reads < c) : Inv cfg { a with stage := .done c } := by
  refine h.setStage (by grind) (by grind) rfl (by grind) ?_ (by grind) (by grind)
  intro c' hc' hstale hle
  have := h.readIdx_arming p c
  cases hcr : a.crole <;> simp_all [ConsumerRole.stale] <;> omega

theorem Inv.shutArmed (h : Inv cfg a) {c : Nat} (hr : a.stage = .cut p c .casArmed)
    (hs : a.slot (cfg.slotOf c) = .free true) :
    Inv cfg ({ a with stage := .cut p c .take, crole := .woken none false }.setSlot
      (cfg.slotOf c) .shut) :=
  have harmed : a.crole = .armed ∧ cfg.slotOf c = cfg.slotOf a.reads :=
    h.armed_at _ (by rw [hs]; rfl)
  { h.slots.shutArmed hr hs, h with
    admitted_lt := by grind [→ Inv.admitted_lt]
    claimed_cut := by grind [→ Inv.claimed_cut]
    accounted := by grind [→ Inv.accounted]
    count := by grind [→ Inv.count]
    consumer := ⟨p, c, rfl⟩
    cutoff_lt := by grind [→ Inv.cutoff_lt]
    reads_cut := by grind [→ Inv.reads_cut]
    take_woken := by grind [→ Inv.casArmed_reads]
    wake_woken := by grind
    stale_done := by grind
    readIdx_arming := by grind
    casArmed_reads := by grind }

theorem Inv.shutFree (h : Inv cfg a) {c : Nat} (hr : a.stage = .cut p c .casFree)
    (hs : a.slot (cfg.slotOf c) = .free false) :
    Inv cfg ({ a with stage := .done c }.setSlot (cfg.slotOf c) .shut) :=
  { h.slots.shutFree hr hs, h with
    admitted_lt := by grind [→ Inv.admitted_lt]
    claimed_cut := by grind [→ Inv.claimed_cut]
    accounted := by grind [→ Inv.accounted]
    count := by grind [→ Inv.count]
    consumer := h.consumer.frame rfl (by grind) (by grind) (by grind) (by grind) (by grind)
      (by grind)
    cutoff_lt := by grind [→ Inv.cutoff_lt]
    reads_cut := by grind [→ Inv.reads_cut]
    take_woken := by grind
    wake_woken := by grind
    stale_done := by grind
    readIdx_arming := by grind
    casArmed_reads := by grind }

theorem Inv.closeTake (h : Inv cfg a) {c : Nat} (hr : a.stage = .cut p c .take) :
    Inv cfg { a with stage := .cut p c .wake, crole := .woken none true } :=
  have hwoken : a.crole = .woken none false ∧ c ≤ a.reads := h.take_woken p c hr
  { h.slots.closeTake hr, h with
    admitted_lt := by grind [→ Inv.admitted_lt]
    claimed_cut := by grind [→ Inv.claimed_cut]
    accounted := by grind [→ Inv.accounted]
    count := by grind [→ Inv.count]
    consumer := ⟨p, c, rfl⟩
    cutoff_lt := by grind [→ Inv.cutoff_lt]
    reads_cut := by grind [→ Inv.reads_cut]
    take_woken := by grind
    wake_woken := by grind
    stale_done := by grind
    readIdx_arming := by grind
    casArmed_reads := by grind }

theorem Inv.closeWake (h : Inv cfg a) {c : Nat} (hr : a.stage = .cut p c .wake) :
    Inv cfg { a with stage := .done c, crole := .resumed true } :=
  have hwoken : a.crole = .woken none true ∧ c ≤ a.reads := h.wake_woken p c hr
  { h.slots.closeWake hr, h with
    admitted_lt := by grind [→ Inv.admitted_lt]
    claimed_cut := by grind [→ Inv.claimed_cut]
    accounted := by grind [→ Inv.accounted]
    count := by grind [→ Inv.count]
    consumer := ⟨c, rfl, hwoken.2⟩
    cutoff_lt := by grind [→ Inv.cutoff_lt]
    reads_cut := by grind [→ Inv.reads_cut]
    take_woken := by grind
    wake_woken := by grind
    stale_done := by grind
    readIdx_arming := by grind
    casArmed_reads := by grind }

theorem Inv.move (h : Inv cfg a) {a' : Abs V} (hm : Move cfg a a') : Inv cfg a' := by
  cases hm with
  | ticket v hr => exact h.ticket v hr
  | pass hr hc => exact h.pass hr hc
  | reject hr hs hc => exact h.reject hr hs hc
  | rejectShut hr hs =>
    exact { h.setRole (r := .out) (by grind) rfl (.inr ⟨rfl, by grind⟩) (by grind) with }
  | claim hr hs => exact h.claim hr hs
  | park hr hs => exact h.park hr hs
  | emplace hr hs => exact h.emplace hr hs
  | publish hr hs => exact h.publish hr hs
  | publishArmed hr hs => exact h.publishArmed hr hs
  | takeConsumer hr => exact h.takeConsumer hr
  | wakeConsumer hr hc => exact h.wakeConsumer hr hc
  | beginArming hr hcfg hc =>
    exact h.setConsumer (r := .arming false) (by grind) rfl (fun _ => hcfg) trivial
      (fun c hs _ hle => absurd (hc c (by rw [hs]; rfl)) (by omega))
      (fun q c _ hs _ => hc c (by rw [hs]; rfl)) a.pulls
  | storeSelf hr =>
    exact h.setConsumer (r := .arming true) (by grind) rfl (by grind [→ Inv.no_suspend]) trivial
      (by grind [→ Inv.stale_done]) (by grind [→ Inv.readIdx_arming]) a.pulls
  | arm hr hs => exact h.arm hr hs
  | take hr hs => exact h.take hr hs
  | reportClosed hr hs hc =>
    exact h.setConsumer (r := .away) (by grind) rfl (by grind) trivial (by grind) (by grind) _
  | reportEmpty hr =>
    exact { h with }
  | withdraw hr hs =>
    exact h.setConsumer (r := .arming false) (by grind) rfl (by grind [→ Inv.no_suspend]) trivial
      (by grind [→ Inv.stale_done]) (by grind [→ Inv.readIdx_arming]) a.pulls
  | skip hr hs hst hc => exact h.skip hr hs hst hc
  | release hr => exact h.release hr
  | drainFree hr hs =>
    exact h.drain hr hs (fun _ => Iff.rfl) List.nodup_nil (.inl ⟨rfl, rfl⟩)
  | drainOutput hr hs =>
    have hnodup := h.waiters_nodup (cfg.slotOf a.front)
    rw [hs] at hnodup
    exact h.drain hr hs (fun _ => Iff.rfl) hnodup (.inr ⟨_, _, _, rfl, rfl⟩)
  | @drainInput i v l₁ hr hs hl =>
    have hnodup := h.waiters_nodup (cfg.slotOf a.front)
    rw [hs] at hnodup
    obtain ⟨q, l, hq⟩ := List.exists_cons_of_ne_nil (mt List.reverse_eq_nil_iff.mp hl)
    refine h.drain hr hs ?_ ?_ (.inr ⟨[], q, l, by rw [hq], rfl⟩)
    · simp [Slot.waiters, Slot.input, Slot.output]
    · simpa [Slot.waiters, Slot.input, Slot.output] using hnodup
  | wakeProducer hr hp hs => exact h.wakeProducer hr hp hs
  | win hr => exact h.win hr
  | cut hr => exact h.cut hr
  | storeAt hr | storeReady hr | lookFree hr hph hs =>
    exact h.setStage (by grind) (by grind) rfl (by grind) (by grind) (by grind) (by grind)
  | leaveAlone hr hcfg => exact h.leaveAlone hr hcfg
  | lookBusy hr hph hs => exact h.lookBusy hr hph hs
  | lookArmed hr hph hs => exact h.lookArmed hr hph hs
  | idxBelow hr hc => exact h.idxBelow hr hc
  | idxReached hr hc =>
    exact h.setStage (by grind) (by grind) rfl (by grind) (by grind) (by grind) (by grind)
  | shutArmed hr hs => exact h.shutArmed hr hs
  | shutFree hr hs => exact h.shutFree hr hs
  | closeTake hr => exact h.closeTake hr
  | closeWake hr => exact h.closeWake hr

end CoroUtil.MpscBounded
