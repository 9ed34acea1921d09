import CoroUtil.MpscBounded.Closer

/-!
# The steps of the consumer

Each atomic operation of `pull` and `try_pull`, of `await_suspend` and of
`finish_read` is a move of the slot protocol, or none.  Reversing the input
chain takes one step a link: the part that is turned around and the part that
is left make up the output chain of the protocol all the time.
-/

namespace CoroUtil.MpscBounded

open CoroUtil.General

variable {V : Type} {cfg : Config} {s s' : State V} {a a' : Abs V}

section Pull

variable {idx : Nat} {k : Call} {f : Flags}

/-- The consumer goes on in the same role. -/
theorem Rel.setPc (h : Rel cfg s a) (pc : ConsumerPc) (hknows : pc.Knows cfg s a) :
    Rel cfg (s.setConsumer pc) a := { h with consumer := hknows }

/-- While the consumer runs, no task is waking it. -/
theorem Rel.tasks_frame (h : Rel cfg s a) (hc : ∀ q t, a.crole ≠ .woken (some q) t) (a' : Abs V)
    (hst : a'.stage = a.stage) (q : Tid) : (s.task q).Knows cfg s.next a' q :=
  (h.knows q).frame (fun t ht => absurd ht (hc q t)) (fun hr => hst ▸ hr) rfl

/-- The consumer takes on a new role within a call. -/
theorem Rel.setRunning (h : Rel cfg s a) (r : ConsumerRole) (pc : ConsumerPc)
    (hold : a.crole.idle = true) (hnew : r.calm = true) (hstored : r.stored = a.crole.stored)
    (hknows : pc.Knows cfg s { a with crole := r }) :
    Rel cfg (s.setConsumer pc) { a with crole := r } :=
  h.setCrole r pc (by cases hc : a.crole <;> simp_all [ConsumerRole.idle, ConsumerRole.calm]) hnew
    hstored (h.tasks_frame (by rintro q t hc; simp [hc, ConsumerRole.idle] at hold) _ rfl) hknows

theorem Rel.returnPull (h : Rel cfg s a) (r : Pull V) (hold : a.crole.idle = true)
    (hstored : a.crole.stored = false) :
    Rel cfg (s.returnPull r) { a with crole := .away, pulls := a.pulls ++ [r] } :=
  { h.setRunning .away .idle hold rfl hstored.symm rfl with
    pulls := congrArg (· ++ [r]) h.pulls
    knows := h.tasks_frame (by rintro q t hc; simp [hc, ConsumerRole.idle] at hold) _ rfl }

theorem Rel.elem_data (h : Rel cfg s a) (hc : a.crole ≠ .draining) (idx : Nat) :
    (s.elem cfg idx).data = (a.slot (cfg.slotOf idx)).value := by
  rw [State.elem, h.data, if_neg (fun hd => hc hd.1)]

theorem State.elem_setElem (s : State V) {idx : Nat} {e : Element V} :
    (s.setElem cfg idx e).elem cfg idx = e := Function.update_self ..

theorem State.handOut_of_data {idx : Nat} {e : Nat × V} (h : (s.elem cfg idx).data = some e) :
    s.handOut cfg idx = { s with
      consumer := .holding idx
      pulls := s.pulls ++ [.ok e.1 e.2] } := by
  rw [State.handOut, h]

/-- The consumer is handed the value of the slot it is at. -/
theorem Rel.handOut (h : Rel cfg s a)
    (hold : a.crole = .away ∨ a.crole = .arming true ∨ a.crole = .resumed false) {i : Nat} {v : V}
    {l l' : List Tid} (hs : a.slot (cfg.slotOf a.reads) = .full i v l l') :
    Simulates cfg a ((s.setElem cfg a.reads
      { s.elem cfg a.reads with waitingConsumer := false }).handOut cfg a.reads) := by
  have hcalm : a.crole.calm = true := by rcases hold with hc | hc | hc <;> rw [hc] <;> rfl
  have hnot : ∀ q t, a.crole ≠ .woken (some q) t := by
    rintro q t hw
    rcases hold with hc | hc | hc <;> cases hc.symm.trans hw
  have hdata : (s.elem cfg a.reads).data = some (i, v) := by
    rw [h.elem_data (by rintro hd; rw [hd] at hcalm; cases hcalm), hs]
    rfl
  have hset := h.setStored .holding (.holding a.reads) s.task hcalm rfl (by simp [ConsumerRole.stored])
    (fun q => ⟨rfl, rfl, h.tasks_frame hnot { a with crole := .holding } rfl q⟩) ⟨rfl, rfl⟩
  refine (Move.take hold hs).simulates ?_
  rw [State.handOut_of_data (by rw [State.elem_setElem, hdata])]
  exact
  { hset with
    pulls := congrArg (· ++ [Pull.ok i v]) h.pulls
    knows := h.tasks_frame hnot _ rfl
    consumer := ⟨rfl, rfl⟩ }

/-- The consumer is handed a value without having set `waiting_consumer`. -/
theorem Rel.handOut_free (h : Rel cfg s a) (hold : a.crole = .away ∨ a.crole = .resumed false)
    {i : Nat} {v : V} {l l' : List Tid} (hs : a.slot (cfg.slotOf a.reads) = .full i v l l') :
    Simulates cfg a (s.handOut cfg a.reads) := by
  have hwait : (s.elem cfg a.reads).waitingConsumer = false := by
    rw [← Bool.not_eq_true, State.elem, h.waiting]
    rcases hold with hc | hc <;> simp [hc, ConsumerRole.stored]
  have hsame : { s.elem cfg a.reads with waitingConsumer := false } = s.elem cfg a.reads := by
    rw [← hwait]
  have hset : s.setElem cfg a.reads { s.elem cfg a.reads with waitingConsumer := false } = s := by
    rw [hsame]
    simp only [State.setElem, State.elem, Function.update_eq_self]
  have := h.handOut (by rcases hold with hc | hc <;> simp [hc]) hs
  rwa [hset] at this

theorem Rel.poll (h : Rel cfg s a) (hpc : s.consumer = .poll k) :
    Simulates cfg a (if (s.elem cfg s.readOffset).flags.data then s.handOut cfg s.readOffset
      else s.setConsumer (.loadClosed k s.readOffset (s.elem cfg s.readOffset).flags)) := by
  obtain ⟨hc, hk⟩ : a.crole = .away ∧ (k = .pull → cfg.consumerCanSuspend = true) := by
    have := h.consumer
    rwa [hpc] at this
  rw [h.reads]
  split
  · next hd =>
    rw [h.elem_flags, Slot.data_flags] at hd
    obtain ⟨i, v, l, l', hs⟩ := hd
    exact h.handOut_free (.inl hc) hs
  · refine (h.setPc (.loadClosed k a.reads _) ⟨hc, hk, rfl, ?_⟩).simulates
    rw [h.elem_flags]
    exact Slot.hasCloseSentinel_flags.mp

/-- The consumer found no value and is not past the cutoff. -/
theorem Rel.afterPoll {ok : Prop} (h : Rel cfg s a) (hc : a.crole = .away)
    (hk : k = .pull → cfg.consumerCanSuspend = true)
    (harm : cfg.consumerCanSuspend = true → RawMove cfg a { a with crole := .arming false })
    (hok : cfg.consumerCanSuspend = true → ok → Move cfg a { a with crole := .arming false }) :
    Tracks cfg a ok (s.afterPoll k) := by
  cases k with
  | pull =>
    have hrel := h.setRunning (.arming false) .storeIdx (by rw [hc]; rfl) rfl (by rw [hc]; rfl) rfl
    exact (harm (hk rfl)).tracks hrel fun _ => hok (hk rfl)
  | tryPull =>
    have := h.returnPull .empty (by rw [hc]; rfl) (by rw [hc]; rfl)
    rw [← hc] at this
    exact ((Move.reportEmpty hc).simulates this).tracks ok

theorem Rel.consumerLoadClosed (h : Rel cfg s a) (hpc : s.consumer = .loadClosed k idx f) :
    Tracks cfg a True
      (if s.closed then s.setConsumer (.spinReady k idx f) else s.afterPoll k) := by
  have hknows := h.consumer
  rw [hpc] at hknows
  obtain ⟨hc, hk, hidx, hs⟩ := hknows
  split
  · exact (h.setPc (.spinReady k idx f) ⟨hc, hk, hidx, hs⟩).simulates.tracks _
  · next hcl =>
    have harm : cfg.consumerCanSuspend = true → Move cfg a { a with crole := .arming false } := by
      refine fun hcfg => .beginArming hc hcfg fun c hcut => ?_
      have := h.closed
      cases hst : a.stage <;> simp_all [Stage.closed, Stage.cutoff]
    exact h.afterPoll hc hk (fun hcfg => .move (harm hcfg)) fun hcfg _ => harm hcfg

theorem Rel.consumerSpinReady (h : Rel cfg s a) (hpc : s.consumer = .spinReady k idx f) :
    Simulates cfg a (s.setConsumer
      (if s.closedReady then .loadClosedAt k idx f else .spinReady k idx f)) := by
  have hknows := h.consumer
  rw [hpc] at hknows
  obtain ⟨hc, hk, hidx, hs⟩ := hknows
  split
  · next hr =>
    exact (h.setPc (.loadClosedAt k idx f)
      ⟨hc, hk, hidx, hs, h.closedReady.symm.trans hr⟩).simulates
  · exact (h.setPc (.spinReady k idx f) ⟨hc, hk, hidx, hs⟩).simulates

/-- The consumer leaves a slot that carries the sentinel. -/
theorem Rel.skip (h : Rel cfg s a) (hc : a.crole = .away ∨ a.crole = .arming false)
    (pc : ConsumerPc) (hknows : pc.Knows cfg s { a with reads := a.reads + 1 }) :
    Rel cfg ({ s with readOffset := a.reads + 1 }.setConsumer pc) { a with reads := a.reads + 1 } :=
  have hd : a.crole ≠ .draining ∧ a.crole ≠ .handing := by
    rcases hc with hc | hc <;> simp [hc]
  have hstored : a.crole.stored = false := by rcases hc with hc | hc <;> rw [hc] <;> rfl
  { h with
    reads := rfl
    output := fun k _ => h.output k (fun hh => absurd hh hd.2)
    data := by
      intro k
      have := h.data k
      rw [if_neg (fun hk => hd.1 hk.1)] at this ⊢
      exact this
    waiting := by
      intro k
      have hw : ¬(s.elements k).waitingConsumer = true := by
        rw [h.waiting, hstored]
        simp
      refine ⟨fun hk => absurd hk hw, fun hk => ?_⟩
      rw [hstored] at hk
      cases hk.1
    waitIdx_le := fun k => (h.waitIdx_le k).trans (Nat.le_succ _)
    waitIdx := by
      intro hs
      rw [hstored] at hs
      cases hs
    knows := h.tasks_frame (by rintro q t hw; rcases hc with hc | hc <;> cases hc.symm.trans hw) _ rfl
    consumer := hknows }

theorem Rel.consumerLoadClosedAt (h : Rel cfg s a) (hpc : s.consumer = .loadClosedAt k idx f) :
    Tracks cfg a (cfg.ordered idx s.writeClosedAt = true)
      (if circularLessThan cfg.bits idx s.writeClosedAt then
        if f.hasCloseSentinel then { s with readOffset := idx + 1 }.setConsumer (.poll k)
        else s.afterPoll k
      else s.returnPull .closed) := by
  have hknows := h.consumer
  rw [hpc] at hknows
  obtain ⟨hc, hk, rfl, hs, hready⟩ := hknows
  obtain ⟨c, hcut, rfl⟩ := h.past hready
  split
  · next hcl =>
    split
    · next hf =>
      exact (RawMove.skip (.inl hc) (hs hf) hcut hcl).tracks
        (h.skip (.inl hc) (.poll k) ⟨hc, hk⟩)
        fun _ hok => .skip (.inl hc) (hs hf) hcut (Config.lt_of_ordered hok hcl)
    · refine h.afterPoll hc hk (fun hcfg => .beginArming hc hcfg hcut hcl) fun hcfg hok => ?_
      refine .beginArming hc hcfg fun c' hc' => ?_
      rw [← Option.some.inj (hcut.symm.trans hc')]
      exact Config.lt_of_ordered hok hcl
  · next hcl =>
    have hcl := Bool.not_eq_true _ ▸ hcl
    exact (RawMove.reportClosed (.inl hc) hcut hcl).tracks
      (h.returnPull .closed (by rw [hc]; rfl) (by rw [hc]; rfl))
      fun _ hok => .reportClosed (.inl hc) hcut (Config.le_of_ordered hok hcl)

end Pull

section Arming

variable {idx : Nat} {f : Flags}

/-- The element the consumer is at records the index it waits for. -/
theorem Rel.storeIdx (h : Rel cfg s a) (hpc : s.consumer = .storeIdx) :
    Simulates cfg a ((s.setElem cfg s.readOffset
      { s.elem cfg s.readOffset with waitingConsumerIdx := s.readOffset }).setConsumer
      (.storeSelf s.readOffset)) := by
  have hc : a.crole = .arming false := by
    have := h.consumer
    rwa [hpc] at this
  rw [h.reads]
  have hsame : ∀ k, ∃ n ≤ a.reads, (s.setElem cfg a.reads
      { s.elem cfg a.reads with waitingConsumerIdx := a.reads }).elements k =
        { s.elements k with waitingConsumerIdx := n } := by
    intro k
    by_cases hk : k = cfg.slotOf a.reads
    · refine ⟨a.reads, le_rfl, ?_⟩
      rw [hk]
      exact Function.update_self ..
    · refine ⟨(s.elements k).waitingConsumerIdx, h.waitIdx_le k, ?_⟩
      exact Function.update_of_ne hk ..
  have hrel : Rel cfg ((s.setElem cfg a.reads
      { s.elem cfg a.reads with waitingConsumerIdx := a.reads }).setConsumer
      (.storeSelf a.reads)) a :=
    { h with
      flags := by
        intro k
        obtain ⟨n, -, hk⟩ := hsame k
        exact (congrArg Element.flags hk).trans (h.flags k)
      output := by
        intro k hh
        obtain ⟨n, -, hk⟩ := hsame k
        simp only [State.setConsumer, hk]
        exact h.output k hh
      data := by
        intro k
        obtain ⟨n, -, hk⟩ := hsame k
        exact (congrArg Element.data hk).trans (h.data k)
      waiting := by
        intro k
        obtain ⟨n, -, hk⟩ := hsame k
        simp only [State.setConsumer, hk]
        exact h.waiting k
      waitIdx_le := by
        intro k
        obtain ⟨n, hn, hk⟩ := hsame k
        exact (congrArg Element.waitingConsumerIdx hk).trans_le hn
      waitIdx := by
        intro hst
        rw [hc] at hst
        cases hst
      consumer := by
        refine ⟨hc, rfl, ?_⟩
        simp [State.setConsumer, State.setElem, State.elem] }
  exact hrel.simulates

/-- `waiting_consumer` is set on the slot the consumer is at, or withdrawn. -/
theorem Rel.setArming (h : Rel cfg s a) {b : Bool} (b' : Bool) (hc : a.crole = .arming b)
    (hidx : b' = true → (s.elem cfg a.reads).waitingConsumerIdx = a.reads) (pc : ConsumerPc)
    (hknows : pc.Knows cfg s { a with crole := .arming b' }) :
    Rel cfg ((s.setElem cfg a.reads { s.elem cfg a.reads with waitingConsumer := b' }).setConsumer
      pc) { a with crole := .arming b' } :=
  h.setStored (.arming b') pc s.task (by rw [hc]; rfl) rfl hidx
    (fun q => ⟨rfl, rfl, h.tasks_frame (by rintro q t hw; cases hc.symm.trans hw)
      { a with crole := .arming b' } rfl q⟩) hknows

theorem Rel.storeSelf (h : Rel cfg s a) (hpc : s.consumer = .storeSelf idx) :
    Simulates cfg a ((s.setElem cfg idx { s.elem cfg idx with waitingConsumer := true }).setConsumer
      (.loadFlags idx)) := by
  have hknows := h.consumer
  rw [hpc] at hknows
  obtain ⟨hc, rfl, hidx⟩ := hknows
  exact (Move.storeSelf hc).simulates
    (h.setArming true hc (fun _ => hidx) (.loadFlags a.reads) ⟨rfl, rfl⟩)

/-- What `await_suspend` does with the flags it has loaded. -/
theorem Rel.afterLoadFlags (h : Rel cfg s a) (hi : SlotInv cfg a) (hc : a.crole = .arming true) :
    Simulates cfg a (s.afterLoadFlags a.reads (s.elem cfg a.reads).flags) := by
  rw [State.afterLoadFlags]
  split
  · next hd =>
    rw [h.elem_flags, Slot.data_flags] at hd
    exact (h.setPc (.withdrawData a.reads) ⟨hc, rfl, hd⟩).simulates
  · next hd =>
    split
    · next hs =>
      rw [h.elem_flags, Slot.hasCloseSentinel_flags] at hs
      exact (h.setPc (.withdrawSentinel a.reads) ⟨hc, rfl, hs⟩).simulates
    · next hs =>
      have hcons : (s.elem cfg a.reads).flags.cons = false := by
        rw [h.elem_flags, Slot.cons_flags, ← Bool.not_eq_true]
        intro harmed
        cases hc.symm.trans (hi.armed_at _ harmed).1
      rw [State.check_true _ (by rw [hcons]; rfl)]
      exact (h.setPc (.armCas a.reads (s.elem cfg a.reads).flags)
        ⟨hc, rfl, by simpa using hd, by simpa using hs, hcons⟩).simulates

/-- The consumer can take back what it has stored: nobody else has seen it. -/
theorem Rel.waiting_at (h : Rel cfg s a) (hc : a.crole = .arming true) :
    (s.elem cfg a.reads).waitingConsumer = true :=
  (h.waiting _).mpr ⟨by rw [hc]; rfl, rfl⟩

theorem Rel.withdrawSentinel (h : Rel cfg s a) (hc : a.crole = .arming true)
    (hs : a.slot (cfg.slotOf a.reads) = .shut) :
    Simulates cfg a ((s.setElem cfg a.reads
      { s.elem cfg a.reads with waitingConsumer := false }).setConsumer
      (.sentinelReady a.reads)) :=
  (Move.withdraw hc hs).simulates
    (h.setArming false hc (by simp) (.sentinelReady a.reads) ⟨rfl, rfl, hs⟩)

theorem Rel.sentinelReady (h : Rel cfg s a) (hpc : s.consumer = .sentinelReady idx) :
    Simulates cfg a (s.setConsumer
      (if s.closedReady then .sentinelClosedAt idx else .sentinelReady idx)) := by
  have hknows := h.consumer
  rw [hpc] at hknows
  obtain ⟨hc, hidx, hs⟩ := hknows
  split
  · next hr =>
    exact (h.setPc (.sentinelClosedAt idx)
      ⟨hc, hidx, hs, h.closedReady.symm.trans hr⟩).simulates
  · exact (h.setPc (.sentinelReady idx) ⟨hc, hidx, hs⟩).simulates

theorem Rel.sentinelClosedAt (h : Rel cfg s a) (hpc : s.consumer = .sentinelClosedAt idx) :
    Tracks cfg a (cfg.ordered idx s.writeClosedAt = true)
      (if circularLessThan cfg.bits idx s.writeClosedAt then
        { s with readOffset := idx + 1 }.setConsumer .storeIdx
      else s.returnPull .closed) := by
  have hknows := h.consumer
  rw [hpc] at hknows
  obtain ⟨hc, rfl, hs, hready⟩ := hknows
  obtain ⟨c, hcut, rfl⟩ := h.past hready
  split
  · next hcl =>
    exact (RawMove.skip (.inr hc) hs hcut hcl).tracks (h.skip (.inr hc) .storeIdx hc)
      fun _ hok => .skip (.inr hc) hs hcut (Config.lt_of_ordered hok hcl)
  · next hcl =>
    have hcl := Bool.not_eq_true _ ▸ hcl
    exact (RawMove.reportClosed (.inr hc) hcut hcl).tracks
      (h.returnPull .closed (by rw [hc]; rfl) (by rw [hc]; rfl))
      fun _ hok => .reportClosed (.inr (.inl hc)) hcut (Config.le_of_ordered hok hcl)

theorem Slot.armable_flags {x : Slot V} (hd : x.flags.data = false)
    (hs : x.flags.hasCloseSentinel = false) (hc : x.flags.cons = false) : x.armable = true := by
  cases x with
  | free b => simpa [Slot.flags, Slot.armable] using hc
  | busy o b l l' => simpa [Slot.flags, Slot.armable] using hc
  | full i v l l' => simp [Slot.flags] at hd
  | shut => simp [Slot.flags, Flags.hasCloseSentinel] at hs

/-- `await_suspend` sets `CONS_BIT`. -/
theorem Rel.armCas (h : Rel cfg s a) (hi : SlotInv cfg a) (hpc : s.consumer = .armCas idx f)
    (hf : (s.elem cfg idx).flags = f) :
    Simulates cfg a ((s.setFlags cfg idx { f with cons := true }).setConsumer
      (.suspended idx false)) := by
  have hknows := h.consumer
  rw [hpc] at hknows
  obtain ⟨hc, rfl, hd, hsent, hcons⟩ := hknows
  rw [← hf, h.elem_flags] at hd hsent hcons
  have harm := Slot.armable_flags hd hsent hcons
  have hkeeps : (a.slot (cfg.slotOf a.reads)).Keeps (a.slot (cfg.slotOf a.reads)).arm := by
    cases hs : a.slot (cfg.slotOf a.reads) with
    | free b => exact Slot.keeps_of_free rfl
    | busy o b l l' =>
      cases o with
      | task q i w => exact Slot.keeps_of_owner rfl
      | handoff => cases hc.symm.trans (hi.handoff_handing _ _ _ _ hs).1
    | full i v l l' => simp [hs, Slot.armable] at harm
    | shut => simp [hs, Slot.armable] at harm
  have hset : Rel cfg (s.setFlags cfg a.reads { f with cons := true })
      (a.setSlot (cfg.slotOf a.reads) (a.slot (cfg.slotOf a.reads)).arm) := by
    refine h.setFlags ?_ ?_ ?_ ?_ hkeeps
    · rw [← hf, h.elem_flags, Slot.flags_arm harm]
    · have := h.input (cfg.slotOf a.reads)
      cases hs : a.slot (cfg.slotOf a.reads) <;> simpa [hs, Slot.arm, Slot.input] using this
    · cases a.slot (cfg.slotOf a.reads) <;> rfl
    · rcases a.slot (cfg.slotOf a.reads) with _ | ⟨⟨_, _, _ | _⟩ | _, _, _, _⟩ | _ | _ <;> rfl
  exact (Move.arm hc harm).simulates
    (hset.setCrole .armed (.suspended a.reads false) (by simp [hc, ConsumerRole.calm]) rfl
      (by simp [hc, ConsumerRole.stored])
      (hset.tasks_frame (by rintro q t hw; cases hc.symm.trans hw) _ rfl) ⟨rfl, .inl ⟨rfl, rfl⟩⟩)

theorem Rel.resumed (h : Rel cfg s a) (hi : SlotInv cfg a) {n : Bool}
    (hpc : s.consumer = .resumed idx n) :
    Tracks cfg a True (if n then s.returnPull .closed else s.handOut cfg idx) := by
  have hknows := h.consumer
  rw [hpc] at hknows
  obtain ⟨rfl, hc⟩ := hknows
  cases n with
  | true =>
    refine (RawMove.reportWoken hc).tracks
      (h.returnPull .closed (by rw [hc]; rfl) (by rw [hc]; rfl)) fun hi _ => ?_
    obtain ⟨c, hs, hle⟩ := hi.consumer_eq hc
    exact .reportClosed (.inr (.inr hc)) hs hle
  | false =>
    obtain ⟨i, v, l, l', hs⟩ := hi.at_eq hc (by simp)
    exact (h.handOut_free (.inr hc) hs).tracks _

end Arming

section Drain

variable {idx : Nat} {f : Flags}

/-- The consumer destroys the value of the slot it is at. -/
theorem Rel.release (h : Rel cfg s a) (hi : SlotInv cfg a) (hpc : s.consumer = .holding idx) :
    Simulates cfg a { (s.setElem cfg idx { s.elem cfg idx with data := none }).check
      (s.elem cfg idx).data.isSome with readOffset := idx + 1, consumer := .drainLoad idx } := by
  have hknows := h.consumer
  rw [hpc] at hknows
  obtain ⟨rfl, hc⟩ := hknows
  obtain ⟨i, v, l, l', hs⟩ := hi.at_eq hc (by simp)
  have hdata : (s.elem cfg a.reads).data = some (i, v) := by
    rw [h.elem_data (by rw [hc]; simp), hs]
    rfl
  rw [State.check_true _ (by rw [hdata]; rfl)]
  have hsame : ∀ k, (s.setElem cfg a.reads { s.elem cfg a.reads with data := none }).elements k =
      { s.elements k with
        data := if k = cfg.slotOf a.reads then none else (s.elements k).data } := by
    intro k
    by_cases hk : k = cfg.slotOf a.reads
    · simp [State.setElem, State.elem, hk]
    · simp [State.setElem, hk]
  have hfront : ({ a with crole := .draining, reads := a.reads + 1 } : Abs V).front = a.reads := rfl
  exact (Move.release hc).simulates
    { h with
      reads := rfl
      flags := by
        intro k
        simp only [hsame]
        exact h.flags k
      output := by
        intro k _
        simp only [hsame]
        exact h.output k (fun hh => by cases hc.symm.trans hh)
      data := by
        intro k
        have := h.data k
        rw [hc, if_neg (by simp)] at this
        simp only [hsame, hfront, true_and, this]
      waiting := by
        intro k
        simp only [hsame]
        rw [h.waiting k, hc]
        simp [ConsumerRole.stored]
      waitIdx_le := by
        intro k
        simp only [hsame]
        exact (h.waitIdx_le k).trans (Nat.le_succ _)
      waitIdx := by
        rintro hst
        cases hst
      knows := h.tasks_frame (by rintro q t hw; cases hc.symm.trans hw) _ rfl
      consumer := ⟨rfl, rfl⟩ }

/-- What the consumer finds in the slot it is leaving. -/
theorem Rel.draining (h : Rel cfg s a) (hi : SlotInv cfg a) (hidx : idx + 1 = a.reads)
    (hc : a.crole = .draining) :
    a.front = idx ∧ (s.elem cfg idx).data = none ∧ ∃ i v l l',
      a.slot (cfg.slotOf idx) = .full i v l l' ∧ Linked s.next l.head? l ∧
        Linked s.next (s.elem cfg idx).outputProducers l' ∧
        (s.elem cfg idx).flags = ⟨false, true, false, .ofHead l.head?⟩ := by
  have hfront : a.front = idx := by
    rw [Abs.front, if_pos hc]
    omega
  obtain ⟨i, v, l, l', hs⟩ := hi.full_front (by rw [hc]; rfl)
  rw [hfront] at hs
  refine ⟨hfront, ?_, i, v, l, l', hs, ?_, ?_, ?_⟩
  · rw [State.elem, h.data, if_pos ⟨hc, by rw [hfront]⟩]
  · have := h.input (cfg.slotOf idx)
    rwa [hs] at this
  · have := h.output (cfg.slotOf idx) (fun hh => by cases hc.symm.trans hh)
    rwa [hs] at this
  · rw [h.elem_flags, hs]
    rfl

/-- The consumer changes the slot it is leaving, and the role it is in. -/
theorem Rel.leave (h : Rel cfg s a) (hc : a.crole = .draining ∨ a.crole = .handing)
    (hidx : idx + 1 = a.reads) (r : ConsumerRole) (hr : r = .away ∨ r = .handing)
    (hdata : (s.elem cfg idx).data = none) (x : Slot V) (fl : Flags) (o : Option Tid)
    (hflags : fl = x.flags) (hin : Linked s.next x.input.head? x.input)
    (hout : r = .away → Linked s.next o x.output) (hvalue : x.value = none) (pc : ConsumerPc)
    (hknows : pc.Knows cfg
      (s.setElem cfg idx { s.elem cfg idx with flags := fl, outputProducers := o })
      ({ a with crole := r }.setSlot (cfg.slotOf idx) x)) :
    Rel cfg ((s.setElem cfg idx
        { s.elem cfg idx with flags := fl, outputProducers := o }).setConsumer pc)
      ({ a with crole := r }.setSlot (cfg.slotOf idx) x) := by
  have hnot : ∀ q t, a.crole ≠ .woken (some q) t := by
    rintro q t hw
    rcases hc with hc | hc <;> cases hc.symm.trans hw
  have hstored : a.crole.stored = false ∧ r.stored = false := by
    rcases hc with hc | hc <;> rcases hr with rfl | rfl <;> rw [hc] <;> exact ⟨rfl, rfl⟩
  have hleft : a.reads - 1 = idx := by omega
  have hdrain : r ≠ .draining := by rcases hr with rfl | rfl <;> simp
  have hother : ∀ k, k ≠ cfg.slotOf idx → (s.setElem cfg idx
      { s.elem cfg idx with flags := fl, outputProducers := o }).elements k = s.elements k :=
    fun k hk => Function.update_of_ne hk ..
  have hself : (s.setElem cfg idx
      { s.elem cfg idx with flags := fl, outputProducers := o }).elements (cfg.slotOf idx) =
        { s.elem cfg idx with flags := fl, outputProducers := o } := Function.update_self ..
  have hwait : ∀ k, ((s.setElem cfg idx { s.elem cfg idx with flags := fl, outputProducers := o
      }).elements k).waitingConsumer = (s.elements k).waitingConsumer ∧
      ((s.setElem cfg idx { s.elem cfg idx with flags := fl, outputProducers := o
      }).elements k).waitingConsumerIdx = (s.elements k).waitingConsumerIdx := by
    intro k
    by_cases hk : k = cfg.slotOf idx
    · rw [hk, hself]
      exact ⟨rfl, rfl⟩
    · rw [hother k hk]
      exact ⟨rfl, rfl⟩
  refine
  { h with
    flags := ?_
    input := ?_
    output := ?_
    data := ?_
    waiting := ?_
    waitIdx_le := ?_
    waitIdx := ?_
    knows := h.tasks_frame hnot _ rfl
    consumer := ?_ }
  · intro k
    by_cases hk : k = cfg.slotOf idx
    · simp only [State.setConsumer, hk, hself, Function.update_self]
      exact hflags
    · simp only [State.setConsumer, hother k hk, Function.update_of_ne hk]
      exact h.flags k
  · intro k
    by_cases hk : k = cfg.slotOf idx
    · simp only [State.setConsumer, hk, Function.update_self]
      exact hin
    · simp only [State.setConsumer, Function.update_of_ne hk]
      exact h.input k
  · intro k hh
    by_cases hk : k = cfg.slotOf idx
    · simp only [State.setConsumer, hk, hself, Function.update_self]
      refine hout ?_
      rcases hr with rfl | rfl
      · rfl
      · exact absurd (by rw [hk, hleft]) (hh rfl)
    · simp only [State.setConsumer, hother k hk, Function.update_of_ne hk]
      exact h.output k (fun _ => by rwa [hleft])
  · intro k
    rw [if_neg (fun hd => hdrain hd.1)]
    by_cases hk : k = cfg.slotOf idx
    · simp only [State.setConsumer, hk, hself, Function.update_self]
      rw [hdata, hvalue]
    · simp only [State.setConsumer, hother k hk, Function.update_of_ne hk]
      have := h.data k
      rwa [if_neg] at this
      rintro ⟨hd, hf⟩
      rw [Abs.front, if_pos hd, hleft] at hf
      exact hk hf
  · intro k
    simp only [State.setConsumer, (hwait k).1]
    have := h.waiting k
    simpa [hstored] using this
  · intro k
    simp only [State.setConsumer, (hwait k).2]
    exact h.waitIdx_le k
  · intro hst
    rw [hstored.2] at hst
    cases hst
  · exact hknows.frame rfl rfl id (fun _ hs => hs) (fun _ _ _ l _ hs => ⟨l, hs, id⟩)
      (fun _ l _ hs => ⟨l, hs, fun _ _ => rfl⟩) (fun _ => rfl) (fun _ => rfl)

/-- What `consumer_drain_and_handoff` does with the flags it has loaded. -/
theorem Rel.drainLoad (h : Rel cfg s a) (hi : SlotInv cfg a) (hpc : s.consumer = .drainLoad idx) :
    Simulates cfg a (s.afterDrainLoad cfg idx (s.elem cfg idx).flags) := by
  have hknows := h.consumer
  rw [hpc] at hknows
  obtain ⟨hidx, hc⟩ := hknows
  obtain ⟨hfront, -, i, v, l, l', hs, hl, hl', hflags⟩ := h.draining hi hidx hc
  rw [State.afterDrainLoad]
  have hhead := hl'.head_eq
  split
  · next ho =>
    rw [hhead] at ho
    cases l' with
    | nil => cases ho
    | cons p l' =>
      exact (h.setPc (.handoffCas idx (s.elem cfg idx).flags)
        ⟨hidx, hc, by rw [hflags], by rw [hflags], i, v, l, p, l', hs⟩).simulates
  · next ho =>
    rw [hhead] at ho
    cases l' with
    | cons p l' => exact absurd rfl ho
    | nil =>
      rw [State.check_true _ (by rw [hflags]; rfl)]
      split
      · exact (h.setPc (.drainCas idx) ⟨hidx, hc, i, v, l, hs⟩).simulates
      · next hne =>
        refine (h.setPc (.drainExchange idx) ⟨hidx, hc, i, v, l, hs, ?_⟩).simulates
        rintro rfl
        exact hne hflags

theorem Rel.handoffLoad (h : Rel cfg s a) (hi : SlotInv cfg a) (hpc : s.consumer = .handoffCas idx f) :
    Simulates cfg a (s.setConsumer (.handoffCas idx (s.elem cfg idx).flags)) := by
  have hknows := h.consumer
  rw [hpc] at hknows
  obtain ⟨hidx, hc, -, -, hs⟩ := hknows
  obtain ⟨-, -, i, v, l, l', -, -, -, hflags⟩ := h.draining hi hidx hc
  exact (h.setPc (.handoffCas idx (s.elem cfg idx).flags)
    ⟨hidx, hc, by rw [hflags], by rw [hflags], hs⟩).simulates

/-- The slot is handed to the first producer of the output chain. -/
theorem Rel.handoffCas (h : Rel cfg s a) (hi : SlotInv cfg a) (hpc : s.consumer = .handoffCas idx f)
    (hf : (s.elem cfg idx).flags = f) : ∃ p, (s.elem cfg idx).outputProducers = some p ∧
    Simulates cfg a ((s.setElem cfg idx { s.elem cfg idx with
      flags := ⟨true, false, false, f.chain⟩
      outputProducers := s.next p }).setConsumer (.resumeProducer idx p)) := by
  have hknows := h.consumer
  rw [hpc] at hknows
  obtain ⟨hidx, hc, -, -, i, v, l, p, l', hs⟩ := hknows
  obtain ⟨hfront, hdata, j, w, m, m', hs', hl, hl', hflags⟩ := h.draining hi hidx hc
  obtain ⟨rfl, rfl, rfl, rfl⟩ : i = j ∧ v = w ∧ l = m ∧ p :: l' = m' := by
    simpa using hs.symm.trans hs'
  obtain ⟨hp, hrest⟩ := hl'
  refine ⟨p, hp, ?_⟩
  have hmove : Move cfg a _ := Move.drainOutput hc (hfront ▸ hs)
  rw [hfront] at hmove
  refine hmove.simulates (h.leave (.inl hc) hidx .handing (.inr rfl) hdata
    (.busy .handoff false l (p :: l')) _ _ ?_ hl (by simp) rfl (.resumeProducer idx p) ?_)
  · rw [← hf, hflags]
    rfl
  · refine ⟨hidx, rfl, l, l', Function.update_self .., ?_⟩
    rw [State.elem_setElem]
    exact hrest

theorem Rel.drainCas (h : Rel cfg s a) (hi : SlotInv cfg a) (hpc : s.consumer = .drainCas idx) :
    Simulates cfg a (if (s.elem cfg idx).flags = ⟨false, true, false, .null⟩ then
        (s.setFlags cfg idx .zero).setConsumer .idle
      else s.setConsumer (.drainExchange idx)) := by
  have hknows := h.consumer
  rw [hpc] at hknows
  obtain ⟨hidx, hc, i, v, l, hs⟩ := hknows
  obtain ⟨hfront, hdata, j, w, m, m', hs', hl, hl', hflags⟩ := h.draining hi hidx hc
  obtain ⟨rfl, rfl, rfl, rfl⟩ : i = j ∧ v = w ∧ l = m ∧ [] = m' := by
    simpa using hs.symm.trans hs'
  split
  · next hnull =>
    have hnil : l = [] := by
      rw [hflags] at hnull
      cases l with
      | nil => rfl
      | cons p l => simp [ChainPtr.ofHead] at hnull
    subst hnil
    have hmove : Move cfg a _ := Move.drainFree hc (hfront ▸ hs)
    rw [hfront] at hmove
    exact hmove.simulates (h.leave (.inl hc) hidx .away (.inl rfl) hdata (.free false) _ _ rfl rfl
      (fun _ => hl') rfl .idle rfl)
  · next hnull =>
    refine (h.setPc (.drainExchange idx) ⟨hidx, hc, i, v, l, hs, ?_⟩).simulates
    rintro rfl
    exact hnull hflags

/-- The input chain is taken, to be reversed. -/
theorem Rel.drainExchange (h : Rel cfg s a) (hi : SlotInv cfg a)
    (hpc : s.consumer = .drainExchange idx) :
    Simulates cfg a ((s.setFlags cfg idx ⟨true, false, false, .null⟩).setConsumer
      (.reverse idx none (s.elem cfg idx).flags.chainPtr)) := by
  have hknows := h.consumer
  rw [hpc] at hknows
  obtain ⟨hidx, hc, i, v, l, hs, hne⟩ := hknows
  obtain ⟨hfront, hdata, j, w, m, m', hs', hl, -, hflags⟩ := h.draining hi hidx hc
  obtain ⟨rfl, rfl, rfl, rfl⟩ : i = j ∧ v = w ∧ l = m ∧ [] = m' := by
    simpa using hs.symm.trans hs'
  rw [hflags, Flags.chainPtr_ofHead]
  have hmove : Move cfg a _ := Move.drainInput hc (hfront ▸ hs) hne
  rw [hfront] at hmove
  refine hmove.simulates (h.leave (.inl hc) hidx .handing (.inr rfl) hdata
    (.busy .handoff false [] l.reverse) _ _ rfl rfl (by simp) rfl (.reverse idx none l.head?) ?_)
  refine ⟨hidx, rfl, [], [], l, ?_, rfl, hl⟩
  rw [List.append_nil]
  exact Function.update_self ..

theorem Rel.suspended_of_waiter (h : Rel cfg s a) (hi : SlotInv cfg a) {p : Tid} {k : Nat}
    (hk : p ∈ (a.slot k).waiters) : ∃ i v, s.task p = .suspended v i ∧ cfg.slotOf i = k := by
  obtain ⟨i, v, hp, hslot⟩ := hi.waiter_parked k p hk
  refine ⟨i, v, ?_, hslot⟩
  rw [h.role] at hp
  cases hpc : s.task p <;> simp_all [Pc.role]

/-- One link of the chain is turned around. -/
theorem Rel.reverse (h : Rel cfg s a) (hi : SlotInv cfg a) {prev : Option Tid} {p : Tid}
    (hpc : s.consumer = .reverse idx prev (some p)) :
    Simulates cfg a ({ s with next := Function.update s.next p prev }.setConsumer
      (.reverse idx (some p) (s.next p))) := by
  have hknows := h.consumer
  rw [hpc] at hknows
  obtain ⟨hidx, hc, l, done, left, hs, hprev, hcurr⟩ := hknows
  obtain ⟨left, rfl, hleft⟩ := linked_some.mp hcurr
  have hnodup := hi.waiters_nodup (cfg.slotOf idx)
  rw [hs] at hnodup
  simp only [Slot.waiters, Slot.input, Slot.output, List.reverse_cons, List.append_assoc,
    List.singleton_append, List.nodup_append, List.nodup_cons, List.nodup_reverse, List.mem_append,
    List.mem_cons, List.mem_reverse] at hnodup
  obtain ⟨-, ⟨-, ⟨hdone, -⟩, hleftdone⟩, hl⟩ := hnodup
  have hwaits : p ∈ (a.slot (cfg.slotOf idx)).waiters := by simp [hs, Slot.waiters, Slot.output]
  obtain ⟨i, v, htask, -⟩ := h.suspended_of_waiter hi hwaits
  have hpleft : p ∉ left := fun hp => hleftdone p hp p (.inl rfl) rfl
  have hpl : p ∉ l := fun hp => hl p hp p (by simp) rfl
  have hpk : ∀ k, k ≠ cfg.slotOf idx → p ∉ (a.slot k).waiters :=
    fun k hk hp => hk (hi.waiter_unique hp hwaits)
  have hreads : a.reads - 1 = idx := by omega
  have hrel : Rel cfg ({ s with next := Function.update s.next p prev }.setConsumer
      (.reverse idx (some p) (s.next p))) a :=
    { h with
      input := by
        intro k
        refine (h.input k).update ?_ prev
        by_cases hk : k = cfg.slotOf idx
        · rw [hk, hs]
          exact hpl
        · exact fun hp => hpk k hk (List.mem_append_left _ hp)
      output := by
        intro k hh
        refine (h.output k hh).update ?_ prev
        have hk := hh hc
        rw [hreads] at hk
        exact fun hp => hpk k hk (List.mem_append_right _ hp)
      knows := by
        intro q
        by_cases hq : q = p
        · rw [hq, show (State.setConsumer { s with next := Function.update s.next p prev }
            (.reverse idx (some p) (s.next p))).task p = .suspended v i from htask]
          trivial
        · exact (h.knows q).frame (fun _ _ => ⟨rfl, rfl⟩) id (Function.update_of_ne hq ..)
      consumer := by
        refine ⟨hidx, hc, l, p :: done, left, ?_, hprev.push hdone, hleft.update hpleft prev⟩
        rw [hs, List.reverse_cons, List.append_assoc, List.singleton_append] }
  exact hrel.simulates

/-- The reversed chain is stored back. -/
theorem Rel.afterReverse (h : Rel cfg s a) (hi : SlotInv cfg a) {prev : Option Tid}
    (hpc : s.consumer = .reverse idx prev none) :
    Simulates cfg a (s.afterReverse cfg idx prev) := by
  have hknows := h.consumer
  rw [hpc] at hknows
  obtain ⟨hidx, hc, l, done, left, hs, hprev, hcurr⟩ := hknows
  rw [linked_none.mp hcurr, List.reverse_nil, List.nil_append] at hs
  have hreads : a.reads - 1 = idx := by omega
  obtain ⟨m, p, m', hs'⟩ := hi.at_eq hc (by simp)
  rw [hreads, hs] at hs'
  obtain ⟨rfl, rfl⟩ : l = m ∧ done = p :: m' := by simpa using hs'
  obtain ⟨rfl, hrest⟩ := hprev
  have hdata : (s.elem cfg idx).data = none := by
    rw [h.elem_data (by rw [hc]; simp), hs]
    rfl
  have hin := h.input (cfg.slotOf idx)
  rw [hs] at hin
  have hleave := h.leave (.inr hc) hidx .handing (.inr rfl) hdata (.busy .handoff false l (p :: m'))
    (s.elem cfg idx).flags (s.next p) (by rw [h.elem_flags, hs]) hin (by simp) rfl
    (.resumeProducer idx p) (by
      refine ⟨hidx, rfl, l, m', Function.update_self .., ?_⟩
      rw [State.elem_setElem]
      exact hrest)
  have hsame : ({ a with crole := .handing } : Abs V).setSlot (cfg.slotOf idx)
      (.busy .handoff false l (p :: m')) = a := by
    rw [Abs.setSlot, ← hs, Function.update_eq_self, ← hc]
  rw [hsame] at hleave
  exact hleave.simulates

/-- The producer that was given the slot is resumed. -/
theorem Rel.resumeProducer (h : Rel cfg s a) (hi : SlotInv cfg a) {p : Tid}
    (hpc : s.consumer = .resumeProducer idx p) :
    Simulates cfg a ((s.resumeProducer p).setConsumer .idle) := by
  have hknows := h.consumer
  rw [hpc] at hknows
  obtain ⟨hidx, hc, l, l', hs, hl'⟩ := hknows
  obtain ⟨i, v, htask, hslot⟩ := h.suspended_of_waiter (p := p) (k := cfg.slotOf idx) hi
    (by simp [hs, Slot.waiters, Slot.output])
  have hrole : a.role p = .parked i v := h.role_eq htask
  have hdata : (s.elem cfg idx).data = none := by
    rw [h.elem_data (by rw [hc]; simp), hs]
    rfl
  have hin := h.input (cfg.slotOf idx)
  rw [hs] at hin
  have hleave := h.leave (.inr hc) hidx .away (.inl rfl) hdata (.busy (.task p i none) false l l')
    (s.elem cfg idx).flags (s.elem cfg idx).outputProducers (by rw [h.elem_flags, hs]; rfl) hin
    (fun _ => hl') rfl .idle rfl
  have hsame : s.setElem cfg idx { s.elem cfg idx with } = s := by
    simp only [State.setElem, State.elem, Function.update_eq_self]
  rw [hsame] at hleave
  have hgo := hleave.goto p (.emplace v i) (by rw [State.setConsumer, htask]; rfl) trivial
  rw [State.resumeProducer, htask]
  refine (Move.wakeProducer hc hrole (hslot ▸ hs)).simulates ?_
  rw [← hslot] at hgo
  exact
  { hgo with
    knows := fun q => (hgo.knows q).frame (fun _ _ => ⟨rfl, rfl⟩) id rfl
    consumer := hgo.consumer }

end Drain

end CoroUtil.MpscBounded
