import CoroUtil.SpscBounded.Window

/-!
# The steps of the producer

Each step keeps the invariant.  The moves that no one else can see are
`Inv.quiet`; the others are the pointer that parks the producer, the values it
constructs, the flags it stores behind the first slot, the exchange in the first
slot, the mark of `close()` and the resumption of the consumer.
-/

namespace CoroUtil.SpscBounded

open CoroUtil.General

variable {V : Type} {cfg : Config} {s s' : State V}

/-- A suspended consumer has nothing to read, unless the producer is about to
resume it. -/
theorem State.consumerOk_congr (h : s.consumerOk cfg) (hwakes : s.producer.wakes = false)
    (hc : s'.consumer = s.consumer) (hr : s'.readOffset = s.readOffset)
    (hw : s'.writeOffset = s.writeOffset) (hm : s'.marked = s.marked)
    (hwaits : ∀ n, s.producer.waitsFor = some n → s'.producer.waitsFor = some n) :
    s'.consumerOk cfg := by
  rw [State.consumerOk, hc, hr, hw, hm]
  rw [State.consumerOk] at h
  cases hpc : s.consumer with
  | suspended idx n =>
    rw [hpc] at h
    obtain ⟨hidx, hcan, hlt, hmark, hn⟩ := h
    refine ⟨hidx, hcan, fun hl => ?_, fun hl => ?_, fun hl => ?_⟩
    · rw [hlt hl] at hwakes
      cases hwakes
    · rcases hmark hl with hp | hp
      all_goals
        rw [hp] at hwakes
        cases hwakes
    · rw [hn hl] at hwakes
      cases hwakes
  | resumeProducer =>
    rw [hpc] at h
    exact hwaits _ h
  | _ =>
    rw [hpc] at h
    exact h

theorem Inv.quiet (h : Inv cfg s) {pc : ProducerPc V} (hshown : pc.shown = s.producer.shown)
    (hwakes : s.producer.wakes = false) (hp : (s.setProducer pc).producerOk cfg) :
    Inv cfg (s.setProducer pc) := by
  simp only [ProducerPc.shown, Prod.mk.injEq] at hshown
  obtain ⟨hbuilt, hstored, hwaits, hmark⟩ := hshown
  have hmarked : (s.setProducer pc).marked = s.marked := by
    simp only [State.marked, State.setProducer, hmark]
  refine h.setProducer ?_ hp
    (State.consumerOk_congr h.consumer hwakes rfl rfl rfl hmarked fun n hn => hwaits.trans hn)
  rw [State.view, hmarked]
  simp only [State.setProducer, hbuilt, hstored, hwaits]
  rfl

theorem Inv.call (h : Inv cfg s) {pc : ProducerPc V} {b : Bool} (hstep : s.call pc b = some s')
    (hshown : pc.shown = ([], 0, none, false))
    (hp : b = true → (s.setProducer pc).producerOk cfg) : Inv cfg s' := by
  simp only [State.call] at hstep
  split at hstep
  · next hpc =>
    split at hstep <;> cases hstep
    next hb => exact h.quiet (by rw [hpc, hshown]; rfl) (by rw [hpc]; rfl) (hp hb)
  · cases hstep

theorem Inv.pushPoll (h : Inv cfg s) (hb : Straight cfg s) {v : V}
    (hpc : s.producer = .pushPoll v) :
    Inv cfg (s.setProducer (if (s.elem cfg s.writeOffset).flags ≠ .data then
      .emplace v s.writeOffset else .pushPark v s.writeOffset)) := by
  have hopen := h.producer
  rw [State.producerOk, hpc] at hopen
  have hiff := h.poll_iff hb (marked_of_open hopen) (by rw [hpc]; rfl) (by rw [hpc]; rfl) le_rfl
    (Nat.lt_add_of_pos_right cfg.capacity_pos) (Nat.le_add_right ..)
  split_ifs with hf
  · rw [Ne, hiff, Nat.not_le] at hf
    exact h.quiet (by rw [hpc]; rfl) (by rw [hpc]; rfl) (And.intro hopen (And.intro rfl hf))
  · exact h.quiet (by rw [hpc]; rfl) (by rw [hpc]; rfl) (And.intro hopen rfl)

theorem Inv.tryPoll (h : Inv cfg s) (hb : Straight cfg s) {v : V}
    (hpc : s.producer = .tryPoll v) :
    Inv cfg (s.setProducer (if (s.elem cfg s.writeOffset).flags = .data then .idle
      else .emplace v s.writeOffset)) := by
  have hopen := h.producer
  rw [State.producerOk, hpc] at hopen
  have hiff := h.poll_iff hb (marked_of_open hopen) (by rw [hpc]; rfl) (by rw [hpc]; rfl) le_rfl
    (Nat.lt_add_of_pos_right cfg.capacity_pos) (Nat.le_add_right ..)
  split_ifs with hf
  · exact h.quiet (by rw [hpc]; rfl) (by rw [hpc]; rfl) trivial
  · rw [hiff, Nat.not_le] at hf
    exact h.quiet (by rw [hpc]; rfl) (by rw [hpc]; rfl) (And.intro hopen (And.intro rfl hf))

theorem Inv.bulkPoll (h : Inv cfg s) (hb : Straight cfg s) {vs : List V}
    (hpc : s.producer = .bulkPoll vs) (hlen : vs.length ≠ 0) :
    Inv cfg (s.setProducer
      (if (s.elem cfg (s.writeOffset + vs.length - 1)).flags ≠ .data then
        .bulkFirst vs s.writeOffset else .bulkPark vs s.writeOffset)) := by
  have hok := h.producer
  rw [State.producerOk, hpc] at hok
  obtain ⟨hopen, hcap⟩ := hok
  have hcount : s.producer.count = vs.length := by rw [hpc]; rfl
  have hiff := h.poll_iff hb (marked_of_open hopen) (by rw [hpc]; rfl) (by rw [hpc]; rfl)
    (n := s.writeOffset + vs.length - 1) (by omega) (by omega) (by omega)
  split_ifs with hf
  · rw [Ne, hiff, Nat.not_le] at hf
    exact h.quiet (by rw [hpc]; rfl) (by rw [hpc]; rfl)
      (And.intro hopen (And.intro rfl
        (And.intro (by omega) (by dsimp only [State.setProducer]; omega))))
  · exact h.quiet (by rw [hpc]; rfl) (by rw [hpc]; rfl)
      (And.intro hopen (And.intro rfl (And.intro (by omega) hcap)))

/-- The slot of the last index the producer needs is the one its pointer goes to. -/
theorem Inv.park (h : Inv cfg s) (hb : Straight cfg s) {pc : ProducerPc V} {n : Nat}
    (hopen : s.closed = false) (hshown : s.producer.shown = ([], 0, none, false))
    (hwakes : s.producer.wakes = false) (hn : s.writeOffset ≤ n)
    (hlt : n < s.writeOffset + cfg.capacity) (hc : n ≤ s.writeOffset + s.producer.count)
    (hf : (s.elem cfg n).flags = .data)
    (hpc : pc.shown = ([], 0, some n, false))
    (hp : s.readOffset + cfg.capacity ≤ n → (s.setProducer pc).producerOk cfg) :
    Inv cfg ((s.setFlags cfg n .producer).setProducer pc) := by
  simp only [ProducerPc.shown, Prod.mk.injEq] at hshown hpc
  obtain ⟨hbuilt, hstored, hwaits, -⟩ := hshown
  obtain ⟨hbuilt', hstored', hwaits', -⟩ := hpc
  have hin := (h.poll_iff hb (marked_of_open hopen) hwaits hstored hn hlt hc).mp hf
  have hfull := h.full
  have hle := h.le
  have hcapn : n - cfg.capacity + cfg.capacity = n := by omega
  have hm : s.marked = false := by simp [State.marked, hopen]
  have hm' : ((s.setFlags cfg n .producer).setProducer pc).marked = s.marked := by
    rw [hm]
    simp [State.marked, State.setProducer, State.setFlags, hopen]
  have hview : ((s.setFlags cfg n .producer).setProducer pc).view =
      { s.view with waitsFor := some n } := by
    rw [State.view, hm']
    simp only [State.setProducer, State.setFlags, hbuilt', hstored', hwaits', State.view, hbuilt,
      hstored]
  refine ⟨h.pushed, h.le, h.full, h.handed, ?_, hp hin, ?_, h.unbroken⟩
  · rw [hview]
    refine h.ring_setFlags (n := n - cfg.capacity) ?_ (by omega) (by omega) ?_ ?_ fun _ => rfl
    · rw [hb n hc, ← hcapn, Nat.add_mod_right, Nat.add_sub_cancel]
    · simp only [View.flagsAt, State.view, hcapn]
      rw [if_pos (by omega), if_true]
    · intro m _ _ hne
      have hne' : ¬ n = m + cfg.capacity := by omega
      simp [View.flagsAt, State.view, hwaits, hne']
  · refine State.consumerOk_congr h.consumer hwakes rfl rfl rfl hm' fun m hm => ?_
    rw [hwaits] at hm
    cases hm

theorem Inv.freeing_lt (h : Inv cfg s) (hf : s.consumer.freeing = true) :
    s.readOffset < s.writeOffset := by
  have hc := h.consumer
  cases hpc : s.consumer with
  | freeSlot idx =>
    rw [State.consumerOk, hpc] at hc
    exact hc.2
  | _ =>
    rw [hpc] at hf
    cases hf

theorem getElem?_concat_of_ne {l : List V} {v : V} {m : Nat} (hm : m ≠ l.length) :
    (l ++ [v])[m]? = l[m]? := by
  rcases Nat.lt_or_gt_of_ne hm with hlt | hgt
  · exact List.getElem?_append_left hlt
  · rw [List.getElem?_eq_none hgt.le, List.getElem?_eq_none]
    rw [List.length_append, List.length_singleton]
    exact hgt

theorem Inv.construct (h : Inv cfg s) (hb : Straight cfg s) {pc : ProducerPc V} {n : Nat} {v : V}
    (hn : n = s.writeOffset + s.producer.built.length) (hin : n < s.readOffset + cfg.capacity)
    (hc : n ≤ s.writeOffset + s.producer.count) (hwakes : s.producer.wakes = false)
    (hbuilt : pc.built = s.producer.built ++ [v]) (hstored : pc.stored = s.producer.stored)
    (hwaits : pc.waitsFor = s.producer.waitsFor) (hmark : pc.beforeMark = s.producer.beforeMark)
    (hp : (s.setProducer pc).producerOk cfg) :
    Inv cfg ((s.construct cfg n (some v)).setProducer pc) := by
  have hle := h.le
  have hlen : n = s.view.values.length := by
    rw [hn, ← h.pushed]
    exact List.length_append.symm
  have hfree : s.view.freeing = true → n ≠ s.view.readOffset := by
    intro hf
    have hlt := h.freeing_lt hf
    have hr : s.view.readOffset = s.readOffset := rfl
    omega
  have hnone : (s.elem cfg n).data = none := by
    rw [h.elem hb (by omega) hin hc]
    exact (View.dataAt_eq hfree).trans (List.getElem?_eq_none hlen.ge)
  have hcheck : s.check (s.elem cfg n).data.isNone = s := by simp [State.check, hnone]
  have hmarked : ((s.setData cfg n (some v)).setProducer pc).marked = s.marked := by
    simp only [State.marked, State.setProducer, State.setData, hmark]
  have hview : ((s.setData cfg n (some v)).setProducer pc).view =
      { s.view with values := s.view.values ++ [v] } := by
    rw [State.view, hmarked]
    simp only [State.setProducer, State.setData, State.view, hbuilt, hstored, hwaits,
      List.append_assoc]
  rw [State.construct, hcheck]
  refine ⟨h.pushed, h.le, h.full, h.handed, ?_, hp, ?_, h.unbroken⟩
  · rw [hview]
    refine h.ring_setData (by rw [hb n hc]) (by omega) hin ?_ ?_ fun _ => rfl
    · have hd : ∀ l, ({ s.view with values := l } : View V).dataAt n = l[n]? :=
        fun _ => View.dataAt_eq hfree
      rw [hd, hlen]
      exact List.getElem?_concat_length
    · intro m _ _ hne
      exact ite_congr rfl (fun _ => rfl) fun _ => getElem?_concat_of_ne (hlen ▸ hne)
  · exact State.consumerOk_congr h.consumer hwakes rfl rfl rfl hmarked fun m hm => hwaits.trans hm

theorem Inv.store (h : Inv cfg s) (hb : Straight cfg s) {pc : ProducerPc V} {n : Nat}
    (hn : n = s.writeOffset + s.producer.stored + 1) (hin : n < s.readOffset + cfg.capacity)
      (hc : n ≤ s.writeOffset + s.producer.count)
    (hwakes : s.producer.wakes = false) (hbuilt : pc.built = s.producer.built)
    (hstored : pc.stored = s.producer.stored + 1) (hwaits : pc.waitsFor = s.producer.waitsFor)
    (hmark : pc.beforeMark = s.producer.beforeMark) (hp : (s.setProducer pc).producerOk cfg) :
    Inv cfg ((s.setFlags cfg n .data).setProducer pc) := by
  have hle := h.le
  have hmarked : ((s.setFlags cfg n .data).setProducer pc).marked = s.marked := by
    simp only [State.marked, State.setProducer, State.setFlags, hmark]
  have hview : ((s.setFlags cfg n .data).setProducer pc).view =
      { s.view with stored := s.view.stored + 1 } := by
    rw [State.view, hmarked]
    simp only [State.setProducer, State.setFlags, State.view, hbuilt, hstored, hwaits]
  have hw : s.view.writeOffset = s.writeOffset := rfl
  have hst : s.view.stored = s.producer.stored := rfl
  refine ⟨h.pushed, h.le, h.full, h.handed, ?_, hp, ?_, h.unbroken⟩
  · rw [hview]
    refine h.ring_setFlags (by rw [hb n hc]) (by omega) hin ?_ ?_ fun _ => rfl
    · exact View.flagsAt_stored (by dsimp only; omega) (by dsimp only; omega)
    · intro m _ _ hne
      refine View.flagsAt_congr rfl rfl rfl rfl (fun _ _ => Iff.rfl) fun hm => ?_
      dsimp only
      omega
  · exact State.consumerOk_congr h.consumer hwakes rfl rfl rfl hmarked fun m hm => hwaits.trans hm

/-- What the exchange in the first free slot finds, and what the producer does
then. -/
theorem Inv.publish_eq (h : Inv cfg s) (hb : Straight cfg s) {vs : List V}
    (hopen : s.closed = false) (hin : s.writeOffset < s.readOffset + cfg.capacity) :
    s.publish cfg s.writeOffset vs = { s.setFlags cfg s.writeOffset .data with
      writeOffset := s.writeOffset + vs.length
      pushed := s.pushed ++ vs
      producer := if s.consumer.waiting ∧ s.writeOffset = s.readOffset then .resumeConsumer
        else .idle } := by
  have hflags := h.free_flags hb (marked_of_open hopen) hin
  rw [State.publish, hflags]
  split_ifs with hcan hw hw
  · rfl
  · rfl
  · exact absurd (h.canSuspend hw.1) hcan
  · rfl

theorem Inv.waiting (h : Inv cfg s) (hw : s.consumer.waiting = true) :
    ∃ n, s.consumer = .suspended s.readOffset n ∧ (n = true → s.producer = .closeResume) := by
  have hc := h.consumer
  cases hpc : s.consumer with
  | suspended idx n =>
    rw [State.consumerOk, hpc] at hc
    obtain ⟨rfl, -, -, -, hn⟩ := hc
    exact ⟨n, rfl, hn⟩
  | _ =>
    rw [hpc] at hw
    cases hw

theorem Inv.taken_le (h : Inv cfg s) : s.readOffset + s.consumer.taken ≤ s.writeOffset := by
  have hc := h.consumer
  have hle := h.le
  cases hpc : s.consumer with
  | holding idx | freeSlot idx =>
    rw [State.consumerOk, hpc] at hc
    exact hc.2
  | _ => exact hle

/-- A suspended consumer is resumed by the producer that publishes what it waits
for. -/
theorem State.consumerOk_publish (h : s.consumerOk cfg) (hwakes : s.producer.wakes = false)
    (hwaits : s.producer.waitsFor = none) (hmark : s.marked = false)
    (hc : s'.consumer = s.consumer) (hr : s'.readOffset = s.readOffset)
    (hw : s.writeOffset < s'.writeOffset) (hmark' : s'.marked = false)
    (hp : s.consumer.waiting = true → s'.producer = .resumeConsumer) : s'.consumerOk cfg := by
  rw [State.consumerOk] at h
  rw [State.consumerOk, hc, hr, hmark']
  cases hpc : s.consumer with
  | suspended idx n =>
    rw [hpc] at h hp
    obtain ⟨hidx, hcan, -, -, hn⟩ := h
    refine ⟨hidx, hcan, fun _ => hp rfl, fun hl => (by cases hl), fun hl => ?_⟩
    rw [hn hl] at hwakes
    cases hwakes
  | resumed idx n =>
    rw [hpc] at h
    exact ⟨h.1, fun hn => (h.2 hn).trans hw⟩
  | holding idx | freeSlot idx =>
    rw [hpc] at h
    exact ⟨h.1, h.2.trans hw⟩
  | resumeProducer =>
    rw [hpc] at h
    cases hwaits.symm.trans h
  | storeClosed idx =>
    rw [hpc] at h
    cases hmark.symm.trans h.2.2
  | _ =>
    rw [hpc] at h
    exact h

/-- The flags of the window once `k` values are published at once. -/
theorem View.flagsAt_publish {cap k m : Nat} {w : View V} (hm : w.marked = false)
    (hwaits : w.waitsFor = none) (hle : w.readOffset ≤ w.writeOffset)
    (hk : 0 < k) (hstored : ∀ m, w.writeOffset < m →
      (m ≤ w.writeOffset + w.stored ↔ m < w.writeOffset + k)) (hne : m ≠ w.writeOffset) :
    ({ w with writeOffset := w.writeOffset + k, stored := 0 } : View V).flagsAt cap m =
      w.flagsAt cap m := by
  rcases Nat.lt_or_gt_of_ne hne with hlt | hgt
  · rw [flagsAt_data hlt (by simp [hwaits]) (by simp [hm])]
    exact flagsAt_data (by dsimp only; omega) (by simp [hwaits]) (by simp [hm])
  · have hiff := hstored m hgt
    rcases Nat.lt_trichotomy m (w.writeOffset + k) with hlt | heq | hout
    · rw [flagsAt_stored hgt (hiff.mpr hlt)]
      exact flagsAt_data hlt (by simp [hwaits]) (by simp [hm])
    · rw [flagsAt_null hgt (by omega), heq]
      refine (flagsAt_free (w := { w with writeOffset := w.writeOffset + k, stored := 0 }) hm).trans
        ?_
      exact if_neg fun h => by have := h.2; dsimp only at this; omega
    · rw [flagsAt_null hgt (by omega)]
      exact flagsAt_null hout hout

theorem Inv.publish (h : Inv cfg s) (hb : Straight cfg s) {vs : List V}
    (hopen : s.closed = false) (hbuilt : s.producer.built = vs)
    (hstored : ∀ m, s.writeOffset < m →
      (m ≤ s.writeOffset + s.producer.stored ↔ m < s.writeOffset + vs.length))
    (hwaits : s.producer.waitsFor = none) (hwakes : s.producer.wakes = false)
    (hpos : 0 < vs.length) (hin : s.writeOffset + vs.length ≤ s.readOffset + cfg.capacity) :
    Inv cfg (s.publish cfg s.writeOffset vs) := by
  have hle := h.le
  rw [h.publish_eq hb hopen (by omega)]
  generalize hpc : (if s.consumer.waiting = true ∧ s.writeOffset = s.readOffset then
    ProducerPc.resumeConsumer else ProducerPc.idle : ProducerPc V) = pc
  have hshown : pc.shown = ([], 0, none, false) := by
    rw [← hpc]
    split_ifs <;> rfl
  simp only [ProducerPc.shown, Prod.mk.injEq] at hshown
  obtain ⟨hbuilt', hstored', hwaits', hmark'⟩ := hshown
  have hview : ({ s.setFlags cfg s.writeOffset .data with
      writeOffset := s.writeOffset + vs.length
      pushed := s.pushed ++ vs
      producer := pc } : State V).view = { s.view with
        writeOffset := s.writeOffset + vs.length
        stored := 0 } := by
    simp only [State.view, State.marked, State.setFlags, hopen, hbuilt, hwaits, hbuilt', hstored',
      hwaits', List.append_nil, Bool.false_and]
  have hmarked : s.view.marked = false := by simp [State.view, State.marked, hopen]
  have hw : s.view.writeOffset = s.writeOffset := rfl
  have hst : s.view.stored = s.producer.stored := rfl
  have hr : s.view.readOffset = s.readOffset := rfl
  have hwt : s.view.waitsFor = none := hwaits
  refine ⟨?_, ?_, hin, ?_, ?_, ?_, ?_, h.unbroken⟩
  · rw [List.length_append, h.pushed]
  · exact Nat.le_add_right_of_le hle
  · have htake := h.taken_le
    rw [← h.pushed] at htake
    exact h.handed.trans (List.take_append_of_le_length htake).symm
  · rw [hview]
    refine h.ring_setFlags (by rw [hb s.writeOffset (by omega)]) hle (by omega) ?_ ?_ fun _ => rfl
    · exact View.flagsAt_data (by dsimp only; omega) (by simp [hwt]) (by simp [hmarked])
    · intro m _ _ hne
      exact View.flagsAt_publish hmarked hwt hle hpos hstored hne
  · -- the producer that took the consumer's pointer is the one to resume it
    rw [← hpc]
    split_ifs with hc
    · obtain ⟨n, hn, hresume⟩ := h.waiting hc.1
      refine And.intro hopen (And.intro (show s.readOffset < s.writeOffset + vs.length by omega) ?_)
      cases n with
      | false => exact hn
      | true =>
        rw [hresume rfl] at hwakes
        cases hwakes
    · trivial
  · have hmark : s.marked = false := hmarked
    refine State.consumerOk_publish h.consumer hwakes hwaits hmark rfl rfl
      (Nat.lt_add_of_pos_right hpos) ?_ fun hw => ?_
    · simp [State.marked, State.setFlags, hopen]
    · obtain ⟨n, hn, -⟩ := h.waiting hw
      have hcons := h.consumer
      rw [State.consumerOk, hn] at hcons
      refine hpc.symm.trans (if_pos ⟨hw, ?_⟩)
      by_contra hne
      rw [hcons.2.2.1 (by omega)] at hwakes
      cases hwakes

/-- The consumer is resumed: its pointer is in no slot any more. -/
theorem Inv.wake (h : Inv cfg s) {n : Bool} (hc : s.consumer = .suspended s.readOffset n)
    (hshown : s.producer.shown = ([], 0, none, false))
    (hgone : s.readOffset < s.writeOffset ∨ s.marked = true)
    (hn : n = false → s.readOffset < s.writeOffset) :
    Inv cfg (s.resumeConsumer.setProducer .idle) := by
  simp only [ProducerPc.shown, Prod.mk.injEq] at hshown
  obtain ⟨hbuilt, hstored, hwaits, hmark⟩ := hshown
  have hres : s.resumeConsumer = s.setConsumer (.resumed s.readOffset n) := by
    rw [State.resumeConsumer, hc]
  have hmarked : ((s.setConsumer (.resumed s.readOffset n)).setProducer .idle).marked =
      s.marked := by
    simp only [State.marked, State.setConsumer, State.setProducer, hmark]
    rfl
  have hview : ((s.setConsumer (.resumed s.readOffset n)).setProducer .idle).view =
      { s.view with waiting := false } := by
    rw [State.view, hmarked]
    simp only [State.setConsumer, State.setProducer, State.view, hbuilt, hstored, hwaits, hc]
    rfl
  rw [hres]
  refine ⟨h.pushed, h.le, h.full, ?_, ?_, trivial, And.intro rfl hn, h.unbroken⟩
  · have hh := h.handed
    rw [hc] at hh
    exact hh
  · rw [hview]
    refine h.ring.congr fun m _ _ => ?_
    have hd : ({ s.view with waiting := false } : View V).dataAt m = s.view.dataAt m := rfl
    rw [View.cell, View.cell, hd]
    refine congrArg (Element.mk · _) (View.flagsAt_congr rfl rfl rfl rfl (fun _ hopen => ?_)
      fun _ => Iff.rfl)
    have hlt : s.view.readOffset < s.view.writeOffset := by
      rcases hgone with hl | hl
      · exact hl
      · cases hopen.symm.trans hl
    exact ⟨fun hl => absurd hl.1 (by simp), fun hl => by omega⟩

theorem Inv.closeCas (h : Inv cfg s) (hpc : s.producer = .closeCas) (hopen : s.closed = false) :
    Inv cfg ({ s with closed := true }.setProducer .closeStoreAt) := by
  have hview : ({ s with closed := true }.setProducer .closeStoreAt : State V).view = s.view := by
    simp only [State.view, State.setProducer, State.marked, hpc, hopen]
    rfl
  refine ⟨h.pushed, h.le, h.full, h.handed, hview ▸ h.ring, rfl, ?_, h.unbroken⟩
  refine State.consumerOk_congr h.consumer (by rw [hpc]; rfl) rfl rfl rfl ?_ fun m hm => ?_
  · exact congrArg View.marked hview
  · rw [hpc] at hm
    cases hm

theorem Inv.setWriteClosedAt (h : Inv cfg s) (n : Nat) : Inv cfg { s with writeClosedAt := n } :=
  ⟨h.pushed, h.le, h.full, h.handed, h.ring, h.producer, h.consumer, h.unbroken⟩

theorem Inv.closeElemNull (h : Inv cfg s) (hpc : s.producer = .closeElemNull) :
    s.consumer = .suspended s.readOffset false ∧
      Inv cfg ((s.setConsumer (.suspended s.readOffset true)).setProducer .closeResume) := by
  have hp := h.producer
  rw [State.producerOk, hpc] at hp
  obtain ⟨hclosed, hc⟩ := hp
  have hcons := h.consumer
  rw [State.consumerOk, hc, hpc] at hcons
  obtain ⟨-, hcan, hlt, -⟩ := hcons
  refine ⟨hc, h.pushed, h.le, h.full, ?_, ?_, And.intro hclosed rfl, ?_, h.unbroken⟩
  · have hh := h.handed
    rw [hc] at hh
    exact hh
  · have hview : ((s.setConsumer (.suspended s.readOffset true)).setProducer .closeResume).view =
        s.view := by
      simp only [State.view, State.setConsumer, State.setProducer, State.marked, hpc, hc]
      rfl
    exact hview ▸ h.ring
  · refine And.intro rfl (And.intro hcan (And.intro (fun hl => ?_) (And.intro (fun _ => .inr rfl)
      fun _ => rfl)))
    cases hlt hl

theorem Inv.not_storing (h : Inv cfg s) (hm : s.marked = false) : s.consumer.storing = false := by
  have hc := h.consumer
  cases hpc : s.consumer with
  | storeClosed idx =>
    rw [State.consumerOk, hpc] at hc
    cases hm.symm.trans hc.2.2
  | _ => rfl

theorem Inv.waiting_at (h : Inv cfg s) (hw : s.consumer.waiting = true)
    (hwakes : s.producer.wakes = false) : s.readOffset = s.writeOffset := by
  obtain ⟨n, hn, -⟩ := h.waiting hw
  have hc := h.consumer
  rw [State.consumerOk, hn] at hc
  refine Nat.le_antisymm h.le (Nat.le_of_not_lt fun hlt => ?_)
  rw [hc.2.2.1 hlt] at hwakes
  cases hwakes

theorem State.consumerOk_mark (h : s.consumerOk cfg) (hwakes : s.producer.wakes = false)
    (hwaits : s.producer.waitsFor = none) (hmark : s.marked = false)
    (hc : s'.consumer = s.consumer) (hr : s'.readOffset = s.readOffset)
    (hw : s'.writeOffset = s.writeOffset)
    (hp : s.consumer.waiting = true → s'.producer = .closeElemNull) : s'.consumerOk cfg := by
  rw [State.consumerOk] at h
  rw [State.consumerOk, hc, hr, hw]
  cases hpc : s.consumer with
  | suspended idx n =>
    rw [hpc] at h hp
    obtain ⟨hidx, hcan, hlt, -, hn⟩ := h
    refine ⟨hidx, hcan, fun hl => ?_, fun _ => .inl (hp rfl), fun hl => ?_⟩
    · rw [hlt hl] at hwakes
      cases hwakes
    · rw [hn hl] at hwakes
      cases hwakes
  | resumeProducer =>
    rw [hpc] at h
    cases hwaits.symm.trans h
  | storeClosed idx =>
    rw [hpc] at h
    cases hmark.symm.trans h.2.2
  | _ =>
    rw [hpc] at h
    exact h

/-- The mark of `close()` goes to the slot of `write_offset`. -/
theorem Inv.closeMark (h : Inv cfg s) (hb : Straight cfg s) {cur : Flags}
    (hpc : s.producer = .closeCasFlags cur) (hf : (s.elem cfg s.writeOffset).flags = cur) :
    Inv cfg ((s.setFlags cfg s.writeOffset
      (if cur = .data then .dataClosed else .closed)).setProducer
      (if cur.isPointer then .closeElemNull else .idle)) := by
  have hclosed := h.producer
  rw [State.producerOk, hpc] at hclosed
  have hle := h.le
  have hcap := cfg.capacity_pos
  have hmark : s.marked = false := by simp [State.marked, hpc, ProducerPc.beforeMark]
  have hpc' : ∀ b : Bool, (if b then .closeElemNull else .idle : ProducerPc V).shown =
      ([], 0, none, false) := by
    intro b
    cases b <;> rfl
  have hview : ∀ f, ((s.setFlags cfg s.writeOffset f).setProducer
      (if cur.isPointer then .closeElemNull else .idle)).view = { s.view with marked := true } := by
    intro f
    have hs := hpc' cur.isPointer
    simp only [ProducerPc.shown, Prod.mk.injEq] at hs
    obtain ⟨hbuilt, hstored, hwaits, hm⟩ := hs
    simp only [State.view, State.setFlags, State.setProducer, State.marked, hpc, hclosed, hbuilt,
      hstored, hwaits, hm]
    rfl
  have hring : Ring cfg.capacity s.readOffset
      (({ s.view with marked := true } : View V).cell cfg.capacity)
      (s.setFlags cfg s.writeOffset (if cur = .data then .dataClosed else .closed)).elements := by
    have hwaits : s.view.waitsFor = none := by simp [State.view, hpc, ProducerPc.waitsFor]
    have hstoring : s.view.storing = false := h.not_storing hmark
    have hstored : s.view.stored = 0 := by simp [State.view, hpc, ProducerPc.stored]
    have hopen : s.view.marked = false := hmark
    have hiff := h.poll_iff hb hmark hwaits (by rw [hpc]; rfl) le_rfl (by omega)
      (Nat.le_add_right ..)
    rcases Nat.lt_or_ge s.writeOffset (s.readOffset + cfg.capacity) with hlt | hge
    · -- the slot is free, or the consumer waits in it
      rw [if_neg (fun hd => absurd (hiff.mp (hf.trans hd)) (by omega))]
      refine h.ring_setFlags (by rw [hb s.writeOffset (by omega)]) hle hlt ?_ ?_ fun _ => rfl
      · exact (View.flagsAt_marked rfl).trans (if_neg (by simp [hstoring]))
      · intro m hm hm' hne
        rcases Nat.lt_or_gt_of_ne hne with hlt' | hgt
        · rw [View.flagsAt_data (w := s.view) hlt' (by simp [hwaits]) (by simp [hopen])]
          exact View.flagsAt_data hlt' (by simp [hwaits]) fun _ => by
            dsimp only [State.view]
            omega
        · rw [View.flagsAt_null (w := s.view) hgt (by rw [hstored]; exact hgt)]
          exact View.flagsAt_null hgt (by dsimp only; rw [hstored]; exact hgt)
    · -- the queue is full, so the slot is the first of the window
      have hfull : s.writeOffset = s.readOffset + cfg.capacity := Nat.le_antisymm h.full hge
      have hr : s.readOffset < s.view.writeOffset := by
        rw [show s.view.writeOffset = s.writeOffset from rfl]
        omega
      rw [if_pos (hf.symm.trans (hiff.mpr hge))]
      refine h.ring_setFlags (n := s.readOffset) ?_ le_rfl (by omega) ?_ ?_ fun _ => rfl
      · rw [hb s.writeOffset (by omega), hfull, Nat.add_mod_right]
      · exact View.flagsAt_dataClosed hr hwaits rfl hfull.symm
      · intro m hm hm' hne
        have hlt : m < s.view.writeOffset := by
          rw [show s.view.writeOffset = s.writeOffset from rfl]
          omega
        rw [View.flagsAt_data (w := s.view) hlt (by simp [hwaits]) (by simp [hopen])]
        exact View.flagsAt_data hlt (by simp [hwaits]) fun _ => by
          dsimp only [State.view]
          omega
  have hpointer : cur.isPointer = true ↔ s.consumer.waiting = true := by
    rw [← hf]
    rcases Nat.lt_or_ge s.writeOffset (s.readOffset + cfg.capacity) with hlt | hge
    · rw [h.free_flags hb hmark hlt]
      constructor
      · intro hp
        split_ifs at hp with hw
        · exact hw.1
        · cases hp
      · intro hw
        rw [if_pos ⟨hw, (h.waiting_at hw (by rw [hpc]; rfl)).symm⟩]
        rfl
    · rw [(h.poll_iff hb hmark (by rw [hpc]; rfl) (by rw [hpc]; rfl) le_rfl (by omega)
        (Nat.le_add_right ..)).mpr hge]
      refine ⟨fun hp => (by cases hp), fun hw => ?_⟩
      have hr := h.waiting_at hw (by rw [hpc]; rfl)
      omega
  refine ⟨h.pushed, h.le, h.full, h.handed, ?_, ?_, ?_, h.unbroken⟩
  · rw [hview]
    exact hring
  · by_cases hw : s.consumer.waiting = true
    · obtain ⟨n, hn, hresume⟩ := h.waiting hw
      rw [hpointer.mpr hw, if_pos rfl]
      cases n with
      | false => exact And.intro hclosed hn
      | true => cases hpc.symm.trans (hresume rfl)
    · rw [if_neg (fun hp => hw (hpointer.mp hp))]
      trivial
  · refine State.consumerOk_mark h.consumer (by rw [hpc]; rfl) (by rw [hpc]; rfl) hmark rfl rfl rfl
      fun hw => ?_
    exact if_pos (hpointer.mpr hw)

/-- Whatever comes after the first `i` items of a bulk push, the ring shows these
items. -/
theorem Inv.nextItem {t : State V} {vs : List V} {idx i : Nat} (hopen : t.closed = false)
    (hidx : idx = t.writeOffset) (hpos : 0 < i) (hi : i ≤ vs.length)
    (hin : t.writeOffset + vs.length ≤ t.readOffset + cfg.capacity)
    (hinv : ∀ pc : ProducerPc V, pc.built = vs.take i → pc.stored = i - 1 → pc.waitsFor = none →
      pc.beforeMark = false → (t.setProducer pc).producerOk cfg → Inv cfg (s.setProducer pc)) :
    Inv cfg (s.nextItem vs idx i) := by
  rw [State.nextItem]
  split_ifs with hlt
  · exact hinv _ rfl rfl rfl rfl (And.intro hopen (And.intro hidx (And.intro ⟨hpos, hlt⟩ hin)))
  · have heq : i = vs.length := by omega
    refine hinv _ ?_ ?_ rfl rfl (And.intro hopen (And.intro hidx (And.intro (by omega) hin)))
    · rw [heq, List.take_length]
      rfl
    · rw [heq]
      rfl

/-- A step of the producer keeps the invariant. -/
theorem Inv.producerStep (h : Inv cfg s) (hb : Straight cfg s) {spurious : Bool}
    (hstep : s.producerStep cfg spurious = some s') : Inv cfg s' := by
  have hp := h.producer
  have hcap := cfg.capacity_pos
  rw [State.producerOk] at hp
  cases hpc : s.producer with
  | idle => simp [State.producerStep, hpc] at hstep
  | pushSuspended v idx => simp [State.producerStep, hpc] at hstep
  | bulkSuspended vs idx => simp [State.producerStep, hpc] at hstep
  | pushPoll v =>
    simp only [State.producerStep, hpc, Option.some.injEq] at hstep
    exact hstep ▸ h.pushPoll hb hpc
  | tryPoll v =>
    simp only [State.producerStep, hpc, Option.some.injEq] at hstep
    exact hstep ▸ h.tryPoll hb hpc
  | bulkPoll vs =>
    simp only [State.producerStep, hpc] at hstep
    split at hstep <;> cases hstep
    · exact h.quiet (by rw [hpc]; rfl) (by rw [hpc]; rfl) trivial
    · next hlen => exact h.bulkPoll hb hpc hlen
  | pushPark v idx =>
    rw [hpc] at hp
    obtain ⟨hopen, rfl⟩ := hp
    simp only [State.producerStep, hpc] at hstep
    split at hstep <;> cases hstep
    · next hf =>
      refine h.park hb hopen (by rw [hpc]; rfl) (by rw [hpc]; rfl) le_rfl (by omega)
        (Nat.le_add_right ..) hf rfl fun hfull => ?_
      exact And.intro hopen (And.intro rfl (And.intro (Nat.le_succ_of_le hfull) fun hl =>
        absurd hfull (by rw [show s.readOffset + cfg.capacity = s.writeOffset + 1 from hl]; omega)))
    · next hf =>
      obtain ⟨hin, heq⟩ := h.notParked hb (marked_of_open hopen) (by rw [hpc]; rfl)
        (by rw [hpc]; rfl) le_rfl (by omega) (Nat.le_add_right ..) hf
      rw [heq]
      exact h.quiet (by rw [hpc]; rfl) (by rw [hpc]; rfl) (And.intro hopen (And.intro rfl hin))
  | bulkPark vs idx =>
    rw [hpc] at hp
    obtain ⟨hopen, rfl, hpos, hlen⟩ := hp
    have hcount : s.producer.count = vs.length := by rw [hpc]; rfl
    simp only [State.producerStep, hpc] at hstep
    split at hstep <;> cases hstep
    · next hf =>
      refine h.park hb hopen (by rw [hpc]; rfl) (by rw [hpc]; rfl) (by omega) (by omega)
        (by omega) hf rfl fun hfull => ?_
      have hle : s.readOffset + cfg.capacity ≤ s.writeOffset + vs.length := by omega
      refine And.intro hopen (And.intro rfl (And.intro hpos (And.intro hlen (And.intro hle ?_))))
      intro hl
      have hl' : s.readOffset + cfg.capacity = s.writeOffset + vs.length := hl
      omega
    · next hf =>
      obtain ⟨hin, heq⟩ := h.notParked hb (marked_of_open hopen) (by rw [hpc]; rfl)
        (by rw [hpc]; rfl) (by omega) (by omega) (by omega) hf
      rw [heq]
      exact h.quiet (by rw [hpc]; rfl) (by rw [hpc]; rfl) (And.intro hopen (And.intro rfl
        (And.intro hpos (show s.writeOffset + vs.length ≤ s.readOffset + cfg.capacity by omega))))
  | emplace v idx =>
    rw [hpc] at hp
    obtain ⟨hopen, rfl, hin⟩ := hp
    simp only [State.producerStep, hpc, Option.some.injEq] at hstep
    rw [← hstep]
    exact h.construct hb (by rw [hpc]; rfl) hin (Nat.le_add_right ..) (by rw [hpc]; rfl)
      (by rw [hpc]; rfl) (by rw [hpc]; rfl) (by rw [hpc]; rfl) (by rw [hpc]; rfl)
      (And.intro hopen (And.intro rfl hin))
  | publish v idx =>
    rw [hpc] at hp
    obtain ⟨hopen, rfl, hin⟩ := hp
    simp only [State.producerStep, hpc, Option.some.injEq] at hstep
    rw [← hstep]
    refine h.publish hb hopen (by rw [hpc]; rfl) (fun m hm => ?_) (by rw [hpc]; rfl)
      (by rw [hpc]; rfl) Nat.one_pos hin
    have hst : s.producer.stored = 0 := by rw [hpc]; rfl
    rw [hst, List.length_singleton]
    omega
  | bulkFirst vs idx =>
    rw [hpc] at hp
    obtain ⟨hopen, rfl, hpos, hin⟩ := hp
    have hbuilt : s.producer.built = [] := by rw [hpc]; rfl
    simp only [State.producerStep, hpc, List.getElem?_eq_getElem hpos, Option.some.injEq] at hstep
    rw [← hstep]
    refine Inv.nextItem hopen rfl Nat.one_pos hpos hin fun pc hb' hs hw hm hok => ?_
    refine h.construct hb ?_ (by omega) (Nat.le_add_right ..) (by rw [hpc]; rfl) ?_
      (by rw [hs, hpc]; rfl) (by rw [hw, hpc]; rfl) (by rw [hm, hpc]; rfl) hok
    · rw [hbuilt]
      rfl
    · rw [hb', hbuilt]
      exact List.take_succ_eq_append_getElem hpos
  | bulkEmplace vs idx i =>
    rw [hpc] at hp
    obtain ⟨hopen, rfl, ⟨hpos, hi⟩, hin⟩ := hp
    have hcount : s.producer.count = vs.length := by rw [hpc]; rfl
    have hbuilt : s.producer.built = vs.take i := by rw [hpc]; rfl
    simp only [State.producerStep, hpc, List.getElem?_eq_getElem hi, Option.some.injEq] at hstep
    rw [← hstep]
    refine h.construct hb ?_ (by omega) (by omega) (by rw [hpc]; rfl) ?_ (by rw [hpc]; rfl)
      (by rw [hpc]; rfl) (by rw [hpc]; rfl)
      (And.intro hopen (And.intro rfl (And.intro ⟨hpos, hi⟩ hin)))
    · rw [hbuilt, List.length_take_of_le hi.le]
    · rw [hbuilt]
      exact List.take_succ_eq_append_getElem hi
  | bulkStore vs idx i =>
    rw [hpc] at hp
    obtain ⟨hopen, rfl, ⟨hpos, hi⟩, hin⟩ := hp
    have hcount : s.producer.count = vs.length := by rw [hpc]; rfl
    have hstored : s.producer.stored = i - 1 := by rw [hpc]; rfl
    simp only [State.producerStep, hpc, Option.some.injEq] at hstep
    rw [← hstep]
    refine Inv.nextItem hopen rfl (Nat.succ_pos i) hi hin fun pc hb' hs hw hm hok => ?_
    exact h.store hb (by omega) (by omega) (by omega) (by rw [hpc]; rfl) (by rw [hb', hpc]; rfl)
      (by omega) (by rw [hw, hpc]; rfl) (by rw [hm, hpc]; rfl) hok
  | bulkPublish vs idx =>
    rw [hpc] at hp
    obtain ⟨hopen, rfl, hpos, hin⟩ := hp
    simp only [State.producerStep, hpc, Option.some.injEq] at hstep
    rw [← hstep]
    refine h.publish hb hopen (by rw [hpc]; rfl) (fun m hm => ?_) (by rw [hpc]; rfl)
      (by rw [hpc]; rfl) hpos hin
    have hst : s.producer.stored = vs.length - 1 := by rw [hpc]; rfl
    rw [hst]
    omega
  | resumeConsumer =>
    rw [hpc] at hp
    obtain ⟨hopen, hlt, hc⟩ := hp
    simp only [State.producerStep, hpc, Option.some.injEq] at hstep
    exact hstep ▸ h.wake hc (by rw [hpc]; rfl) (.inl hlt) fun _ => hlt
  | closeCas =>
    simp only [State.producerStep, hpc] at hstep
    split at hstep <;> cases hstep
    · exact h.quiet (by rw [hpc]; rfl) (by rw [hpc]; rfl) trivial
    · next hopen => exact h.closeCas hpc (by simpa using hopen)
  | closeStoreAt =>
    rw [hpc] at hp
    simp only [State.producerStep, hpc, Option.some.injEq] at hstep
    rw [← hstep]
    have hsame : ({ s with writeClosedAt := s.writeOffset } : State V).producer = s.producer := rfl
    exact (h.setWriteClosedAt s.writeOffset).quiet (by rw [hsame, hpc]; rfl)
      (by rw [hsame, hpc]; rfl) hp
  | closeLoad =>
    rw [hpc] at hp
    simp only [State.producerStep, hpc, Option.some.injEq] at hstep
    rw [← hstep]
    exact h.quiet (by rw [hpc]; rfl) (by rw [hpc]; rfl) hp
  | closeCasFlags cur =>
    rw [hpc] at hp
    simp only [State.producerStep, hpc] at hstep
    split at hstep <;> cases hstep
    · next hf => exact h.closeMark hb hpc hf.2
    · exact h.quiet (by rw [hpc]; rfl) (by rw [hpc]; rfl) hp
  | closeElemNull =>
    obtain ⟨hc, hi⟩ := h.closeElemNull hpc
    simp only [State.producerStep, hpc, hc, Option.some.injEq] at hstep
    exact hstep ▸ hi
  | closeResume =>
    rw [hpc] at hp
    obtain ⟨hclosed, hc⟩ := hp
    simp only [State.producerStep, hpc, Option.some.injEq] at hstep
    refine hstep ▸ h.wake hc (by rw [hpc]; rfl) (.inr ?_) fun hn => (by cases hn)
    simp [State.marked, hclosed, hpc, ProducerPc.beforeMark]

end CoroUtil.SpscBounded
