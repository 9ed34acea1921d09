import Mathlib.Tactic.Tauto
import CoroUtil.SpscBounded.Invariant

/-!
# The window of the ring

What the invariant says of the slots that the two sides look at: the slot of an
index at or past `write_offset` holds data exactly when the window is full, and
the slot of `read_offset` shows whether there is a value.
-/

namespace CoroUtil.SpscBounded

open CoroUtil.General

variable {V : Type} {cfg : Config} {s s' : State V}

namespace View

variable {cap n : Nat} {w w' : View V}

theorem flagsAt_data (hn : n < w.writeOffset) (hp : w.waitsFor ≠ some (n + cap))
    (hm : w.marked = true → n + cap ≠ w.writeOffset) : w.flagsAt cap n = .data := by
  rw [flagsAt, if_pos hn, if_neg hp, if_neg (by tauto)]

theorem flagsAt_dataClosed (hn : n < w.writeOffset) (hp : w.waitsFor = none)
    (hm : w.marked = true) (hw : n + cap = w.writeOffset) : w.flagsAt cap n = .dataClosed := by
  rw [flagsAt, if_pos hn, if_neg (by simp [hp]), if_pos ⟨hm, hw⟩]

theorem flagsAt_marked (hm : w.marked = true) :
    w.flagsAt cap w.writeOffset = if w.storing then .null else .closed := by
  rw [flagsAt, if_neg (Nat.lt_irrefl _), if_pos rfl, if_pos hm]

theorem flagsAt_free (hm : w.marked = false) : w.flagsAt cap w.writeOffset =
    if w.waiting ∧ w.writeOffset = w.readOffset then .consumer else .null := by
  rw [flagsAt, if_neg (Nat.lt_irrefl _), if_pos rfl, if_neg (by simp [hm])]

theorem flagsAt_stored (hn : w.writeOffset < n) (hs : n ≤ w.writeOffset + w.stored) :
    w.flagsAt cap n = .data := by
  rw [flagsAt, if_neg (by omega), if_neg (by omega), if_pos hs]

theorem flagsAt_null (hn : w.writeOffset < n) (hs : w.writeOffset + w.stored < n) :
    w.flagsAt cap n = .null := by
  rw [flagsAt, if_neg (by omega), if_neg (by omega), if_neg (by omega)]

/-- `stored` counts for the indices past `write_offset` only. -/
theorem flagsAt_congr (hwrite : w'.writeOffset = w.writeOffset) (hwaits : w'.waitsFor = w.waitsFor)
    (hm : w'.marked = w.marked) (hstoring : w'.storing = w.storing)
    (hwaiting : n = w.writeOffset → w.marked = false → (w'.waiting = true ∧ n = w'.readOffset ↔
      w.waiting = true ∧ n = w.readOffset))
    (hs : w.writeOffset < n → (n ≤ w.writeOffset + w'.stored ↔ n ≤ w.writeOffset + w.stored)) :
    w'.flagsAt cap n = w.flagsAt cap n := by
  simp only [flagsAt, hwrite, hwaits, hm, hstoring]
  split_ifs <;> grind

theorem dataAt_eq (hf : w.freeing = true → n ≠ w.readOffset) : w.dataAt n = w.values[n]? := by
  rw [dataAt, if_neg (by tauto)]

theorem dataAt_freed (hf : w.freeing = true) : w.dataAt w.readOffset = none := by
  rw [dataAt, if_pos ⟨hf, rfl⟩]

end View

/-- The slot of an index of the window. -/
theorem Inv.elem (h : Inv cfg s) (hb : Straight cfg s) {n : Nat} (hr : s.readOffset ≤ n)
    (hn : n < s.readOffset + cfg.capacity) (hc : n ≤ s.writeOffset + s.producer.count) :
    s.elem cfg n = s.view.cell cfg.capacity n := by
  rw [State.elem, hb n hc, h.ring n hr hn]

/-- An index past the window shares the slot of the index one lap behind. -/
theorem Inv.elem_lap (h : Inv cfg s) (hb : Straight cfg s) {n : Nat}
    (hr : s.readOffset + cfg.capacity ≤ n) (hn : n < s.readOffset + 2 * cfg.capacity)
    (hc : n ≤ s.writeOffset + s.producer.count) :
    s.elem cfg n = s.view.cell cfg.capacity (n - cfg.capacity) := by
  rw [State.elem, hb n hc, h.ring.lap hr hn]

/-- The write of `flags` to the slot of the index `n` of the window. -/
theorem Inv.ring_setFlags (h : Inv cfg s) {idx n : Nat} {f : Flags} {w : View V}
    (hslot : cfg.slotOf idx = n % cfg.capacity) (hr : s.readOffset ≤ n)
    (hn : n < s.readOffset + cfg.capacity) (hf : w.flagsAt cfg.capacity n = f)
    (hfs : ∀ m, s.readOffset ≤ m → m < s.readOffset + cfg.capacity → m ≠ n →
      w.flagsAt cfg.capacity m = s.view.flagsAt cfg.capacity m)
    (hd : ∀ m, w.dataAt m = s.view.dataAt m) :
    Ring cfg.capacity s.readOffset (w.cell cfg.capacity) (s.setFlags cfg idx f).elements := by
  have he : (s.elem cfg idx).data = s.view.dataAt n := by
    rw [State.elem, hslot, h.ring n hr hn]
    rfl
  rw [State.setFlags, hslot, he]
  refine h.ring.write hr hn ?_ fun m hm hm' hne => ?_
  · rw [View.cell, hf, hd]
  · rw [View.cell, View.cell, hfs m hm hm' hne, hd]

/-- The same of `data`. -/
theorem Inv.ring_setData (h : Inv cfg s) {idx n : Nat} {d : Option V} {w : View V}
    (hslot : cfg.slotOf idx = n % cfg.capacity) (hr : s.readOffset ≤ n)
    (hn : n < s.readOffset + cfg.capacity) (hd : w.dataAt n = d)
    (hds : ∀ m, s.readOffset ≤ m → m < s.readOffset + cfg.capacity → m ≠ n →
      w.dataAt m = s.view.dataAt m)
    (hf : ∀ m, w.flagsAt cfg.capacity m = s.view.flagsAt cfg.capacity m) :
    Ring cfg.capacity s.readOffset (w.cell cfg.capacity) (s.setData cfg idx d).elements := by
  have he : (s.elem cfg idx).flags = s.view.flagsAt cfg.capacity n := by
    rw [State.elem, hslot, h.ring n hr hn]
    rfl
  rw [State.setData, hslot, he]
  refine h.ring.write hr hn ?_ fun m hm hm' hne => ?_
  · rw [View.cell, hd, hf]
  · rw [View.cell, View.cell, hds m hm hm' hne, hf]

/-- The producer moves on and the ring stays as it is. -/
theorem Inv.setProducer (h : Inv cfg s) {pc : ProducerPc V}
    (hview : (s.setProducer pc).view = s.view) (hp : (s.setProducer pc).producerOk cfg)
    (hc : (s.setProducer pc).consumerOk cfg) : Inv cfg (s.setProducer pc) where
  pushed := h.pushed
  le := h.le
  full := h.full
  handed := h.handed
  ring := by
    rw [hview]
    exact h.ring
  producer := hp
  consumer := hc
  unbroken := h.unbroken

/-- The consumer moves on and the ring stays as it is. -/
theorem Inv.setConsumer (h : Inv cfg s) {pc : ConsumerPc}
    (hview : (s.setConsumer pc).view = s.view) (htaken : pc.taken = s.consumer.taken)
    (hp : (s.setConsumer pc).producerOk cfg) (hc : (s.setConsumer pc).consumerOk cfg) :
    Inv cfg (s.setConsumer pc) where
  pushed := h.pushed
  le := h.le
  full := h.full
  handed := by
    rw [State.setConsumer, htaken]
    exact h.handed
  ring := by
    rw [hview]
    exact h.ring
  producer := hp
  consumer := hc
  unbroken := h.unbroken

theorem marked_of_open (hopen : s.closed = false) : s.marked = false := by
  simp [State.marked, hopen]

/-- A slot at or past `write_offset` that the producer polls holds data exactly
when its index is past the window. -/
theorem Inv.poll_iff (h : Inv cfg s) (hb : Straight cfg s) (hmark : s.marked = false)
    (hwaits : s.producer.waitsFor = none) (hstored : s.producer.stored = 0) {n : Nat}
    (hn : s.writeOffset ≤ n) (hlt : n < s.writeOffset + cfg.capacity)
    (hc : n ≤ s.writeOffset + s.producer.count) :
    (s.elem cfg n).flags = .data ↔ s.readOffset + cfg.capacity ≤ n := by
  have hle := h.le
  have hfull := h.full
  constructor
  · intro hd
    by_contra hin
    rw [h.elem hb (by omega) (by omega) hc] at hd
    change s.view.flagsAt cfg.capacity n = .data at hd
    rcases Nat.eq_or_lt_of_le hn with rfl | hgt
    · have hopen : s.view.marked = false := hmark
      have hw : s.view.writeOffset = s.writeOffset := rfl
      rw [← hw, View.flagsAt_free hopen] at hd
      split_ifs at hd
    · have hst : s.view.stored = 0 := hstored
      rw [View.flagsAt_null hgt (by rwa [hst])] at hd
      cases hd
  · intro hin
    rw [h.elem_lap hb hin (by omega) hc]
    have hnone : s.view.waitsFor = none := hwaits
    have hopen : s.view.marked = false := hmark
    exact View.flagsAt_data (show n - cfg.capacity < s.writeOffset by omega) (by simp [hnone])
      (by simp [hopen])

/-- The slot of the first free index is empty or the consumer waits in it. -/
theorem Inv.free_flags (h : Inv cfg s) (hb : Straight cfg s) (hmark : s.marked = false)
    (hlt : s.writeOffset < s.readOffset + cfg.capacity) :
    (s.elem cfg s.writeOffset).flags =
      if s.consumer.waiting ∧ s.writeOffset = s.readOffset then .consumer else .null := by
  rw [h.elem hb h.le hlt (by omega)]
  have hopen : s.view.marked = false := hmark
  exact View.flagsAt_free hopen

/-- The consumer suspends only where it may. -/
theorem Inv.canSuspend (h : Inv cfg s) (hw : s.consumer.waiting = true) :
    cfg.consumerCanSuspend = true := by
  have hc := h.consumer
  cases hpc : s.consumer with
  | suspended idx n =>
    rw [State.consumerOk, hpc] at hc
    exact hc.2.1
  | _ =>
    rw [hpc] at hw
    cases hw

/-- The assertion after a failed attempt to park. -/
theorem Inv.notParked (h : Inv cfg s) (hb : Straight cfg s) (hmark : s.marked = false)
    (hwaits : s.producer.waitsFor = none) (hstored : s.producer.stored = 0) {n : Nat}
    (hn : s.writeOffset ≤ n) (hlt : n < s.writeOffset + cfg.capacity)
    (hc : n ≤ s.writeOffset + s.producer.count) (hf : (s.elem cfg n).flags ≠ .data) :
    n < s.readOffset + cfg.capacity ∧ s.notParked cfg (s.elem cfg n).flags = s := by
  have hin : n < s.readOffset + cfg.capacity := by
    by_contra hin
    exact hf ((h.poll_iff hb hmark hwaits hstored hn hlt hc).mpr (by omega))
  have hok : (decide ((s.elem cfg n).flags = .null) ||
      cfg.consumerCanSuspend && (s.elem cfg n).flags.isPointer) = true := by
    by_cases hnw : n = s.writeOffset
    · subst hnw
      rw [h.free_flags hb hmark hin]
      split_ifs with hw
      · rw [h.canSuspend hw.1]
        rfl
      · rfl
    · rw [h.elem hb (by have := h.le; omega) hin hc]
      have hgt : s.writeOffset < n := Nat.lt_of_le_of_ne hn (Ne.symm hnw)
      have hst : s.view.stored = 0 := hstored
      rw [View.cell, View.flagsAt_null hgt (by rwa [hst])]
      rfl
  refine ⟨hin, ?_⟩
  rw [State.notParked, hok]
  simp [State.check]

end CoroUtil.SpscBounded
