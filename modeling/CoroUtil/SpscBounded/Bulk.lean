import CoroUtil.SpscBounded.Delivery

/-!
# `push_bulk` looks at its last slot only

`bulk_window`: once `await_resume` of a bulk push runs, the slots of its items
are empty, however it got there, and until it publishes the first of them the
consumer can wait in no other.  So the plain stores to the later slots overwrite
neither a value nor a waiting consumer, and none of the items is handed out
before the first is published.
-/

namespace CoroUtil.SpscBounded

open CoroUtil.General

variable {V : Type} {cfg : Config} {s s' : State V}

/-- In `await_resume` of `aw_push_bulk_impl`: the items, the first index and how
many items have been constructed. -/
def ProducerPc.bulk : ProducerPc V → Option (List V × Nat × Nat)
  | bulkFirst vs idx => some (vs, idx, 0)
  | bulkEmplace vs idx i => some (vs, idx, i)
  | bulkStore vs idx i => some (vs, idx, i + 1)
  | bulkPublish vs idx => some (vs, idx, vs.length)
  | _ => none

/-- What `await_resume` of `aw_push_bulk_impl` relies on. -/
structure BulkWindow (cfg : Config) (s : State V) : Prop where
  /-- The slots of the items that are not constructed yet are empty. -/
  empty : ∀ vs idx i, s.producer.bulk = some (vs, idx, i) → ∀ j, i ≤ j → j < vs.length →
    (s.elem cfg (idx + j)).data = none
  /-- No slot but the first has a waiting consumer. -/
  alone : ∀ vs idx i, s.producer.bulk = some (vs, idx, i) → ∀ j, 0 < j → j < vs.length →
    (s.elem cfg (idx + j)).flags ≠ .consumer
  /-- A waiting consumer is in the first slot, and the publication resumes it. -/
  waits : ∀ vs idx i, s.producer.bulk = some (vs, idx, i) → s.consumer.waiting = true →
    s.consumer = .suspended idx false ∧ (s.elem cfg idx).flags = .consumer
  resumes : ∀ vs idx, s.producer = .bulkPublish vs idx → s.consumer.waiting = true →
    (s.publish cfg idx vs).producer = .resumeConsumer
  /-- The values handed out are the first of those published. -/
  in_order : handed s.pulls <+: s.pushed
  unpublished : ∀ vs idx i, s.producer.bulk = some (vs, idx, i) → s.pushed.length = idx
  unbroken : s.broken = false

/-- The items of a bulk push fit into the window. -/
theorem Inv.bulk (h : Inv cfg s) {vs : List V} {idx i : Nat}
    (hbulk : s.producer.bulk = some (vs, idx, i)) :
    s.closed = false ∧ idx = s.writeOffset ∧ 0 < vs.length ∧
      s.writeOffset + vs.length ≤ s.readOffset + cfg.capacity ∧ s.producer.wakes = false ∧
      s.producer.built = vs.take i ∧ s.producer.count = vs.length := by
  have hp := h.producer
  rw [State.producerOk] at hp
  cases hpc : s.producer with
  | bulkFirst vs' idx' =>
    rw [hpc] at hp hbulk
    cases hbulk
    obtain ⟨hopen, hidx, hpos, hin⟩ := hp
    exact ⟨hopen, hidx, hpos, hin, rfl, rfl, rfl⟩
  | bulkEmplace vs' idx' i' | bulkStore vs' idx' i' =>
    rw [hpc] at hp hbulk
    cases hbulk
    obtain ⟨hopen, hidx, hi, hin⟩ := hp
    exact ⟨hopen, hidx, Nat.zero_lt_of_lt hi.2, hin, rfl, rfl, rfl⟩
  | bulkPublish vs' idx' =>
    rw [hpc] at hp hbulk
    cases hbulk
    obtain ⟨hopen, hidx, hpos, hin⟩ := hp
    exact ⟨hopen, hidx, hpos, hin, rfl, (List.take_length).symm, rfl⟩
  | _ =>
    rw [hpc] at hbulk
    cases hbulk

theorem Inv.bulk_empty (h : Inv cfg s) (hb : Straight cfg s) {vs : List V} {idx i j : Nat}
    (hbulk : s.producer.bulk = some (vs, idx, i)) (hi : i ≤ j) (hj : j < vs.length) :
    (s.elem cfg (idx + j)).data = none := by
  obtain ⟨-, rfl, -, hin, -, hbuilt, hcount⟩ := h.bulk hbulk
  have hle := h.le
  rw [h.elem hb (by omega) (by omega) (by omega)]
  change s.view.dataAt (s.writeOffset + j) = none
  by_cases hf : s.view.freeing = true ∧ s.writeOffset + j = s.view.readOffset
  · exact if_pos hf
  · refine (if_neg hf).trans (List.getElem?_eq_none ?_)
    have hpushed := h.pushed
    have hvalues : s.view.values = s.pushed ++ s.producer.built := rfl
    rw [hvalues, hbuilt, List.length_append, List.length_take]
    omega

theorem Inv.bulk_alone (h : Inv cfg s) (hb : Straight cfg s) {vs : List V} {idx i j : Nat}
    (hbulk : s.producer.bulk = some (vs, idx, i)) (hpos : 0 < j) (hj : j < vs.length) :
    (s.elem cfg (idx + j)).flags ≠ .consumer := by
  obtain ⟨-, rfl, -, hin, -, -, hcount⟩ := h.bulk hbulk
  have hle := h.le
  rw [h.elem hb (by omega) (by omega) (by omega)]
  change s.view.flagsAt cfg.capacity (s.writeOffset + j) ≠ .consumer
  have hlt : s.view.writeOffset < s.writeOffset + j := Nat.lt_add_of_pos_right hpos
  by_cases hs : s.writeOffset + j ≤ s.view.writeOffset + s.view.stored
  · rw [View.flagsAt_stored hlt hs]
    simp
  · rw [View.flagsAt_null hlt (by omega)]
    simp

theorem Inv.bulk_waits (h : Inv cfg s) (hb : Straight cfg s) {vs : List V} {idx i : Nat}
    (hbulk : s.producer.bulk = some (vs, idx, i)) (hw : s.consumer.waiting = true) :
    s.consumer = .suspended idx false ∧ (s.elem cfg idx).flags = .consumer := by
  obtain ⟨hopen, rfl, hpos, hin, hwakes, -, -⟩ := h.bulk hbulk
  have hr := h.waiting_at hw hwakes
  obtain ⟨n, hn, hres⟩ := h.waiting hw
  have hnull : n = false := by
    cases n with
    | false => rfl
    | true =>
      rw [hres rfl] at hwakes
      cases hwakes
  rw [hnull, hr] at hn
  refine ⟨hn, ?_⟩
  rw [h.free_flags hb (marked_of_open hopen) (by omega)]
  exact if_pos ⟨hw, hr.symm⟩

/-- One look at the last slot is enough for a bulk push. -/
theorem bulk_window (h : (system V cfg).Reachable s)
    (hlt : s.writeOffset + s.producer.count < 2 ^ cfg.bits) : BulkWindow cfg s := by
  have hb := straight_of_lt hlt
  have hi := inv h hb
  refine
    { empty := fun _ _ _ hbulk _ hle hj => hi.bulk_empty hb hbulk hle hj
      alone := fun _ _ _ hbulk _ hpos hj => hi.bulk_alone hb hbulk hpos hj
      waits := fun _ _ _ hbulk hw => hi.bulk_waits hb hbulk hw
      resumes := fun vs idx hpc hw => ?_
      in_order := (boundedFifo h hb).in_order
      unpublished := fun _ _ _ hbulk => hi.pushed.trans (hi.bulk hbulk).2.1.symm
      unbroken := hi.unbroken }
  obtain ⟨hopen, rfl, hpos, hin, hwakes, -, -⟩ :=
    hi.bulk (i := vs.length) (by rw [hpc]; rfl)
  rw [hi.publish_eq hb hopen (by omega)]
  exact if_pos ⟨hw, (hi.waiting_at hw hwakes).symm⟩

/-- Two slots: a bulk push of two values finds the last slot taken, and goes on
when the consumer has freed it. -/
def bulkToFull : List (Act Nat) :=
  .push 7 :: List.replicate 3 (.producer false) ++ .push 8 :: List.replicate 3 (.producer false) ++
    .pushBulk [9, 10] :: List.replicate 2 (.producer false) ++
    [.pull .pull, .consumer, .release, .consumer, .pull .pull, .consumer, .release, .consumer,
      .consumer]

theorem twoSlots_fits : 2 < 2 ^ (64 - 1) := by decide

def twoSlots : Config := ⟨64, 2, true, Nat.two_pos, twoSlots_fits⟩

theorem bulk_window_bulkToFull : ∃ s, bulkToFull.foldlM (step twoSlots) .init = some s ∧
    s.producer.bulk = some ([9, 10], 2, 0) ∧ BulkWindow twoSlots s :=
  ⟨_, rfl, rfl, bulk_window (System.ofStep_reachable bulkToFull rfl) (by decide)⟩

end CoroUtil.SpscBounded
