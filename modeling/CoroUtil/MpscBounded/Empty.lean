import Mathlib.Logic.Relation
import CoroUtil.MpscBounded.Model

/-!
# `empty()` and `try_pull()`

`empty()` looks at the slot of `read_offset` only, `try_pull()` steps over the
slots before the cutoff that carry the mark of `close()`.  `empty_agrees_iff`
says exactly when the two agree.
-/

namespace CoroUtil.MpscBounded

open CoroUtil.General

variable {V : Type} {cfg : Config} {s t t' : State V} {n : Nat}

namespace State

variable (cfg : Config) (s : State V)

/-- `empty()`, evaluated in one state; there is no result while it spins. -/
def empty : Option Bool :=
  if (s.elem cfg s.readOffset).flags.data then some false
  else if s.closed then
    if s.closedReady then some (circularLessThan cfg.bits s.readOffset s.writeClosedAt) else none
  else some true

/-- A step that the consumer takes while no task does. -/
def alone (s t : State V) : Prop := ∃ spurious, s.consumerStep cfg spurious = some t

/-- `try_pull()`, executed alone, returns `EMPTY`. -/
def tryPullEmpty : Prop :=
  ∃ t, Relation.ReflTransGen (alone cfg) (s.setConsumer (.poll .tryPull)) t ∧
    t.consumer = .idle ∧ t.pulls = s.pulls ++ [.empty]

/-- `empty()` returns true exactly when `try_pull()` would report `EMPTY`. -/
def EmptyAgrees : Prop := s.empty cfg = some true ↔ s.tryPullEmpty cfg

/-- `try_pull()` steps over the slot of index `n`: it carries the mark of `close()`
and is before the cutoff. -/
def skips (n : Nat) : Prop :=
  (s.elem cfg n).flags.data = false ∧ s.closed = true ∧ s.closedReady = true ∧
    circularLessThan cfg.bits n s.writeClosedAt = true ∧
    (s.elem cfg n).flags.hasCloseSentinel = true

/-- The slot of index `n` is empty and not past the cutoff. -/
def vacant (n : Nat) : Prop :=
  (s.elem cfg n).flags.data = false ∧ (s.closed = true → s.closedReady = true ∧
    circularLessThan cfg.bits n s.writeClosedAt = true ∧
    (s.elem cfg n).flags.hasCloseSentinel = false)

/-- The first slot from index `n` on that `try_pull()` does not step over is
vacant. -/
def vacantFrom (n : Nat) : Prop :=
  ∃ m, n ≤ m ∧ (∀ k, n ≤ k → k < m → s.skips cfg k) ∧ s.vacant cfg m

/-- In `try_pull()`, at index `n`. -/
def probe (n : Nat) (pc : ConsumerPc) : State V := { s with readOffset := n, consumer := pc }

end State

section Probe

variable (cfg s) {b : Bool} {f : Flags}

theorem consumerStep_poll : (s.probe n (.poll .tryPull)).consumerStep cfg b =
    if (s.elem cfg n).flags.data then some ((s.probe n (.poll .tryPull)).handOut cfg n)
    else some (s.probe n (.loadClosed .tryPull n (s.elem cfg n).flags)) := rfl

theorem consumerStep_loadClosed : (s.probe n (.loadClosed .tryPull n f)).consumerStep cfg b =
    if s.closed then some (s.probe n (.spinReady .tryPull n f))
    else some ((s.probe n .idle).returnPull .empty) := rfl

theorem consumerStep_spinReady : (s.probe n (.spinReady .tryPull n f)).consumerStep cfg b =
    some (s.probe n (if s.closedReady then .loadClosedAt .tryPull n f
      else .spinReady .tryPull n f)) := rfl

theorem consumerStep_loadClosedAt : (s.probe n (.loadClosedAt .tryPull n f)).consumerStep cfg b =
    if circularLessThan cfg.bits n s.writeClosedAt then
      if f.hasCloseSentinel then some (s.probe (n + 1) (.poll .tryPull))
      else some ((s.probe n .idle).returnPull .empty)
    else some ((s.probe n .idle).returnPull .closed) := rfl

end Probe

theorem State.empty_iff : s.empty cfg = some true ↔
    s.vacant cfg s.readOffset ∨ s.skips cfg s.readOffset := by
  rw [State.empty, State.vacant, State.skips]
  cases (s.elem cfg s.readOffset).flags.data <;> cases s.closed <;> cases s.closedReady <;>
    cases (s.elem cfg s.readOffset).flags.hasCloseSentinel <;> simp

/-- Where `try_pull()` is when it runs alone from `s`. -/
def Polling (cfg : Config) (s t : State V) : Prop :=
  ∃ n, s.readOffset ≤ n ∧ (∀ k, s.readOffset ≤ k → k < n → s.skips cfg k) ∧
    (t = s.probe n (.poll .tryPull) ∨
      (s.elem cfg n).flags.data = false ∧
        (t = s.probe n (.loadClosed .tryPull n (s.elem cfg n).flags) ∨
          s.closed = true ∧
            (t = s.probe n (.spinReady .tryPull n (s.elem cfg n).flags) ∨
              s.closedReady = true ∧
                t = s.probe n (.loadClosedAt .tryPull n (s.elem cfg n).flags))) ∨
      (t.consumer = .idle ∨ ∃ i, t.consumer = .holding i) ∧
        (t.pulls = s.pulls ++ [.empty] → s.vacant cfg n))

/-- The index that `try_pull()` stops at has been reached. -/
theorem Polling.finished (hle : s.readOffset ≤ n)
    (hskip : ∀ k, s.readOffset ≤ k → k < n → s.skips cfg k)
    (hc : t.consumer = .idle ∨ ∃ i, t.consumer = .holding i)
    (hempty : t.pulls = s.pulls ++ [.empty] → s.vacant cfg n) : Polling cfg s t :=
  ⟨n, hle, hskip, .inr (.inr ⟨hc, hempty⟩)⟩

theorem Polling.step (h : Polling cfg s t) (hstep : t.alone cfg t') : Polling cfg s t' := by
  obtain ⟨n, hle, hskip, hcases⟩ := h
  obtain ⟨b, hstep⟩ := hstep
  rcases hcases with rfl | ⟨hdata, rfl | ⟨hclosed, rfl | ⟨hready, rfl⟩⟩⟩ | ⟨hc, -⟩
  · -- the poll of the flags
    rw [consumerStep_poll] at hstep
    split_ifs at hstep with hd <;> cases hstep
    · rw [State.handOut]
      split
      · exact .finished hle hskip (.inr ⟨n, rfl⟩) fun hp => (by simp [State.probe] at hp)
      · exact .finished hle hskip (.inr ⟨n, rfl⟩) fun hp => (by simp [State.probe, State.check] at hp)
    · exact ⟨n, hle, hskip, .inr (.inl ⟨by simpa using hd, .inl rfl⟩)⟩
  · -- the load of `closed`
    rw [consumerStep_loadClosed] at hstep
    split_ifs at hstep with hclosed <;> cases hstep
    · exact ⟨n, hle, hskip, .inr (.inl ⟨hdata, .inr ⟨hclosed, .inl rfl⟩⟩)⟩
    · exact .finished hle hskip (.inl rfl) fun _ => ⟨hdata, fun hc => absurd hc hclosed⟩
  · rw [consumerStep_spinReady] at hstep
    cases hstep
    refine ⟨n, hle, hskip, .inr (.inl ⟨hdata, .inr ⟨hclosed, ?_⟩⟩)⟩
    split_ifs with hready
    · exact .inr ⟨hready, rfl⟩
    · exact .inl rfl
  · -- the load of `write_closed_at`
    rw [consumerStep_loadClosedAt] at hstep
    split_ifs at hstep with hlt hmark <;> cases hstep
    · refine ⟨n + 1, Nat.le_succ_of_le hle, fun k hk hkn => ?_, .inl rfl⟩
      rcases Nat.lt_or_ge k n with hlt' | hge
      · exact hskip k hk hlt'
      · obtain rfl : k = n := Nat.le_antisymm (Nat.le_of_lt_succ hkn) hge
        exact ⟨hdata, hclosed, hready, hlt, hmark⟩
    · exact .finished hle hskip (.inl rfl) fun _ =>
        ⟨hdata, fun _ => ⟨hready, hlt, by simpa using hmark⟩⟩
    · exact .finished hle hskip (.inl rfl) fun hp => (by simp [State.returnPull, State.probe] at hp)
  · rcases hc with hc | ⟨i, hc⟩ <;> simp [State.consumerStep, hc] at hstep

theorem State.alone_poll (hdata : (s.elem cfg n).flags.data = false) :
    (s.probe n (.poll .tryPull)).alone cfg
      (s.probe n (.loadClosed .tryPull n (s.elem cfg n).flags)) :=
  ⟨false, by rw [consumerStep_poll, if_neg (by simp [hdata])]⟩

/-- `try_pull()` gets to the comparison with the cutoff. -/
theorem State.alone_closed (hdata : (s.elem cfg n).flags.data = false) (hclosed : s.closed = true)
    (hready : s.closedReady = true) :
    Relation.ReflTransGen (State.alone cfg) (s.probe n (.poll .tryPull))
      (s.probe n (.loadClosedAt .tryPull n (s.elem cfg n).flags)) := by
  refine .head (State.alone_poll hdata) ?_
  refine .head ⟨false, (consumerStep_loadClosed cfg s).trans (if_pos hclosed)⟩ ?_
  exact .single ⟨false, by rw [consumerStep_spinReady, if_pos hready]⟩

/-- `try_pull()` steps over a slot. -/
theorem State.skips.alone (h : s.skips cfg n) :
    Relation.ReflTransGen (State.alone cfg) (s.probe n (.poll .tryPull))
      (s.probe (n + 1) (.poll .tryPull)) := by
  obtain ⟨hdata, hclosed, hready, hlt, hmark⟩ := h
  refine (State.alone_closed hdata hclosed hready).tail ⟨false, ?_⟩
  rw [consumerStep_loadClosedAt, if_pos hlt, if_pos hmark]

/-- It reports `EMPTY` at a vacant one. -/
theorem State.vacant.alone (h : s.vacant cfg n) :
    Relation.ReflTransGen (State.alone cfg) (s.probe n (.poll .tryPull))
      ((s.probe n .idle).returnPull .empty) := by
  obtain ⟨hdata, hclosing⟩ := h
  by_cases hclosed : s.closed = true
  · obtain ⟨hready, hlt, hmark⟩ := hclosing hclosed
    refine (State.alone_closed hdata hclosed hready).tail ⟨false, ?_⟩
    rw [consumerStep_loadClosedAt, if_pos hlt, if_neg (by simp [hmark])]
  · refine .head (State.alone_poll hdata) (.single ⟨false, ?_⟩)
    rw [consumerStep_loadClosed, if_neg hclosed]

theorem State.tryPullEmpty_iff : s.tryPullEmpty cfg ↔ s.vacantFrom cfg s.readOffset := by
  constructor
  · rintro ⟨t, hrun, hidle, hpulls⟩
    have hp : Polling cfg s t := by
      clear hidle hpulls
      induction hrun with
      | refl => exact ⟨_, le_rfl, fun k hk hlt => absurd hk (by omega), .inl rfl⟩
      | tail _ hstep ih => exact ih.step hstep
    obtain ⟨n, hle, hskip, hcases⟩ := hp
    rcases hcases with rfl | ⟨-, rfl | ⟨-, rfl | ⟨-, rfl⟩⟩⟩ | ⟨-, hvacant⟩
    · cases hidle
    · cases hidle
    · cases hidle
    · cases hidle
    · exact ⟨n, hle, hskip, hvacant hpulls⟩
  · rintro ⟨n, hle, hskip, hvacant⟩
    refine ⟨_, Relation.ReflTransGen.trans ?_ hvacant.alone, rfl, rfl⟩
    clear hvacant
    induction n, hle using Nat.le_induction with
    | base => exact .refl
    | succ n hle ih =>
      exact (ih fun k hk hlt => hskip k hk (Nat.lt_succ_of_lt hlt)).trans
        (hskip n hle (Nat.lt_succ_self n)).alone

/-- `empty()` agrees with `try_pull()` unless `try_pull()` steps over the slot of
`read_offset` and what it comes to is not vacant. -/
theorem empty_agrees_iff : s.EmptyAgrees cfg ↔
    (s.skips cfg s.readOffset → s.vacantFrom cfg (s.readOffset + 1)) := by
  have hfrom : s.skips cfg s.readOffset →
      (s.vacantFrom cfg s.readOffset ↔ s.vacantFrom cfg (s.readOffset + 1)) := by
    intro hskips
    constructor
    · rintro ⟨n, hle, hskip, hvacant⟩
      refine ⟨n, Nat.lt_of_le_of_ne hle ?_, fun k hk hlt => hskip k (Nat.le_of_succ_le hk) hlt, hvacant⟩
      rintro rfl
      have hmark := (hvacant.2 hskips.2.1).2.2
      exact absurd hskips.2.2.2.2 (by rw [hmark]; simp)
    · rintro ⟨n, hle, hskip, hvacant⟩
      refine ⟨n, Nat.le_of_succ_le hle, fun k hk hlt => ?_, hvacant⟩
      rcases Nat.eq_or_lt_of_le hk with rfl | hgt
      · exact hskips
      · exact hskip k hgt hlt
  rw [State.EmptyAgrees, State.empty_iff, State.tryPullEmpty_iff]
  by_cases hskips : s.skips cfg s.readOffset
  · rw [hfrom hskips]
    exact ⟨fun h _ => h.mp (.inr hskips), fun h => ⟨fun _ => h hskips, fun _ => .inr hskips⟩⟩
  · refine ⟨fun _ h => absurd h hskips, fun _ => ⟨fun h => ?_, fun h => ?_⟩⟩
    · have hvacant := h.resolve_right hskips
      exact ⟨_, le_rfl, fun k hk hlt => absurd hk (by omega), hvacant⟩
    · obtain ⟨n, hle, hskip, hvacant⟩ := h
      rcases Nat.eq_or_lt_of_le hle with rfl | hlt
      · exact .inl hvacant
      · exact absurd (hskip _ le_rfl hlt) hskips

/-- A producer has taken a ticket and stopped, and another task closes the queue. -/
def closeBeforeClaim : List (Act Nat) :=
  [.push 0 7, .task 0 false, .close 1] ++ List.replicate 6 (.task 1 false)

/-- The queue is closed and drained, `try_pull()` says so, and `empty()` returns
true. -/
theorem closeBeforeClaim_disagrees : ∃ s, closeBeforeClaim.foldlM (step oneSlot) .init = some s ∧
    s.consumer = .idle ∧ s.empty oneSlot = some true ∧
    (∃ t, Relation.ReflTransGen (State.alone oneSlot) (s.setConsumer (.poll .tryPull)) t ∧
      t.consumer = .idle ∧ t.pulls = s.pulls ++ [.closed]) ∧ ¬ s.EmptyAgrees oneSlot := by
  refine ⟨_, rfl, rfl, by decide, ?_, fun h => ?_⟩
  · refine ⟨_, (State.skips.alone (n := 0) ⟨rfl, rfl, rfl, by decide, rfl⟩).trans
      ((State.alone_closed rfl rfl rfl).tail ⟨false, rfl⟩), rfl, rfl⟩
  · obtain ⟨n, -, -, -, hclosing⟩ := State.tryPullEmpty_iff.mp (h.mp (by decide))
    obtain ⟨-, -, hmark⟩ := hclosing rfl
    have hslot : oneSlot.slotOf n = 0 := Nat.mod_one _
    rw [State.elem, hslot] at hmark
    cases hmark

end CoroUtil.MpscBounded
