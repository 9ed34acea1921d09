import CoroUtil.MpscUnbounded.Wrap

/-!
# The assertions

`broken` records the assertions that fail, and with them a value constructed over
another, a null pointer that is followed, and the resumption of a coroutine that is not
suspended.  With two elements a block or more there are none in a run inside the window:
`asserts_hold`.  With one element a block `read_offset` is in the next block when
`try_start_reclaim` looks at it: `roundTrip_fails`.
-/

namespace CoroUtil.MpscUnbounded

open CoroUtil.Blocks CoroUtil.General

variable {V : Type} {cfg : Config}

/-- **Assertions.**  With two elements a block or more no assertion fails in a run
inside the window. -/
theorem asserts_hold (hB : 1 < cfg.blockSize) (acts : List (Act V))
    (hrun : ∀ k (s : State V),
      (acts.take k).foldlM (step .natural cfg) .init = some s → Window cfg s) {t : State V}
    (ht : acts.foldlM (step .wrapping cfg) .init = some t) : t.broken = false := by
  have hwrap := run_wrap (fun s m h (hw : Window cfg s) => hw.near h) acts .init hrun
  rw [State.wrap_init, ht] at hwrap
  obtain ⟨s, hs, rfl⟩ := Option.map_eq_some_iff.mp hwrap.symm
  obtain ⟨m, h⟩ := reachable_inv (System.ofStep_reachable acts hs)
  exact h.sound hB

theorem asserts_hold_wrapThenClose :
    ∃ t, wrapThenClose.foldlM (step .wrapping fourBits) .init = some t ∧ t.writeOffset = 5 ∧
      t.pendingReclaim = some (2, 0) ∧ t.broken = false := by
  have hrun : (wrapThenClose.foldlM (step .wrapping fourBits) .init).any (fun t =>
      t.writeOffset = 5 && t.pendingReclaim = some (2, 0)) = true := by
    decide +kernel
  obtain ⟨t, ht, hand⟩ := (Option.any_eq_true _ _).mp hrun
  rw [Bool.and_eq_true, decide_eq_true_iff, decide_eq_true_iff] at hand
  exact ⟨t, ht, hand.1, hand.2, asserts_hold (by decide) wrapThenClose window_of_wrapThenClose ht⟩

/-- One element a block and 64-bit offsets. -/
def oneElement : Config := ⟨⟨64, 0, by decide⟩, true⟩

/-- A value is posted, pulled and released, and the consumer comes to `try_start_reclaim`. -/
def roundTrip : List (Act Nat) :=
  List.flatten [[.post 0 5], taskSteps 0 10, [.pull .pull], consumerSteps 3, [.release]]

/-- With one element a block the first assertion of `try_start_reclaim` fails. -/
theorem roundTrip_fails : ∃ s t, (system Nat .wrapping oneElement).Reachable s ∧
    s.consumer = .assertHead 0 ∧ s.broken = false ∧
    s.offset 0 = 0 ∧ oneElement.base s.readOffset = 1 ∧
    step .wrapping oneElement s (.consumer false) = some t ∧ t.broken = true := by
  obtain ⟨s, hs, hc, hn, ho, hr, t, ht, hb⟩ : ∃ s,
      roundTrip.foldlM (step .wrapping oneElement) .init = some s ∧
      s.consumer = .assertHead 0 ∧ s.broken = false ∧ s.offset 0 = 0 ∧
      oneElement.base s.readOffset = 1 ∧
      ∃ t, step .wrapping oneElement s (.consumer false) = some t ∧ t.broken = true :=
    ⟨_, rfl, rfl, rfl, rfl, rfl, _, rfl, rfl⟩
  exact ⟨s, t, System.ofStep_reachable roundTrip hs, hc, hn, ho, hr, ht, hb⟩

end CoroUtil.MpscUnbounded
