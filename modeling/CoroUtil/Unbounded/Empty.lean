import CoroUtil.MpscUnbounded.Empty
import CoroUtil.SpscUnbounded.Empty

/-!
# `empty()` of the unbounded single-consumer queues

While a published value waits at `read_offset`, `empty()` comes to its answer, and the
answer is no unless the consumer holds a scope that `await_suspend` has got in exchange
for its own pointer.  `qu_mpsc_unbounded` is looked at inside the window in which its
offsets compare as numbers.
-/

namespace CoroUtil

open CoroUtil.General CoroUtil.Blocks

/-- **What `empty()` tells.** -/
theorem empty_tells {V : Type} {cfg : SpscUnbounded.Config} {s : SpscUnbounded.State V}
    (hs : (SpscUnbounded.system V .wrapping cfg).Reachable s) (hw : s.Waits)
    {cfg' : MpscUnbounded.Config} (acts : List (MpscUnbounded.Act V))
    (hrun : ∀ k x, (acts.take k).foldlM (MpscUnbounded.noteStep .natural cfg') (.init, false) =
      some x → MpscUnbounded.Window cfg' x.1) {x : MpscUnbounded.State V × Bool}
    (hx : acts.foldlM (MpscUnbounded.noteStep .wrapping cfg') (.init, false) = some x) :
    SpscUnbounded.Tells .wrapping cfg s ∧ MpscUnbounded.Tells .wrapping cfg' x.1 x.2 :=
  ⟨SpscUnbounded.tells hs hw, MpscUnbounded.tells acts hrun hx⟩

/-- In both queues a value waits, its scope is alive, and `empty()` answers yes. -/
theorem raceThenEmpty_hides :
    (∃ s s', (SpscUnbounded.system Nat .wrapping SpscUnbounded.oneSlot).Reachable s ∧ s.Waits ∧
      s.consumer = .emptyPoll (some (0, 0)) 0 ∧
      SpscUnbounded.step .wrapping SpscUnbounded.oneSlot s .consumer = some s' ∧
      s'.empties = [true]) ∧
    ∃ s s', (MpscUnbounded.system Nat .wrapping MpscUnbounded.thirtyTwoBits).Reachable s ∧
      s.Waits .wrapping MpscUnbounded.thirtyTwoBits 0 ∧
      s.consumer = .emptyPoll (some (0, 0)) 0 ∧
      MpscUnbounded.step .wrapping MpscUnbounded.thirtyTwoBits s (.consumer false) = some s' ∧
      s'.empties = [true] := by
  constructor
  · obtain ⟨s, hs, hw, hpc, s', hs', he⟩ : ∃ s, SpscUnbounded.raceThenEmpty.foldlM
        (SpscUnbounded.step .wrapping SpscUnbounded.oneSlot) .init = some s ∧ s.Waits ∧
        s.consumer = .emptyPoll (some (0, 0)) 0 ∧ ∃ s',
        SpscUnbounded.step .wrapping SpscUnbounded.oneSlot s .consumer = some s' ∧
        s'.empties = [true] := ⟨_, rfl, Nat.one_lt_two, rfl, _, rfl, rfl⟩
    exact ⟨s, s', System.ofStep_reachable _ hs, hw, hpc, hs', he⟩
  · obtain ⟨s, hs, hd, ht, hpc, s', hs', he⟩ : ∃ s, MpscUnbounded.raceThenEmpty.foldlM
        (MpscUnbounded.step .wrapping MpscUnbounded.thirtyTwoBits) .init = some s ∧
        (s.elem MpscUnbounded.thirtyTwoBits 0 s.readOffset).data = some 7 ∧
        (∀ p, s.task p = .idle) ∧ s.consumer = .emptyPoll (some (0, 0)) 0 ∧ ∃ s',
        MpscUnbounded.step .wrapping MpscUnbounded.thirtyTwoBits s (.consumer false) = some s' ∧
        s'.empties = [true] := by
      refine ⟨_, rfl, rfl, fun p => ?_, rfl, _, rfl, rfl⟩
      cases p <;> rfl
    refine ⟨s, s', System.ofStep_reachable _ hs, ⟨by simp [hd], fun p n hn => ?_⟩, hpc, hs', he⟩
    rw [ht p] at hn
    cases hn

theorem empty_tells_raceThenEmpty :
    ∃ s x, SpscUnbounded.raceThenEmpty.foldlM
        (SpscUnbounded.step .wrapping SpscUnbounded.oneSlot) .init = some s ∧
      MpscUnbounded.raceThenEmpty.foldlM
        (MpscUnbounded.noteStep .wrapping MpscUnbounded.thirtyTwoBits) (.init, false) = some x ∧
      SpscUnbounded.Tells .wrapping SpscUnbounded.oneSlot s ∧
      MpscUnbounded.Tells .wrapping MpscUnbounded.thirtyTwoBits x.1 x.2 := by
  obtain ⟨s, hs, hw⟩ : ∃ s, SpscUnbounded.raceThenEmpty.foldlM
      (SpscUnbounded.step .wrapping SpscUnbounded.oneSlot) .init = some s ∧ s.Waits :=
    ⟨_, rfl, Nat.one_lt_two⟩
  obtain ⟨x, hx⟩ : ∃ x, MpscUnbounded.raceThenEmpty.foldlM
      (MpscUnbounded.noteStep .wrapping MpscUnbounded.thirtyTwoBits) (.init, false) = some x :=
    ⟨_, rfl⟩
  have hrun : ∀ k x, (MpscUnbounded.raceThenEmpty.take k).foldlM
      (MpscUnbounded.noteStep .natural MpscUnbounded.thirtyTwoBits) (.init, false) = some x →
        MpscUnbounded.Window MpscUnbounded.thirtyTwoBits x.1 := fun k x hx =>
    System.ofStep_take MpscUnbounded.raceThenEmpty (P := fun x =>
      MpscUnbounded.Window MpscUnbounded.thirtyTwoBits x.1) (by decide) (by decide +kernel) k hx
  exact ⟨s, x, hs, hx, empty_tells (System.ofStep_reachable _ hs) hw _ hrun hx⟩

end CoroUtil
