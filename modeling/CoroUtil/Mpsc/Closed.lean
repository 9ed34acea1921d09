import CoroUtil.MpscBounded.Gate
import CoroUtil.MpscUnbounded.Recycling
import CoroUtil.MpscUnbounded.Source

/-!
# Calls after `close()`

`close()` promises that all future calls to `post()` and `push()` return false.  The
closed test compares the ticket of such a call with the ticket of the sentinel, on
words, so it keeps the promise for a ticket that is not too far behind the sentinel:
`Turns` says which, and `later_calls` that it says so exactly.  A `close()` that is
not the first returns without waiting for the sentinel to have its ticket.
`late_calls` is the promise for the runs in which every call that begins after a
`close()` has returned takes a ticket that the sentinel turns away.
-/

namespace CoroUtil

open CoroUtil.General CoroUtil.Blocks

namespace MpscUnbounded

/-- The closed test turns the ticket away that is `d` behind the sentinel's. -/
def Config.Turns (cfg : Config) (d : Nat) : Prop :=
  0 < (d + 1) % 2 ^ cfg.bits ∧ (d + 1) % 2 ^ cfg.bits < 2 ^ (cfg.bits - 1)

theorem Config.turns_iff {cfg : Config} {c d : Nat} :
    (cfg.gate .wrapping).rejects ((cfg.gate .wrapping).reg c)
      ((cfg.gate .wrapping).reg (c + d)) = true ↔ cfg.Turns d := by
  change circularLessThan cfg.bits (word cfg.bits c)
    (word cfg.bits (1 + word cfg.bits (c + d))) = true ↔ _
  rw [word_add_word, circularLessThan_word, show 1 + (c + d) = c + (d + 1) by omega,
    circularLessThan_add_right (by have := cfg.log_lt; omega), Config.Turns]

variable {V : Type} {cfg : Config} {x : Traced V}

instance {d : Nat} : Decidable (cfg.Turns d) := inferInstanceAs (Decidable (_ ∧ _))

/-- The task is about to take its ticket. -/
def Pc.fetches : Pc V → Bool
  | fetchTicket _ => true
  | _ => false

/-- A late call takes its ticket behind the sentinel and not too far behind it. -/
def Behind (cfg : Config) (x : Traced V) : Act V → Prop
  | .task p _ => (x.state.task p).fetches = true → x.trace.late p = true →
      ∃ c ∈ x.trace.sentinel, c ≤ x.trace.tickets ∧ cfg.Turns (x.trace.tickets - c)
  | .post .. | .bulk .. | .close _ | .pull _ | .empty | .consumer _ | .release => True

instance {a : Act V} : Decidable (Behind cfg x a) :=
  match a with
  | .task _ _ => inferInstanceAs (Decidable (_ → _ → _))
  | .post .. | .bulk .. | .close _ | .pull _ | .empty | .consumer _ | .release => .isTrue trivial

theorem Behind.timely {a : Act V} (h : Behind cfg x a) : Timely .wrapping cfg x a := by
  intro p hp n hn hl
  cases a with
  | task q spurious =>
    cases hp
    replace hn : (x.state.task p).phase = .begun n := hn
    -- only a task that is about to take its ticket is at the start of the gate
    have hfetch : (x.state.task p).fetches = true := by
      cases hpc : x.state.task p
      case fetchTicket w => rfl
      case loadHint j _ | hintOffset j _ _ | loadWriteBlock j _ | assertWriteBlock j _ _
          | find j _ _ _ =>
        rw [hpc] at hn
        cases j <;> cases hn
      all_goals
        rw [hpc] at hn
        cases hn
    obtain ⟨c, hc, hle, ht⟩ := h hfetch hl
    refine ⟨c, hc, ?_⟩
    obtain ⟨d, hd⟩ := Nat.exists_eq_add_of_le hle
    rw [hd, Nat.add_sub_cancel_left] at ht
    rw [hd]
    exact Config.turns_iff.mpr ht
  | _ => cases hp

theorem reach_sound (h : (traced V .wrapping cfg).Reach (Behind cfg) x) :
    Sound .wrapping cfg x := by
  refine System.Reach.invariant (I := Sound .wrapping cfg) ?_ ?_ h
  · rintro x rfl
    exact .init
  · exact fun x a y hx ha hs => hx.step ha.timely hs

/-- A call that begins after the queue has been closed returns false exactly when the
closed test turns its ticket away. -/
theorem later_call (h : (traced V .wrapping cfg).Reachable x) {r : Gate.Call}
    (hr : r ∈ x.trace.returned) (ha : r.after = true) :
    ∃ c, x.trace.sentinel = some c ∧ c < r.ticket ∧ (r.ok = false ↔ cfg.Turns (r.ticket - c)) := by
  have hs := (traced_gate h).returned r hr
  obtain ⟨c, hc, hlt⟩ := hs.after ha
  obtain ⟨c', hc', hyes, hno⟩ := hs.ok (hs.late ha)
  cases hc.symm.trans hc'
  refine ⟨c, hc, hlt, ?_⟩
  obtain ⟨d, hd⟩ := Nat.exists_eq_add_of_le hlt.le
  rw [hd] at hyes hno ⊢
  rw [Nat.add_sub_cancel_left, ← Config.turns_iff (c := c)]
  constructor
  · intro hok
    by_contra hne
    rcases hno (Bool.not_eq_true _ ▸ hne) with htrue | hfail
    · cases hok.symm.trans htrue
    · cases hfail
  · exact hyes

end MpscUnbounded

namespace MpscBounded

/-- The closed test turns the ticket away that is `d` behind the sentinel's. -/
def Config.Turns (cfg : Config) (d : Nat) : Prop := d % 2 ^ cfg.bits ≤ 2 ^ (cfg.bits - 1)

theorem Config.turns_iff {cfg : Config} {c d : Nat} :
    cfg.gate.rejects (cfg.gate.reg c) (cfg.gate.reg (c + d)) = true ↔ cfg.Turns d := by
  change (!circularLessThan cfg.bits (c + d) c) = true ↔ _
  rw [Bool.not_eq_true', ← Bool.not_eq_true, circularLessThan_add, Nat.not_lt, Config.Turns]

variable {V : Type} {cfg : Config} {x : Traced V}

instance {d : Nat} : Decidable (cfg.Turns d) := inferInstanceAs (Decidable (_ ≤ _))

/-- The task is about to take its ticket. -/
def Pc.fetches : Pc V → Bool
  | fetchTicket _ => true
  | _ => false

/-- A late call takes its ticket behind the sentinel and not too far behind it. -/
def Behind (cfg : Config) (x : Traced V) : Act V → Prop
  | .task p _ => (x.state.task p).fetches = true → x.trace.late p = true →
      ∃ c ∈ x.trace.sentinel, c ≤ x.trace.tickets ∧ cfg.Turns (x.trace.tickets - c)
  | .push .. | .close _ | .pull _ | .consumer _ | .release => True

instance {a : Act V} : Decidable (Behind cfg x a) :=
  match a with
  | .task _ _ => inferInstanceAs (Decidable (_ → _ → _))
  | .push .. | .close _ | .pull _ | .consumer _ | .release => .isTrue trivial

theorem Behind.timely {a : Act V} (h : Behind cfg x a) : Timely cfg x a := by
  intro p hp n hn hl
  cases a with
  | task q spurious =>
    cases hp
    replace hn : (x.state.task p).phase = .begun n := hn
    -- only a task that is about to take its ticket is at the start of the gate
    have hfetch : (x.state.task p).fetches = true := by
      cases hpc : x.state.task p
      case fetchTicket v => rfl
      all_goals
        rw [hpc] at hn
        cases hn
    obtain ⟨c, hc, hle, ht⟩ := h hfetch hl
    refine ⟨c, hc, ?_⟩
    obtain ⟨d, hd⟩ := Nat.exists_eq_add_of_le hle
    rw [hd, Nat.add_sub_cancel_left] at ht
    rw [hd]
    exact Config.turns_iff.mpr ht
  | _ => cases hp

theorem reach_sound (h : (traced V cfg).Reach (Behind cfg) x) : Sound cfg x := by
  refine System.Reach.invariant (I := Sound cfg) ?_ ?_ h
  · rintro x rfl
    exact .init
  · exact fun x a y hx ha hs => hx.step ha.timely hs

/-- A push that begins after the queue has been closed returns false when the closed
test turns its ticket away. -/
theorem later_call (h : (traced V cfg).Reachable x) {r : Gate.Call}
    (hr : r ∈ x.trace.returned) (ha : r.after = true) :
    ∃ c, x.trace.sentinel = some c ∧ c < r.ticket ∧ (cfg.Turns (r.ticket - c) → r.ok = false) := by
  have hs := (traced_gate h).returned r hr
  obtain ⟨c, hc, hlt⟩ := hs.after ha
  obtain ⟨c', hc', hyes, -⟩ := hs.ok (hs.late ha)
  cases hc.symm.trans hc'
  refine ⟨c, hc, hlt, ?_⟩
  obtain ⟨d, hd⟩ := Nat.exists_eq_add_of_le hlt.le
  rw [hd] at hyes ⊢
  rw [Nat.add_sub_cancel_left, ← Config.turns_iff (c := c)]
  exact hyes

end MpscBounded

/-! ## Both queues -/

section Both

variable {V : Type} {cfg : MpscUnbounded.Config} {cfg' : MpscBounded.Config}
  {x : MpscUnbounded.Traced V} {y : MpscBounded.Traced V}

/-- **Closed stays closed.**  A call that begins when the queue has been closed returns
false while its ticket is one that the closed test turns away. -/
theorem closed_stays_closed (hx : (MpscUnbounded.traced V .wrapping cfg).Reachable x)
    (hy : (MpscBounded.traced V cfg').Reachable y) :
    (∀ r ∈ x.trace.returned, r.after = true → ∃ c, x.trace.sentinel = some c ∧ c < r.ticket ∧
      (r.ok = false ↔ cfg.Turns (r.ticket - c))) ∧
    ∀ r ∈ y.trace.returned, r.after = true → ∃ c, y.trace.sentinel = some c ∧ c < r.ticket ∧
      (cfg'.Turns (r.ticket - c) → r.ok = false) :=
  ⟨fun _ hr ha => MpscUnbounded.later_call hx hr ha, fun _ hr ha => MpscBounded.later_call hy hr ha⟩

/-- **A `close()` that has returned.**  When every late call takes a ticket that the
sentinel turns away, late calls return false, and what the consumer is handed was put
by calls that are not late. -/
theorem close_takes_effect
    (hx : (MpscUnbounded.traced V .wrapping cfg).Reach (MpscUnbounded.Behind cfg) x)
    (hy : (MpscBounded.traced V cfg').Reach (MpscBounded.Behind cfg') y) :
    ((∀ r ∈ x.trace.returned, r.late = true → r.ok = false) ∧
      ∀ n v, .ok n v ∈ x.state.pulls → ∃ w ∈ x.early, w.Has v) ∧
    (∀ r ∈ y.trace.returned, r.late = true → r.ok = false) ∧
      ∀ n v, .ok n v ∈ y.state.pulls → v ∈ y.early := by
  have hu := MpscUnbounded.reach_sound hx
  have hb := MpscBounded.reach_sound hy
  exact ⟨⟨hu.turned.returned, hu.carries.pulls⟩, hb.turned.returned, hb.carries.pulls⟩

end Both

/-! ## Runs -/

namespace MpscUnbounded

/-- A 32-bit platform, blocks of 256 elements, and a consumer that does not suspend. -/
def spinning : Config := ⟨⟨32, 8, by decide⟩, false⟩

/-- 5 is posted and pulled and the queue is closed.  2^32 - 2 items are rejected, and
the post behind them has a ticket that the closed test takes for the first. -/
def lap : List (Act Nat) := List.flatten
  [[.post 0 5], taskSteps 0 10, [.pull .tryPull], consumerSteps 3, [.release],
   [.close 1], taskSteps 1 8, [.bulk 2 id (2 ^ 32 - 2)], taskSteps 2 4, [.post 2 7], taskSteps 2 12]

theorem lap_accepted : ∃ x, (traced Nat .wrapping spinning).Reachable x ∧
    x.state.broken = false ∧ ∃ r ∈ x.trace.returned, r.after = true ∧ r.ok = true := by
  have hrun : (lap.foldlM (tracedStep .wrapping spinning) ⟨.init, .init, []⟩).any (fun x =>
      !x.state.broken && x.trace.returned.any fun r => r.after && r.ok) = true := by decide +kernel
  obtain ⟨x, hx, hp⟩ := (Option.any_eq_true _ _).mp hrun
  rw [Bool.and_eq_true, Bool.not_eq_true', List.any_eq_true] at hp
  obtain ⟨r, hr, hok⟩ := hp.2
  rw [Bool.and_eq_true] at hok
  exact ⟨x, System.ofStep_reachable lap hx, hp.1, r, hr, hok⟩

/-- Task 1 has won the compare-exchange of `close()` when task 2's `close()` returns.
5 is posted by a task that takes its ticket before the sentinel's. -/
def lostClose : List (Act Nat) := List.flatten
  [[.close 1, .task 1 false, .close 2, .task 2 false, .post 0 5], taskSteps 0 2, taskSteps 1 3,
   taskSteps 0 10, [.pull .tryPull], consumerSteps 3]

end MpscUnbounded

namespace MpscBounded

/-- Task 1 has won the compare-exchange of `close()` when task 2's `close()` returns.
5 is pushed by a task that takes its ticket before the sentinel's. -/
def lostClose : List (Act Nat) := List.flatten
  [[.close 1, .task 1 false, .close 2, .task 2 false, .push 0 5], List.replicate 2 (.task 0 false),
   List.replicate 3 (.task 1 false), List.replicate 7 (.task 0 false),
   [.pull .tryPull, .consumer false]]

end MpscBounded

/-- In both queues a value can be delivered whose call began after a `close()` had
returned. -/
theorem lostClose_accepted :
    (∃ x, (MpscUnbounded.traced Nat .wrapping MpscUnbounded.thirtyTwoBits).Reachable x ∧
      (∃ r ∈ x.trace.returned, r.late = true ∧ r.ok = true) ∧ x.early = [] ∧
      .ok 0 5 ∈ x.state.pulls) ∧
    ∃ y, (MpscBounded.traced Nat MpscBounded.twoSlots).Reachable y ∧
      (∃ r ∈ y.trace.returned, r.late = true ∧ r.ok = true) ∧ y.early = [] ∧
      .ok 0 5 ∈ y.state.pulls := by
  constructor
  · obtain ⟨x, hx, hr, he, hp⟩ : ∃ x, MpscUnbounded.lostClose.foldlM
        (MpscUnbounded.tracedStep .wrapping MpscUnbounded.thirtyTwoBits) ⟨.init, .init, []⟩ =
          some x ∧ x.trace.returned = [⟨true, false, 0, true⟩] ∧ x.early = [] ∧
          x.state.pulls = [.ok 0 5] := ⟨_, rfl, rfl, rfl, rfl⟩
    refine ⟨x, System.ofStep_reachable _ hx, ⟨_, hr ▸ List.mem_singleton_self _, rfl, rfl⟩, he, ?_⟩
    exact hp ▸ List.mem_singleton_self _
  · obtain ⟨y, hy, hr, he, hp⟩ : ∃ y, MpscBounded.lostClose.foldlM
        (MpscBounded.tracedStep MpscBounded.twoSlots) ⟨.init, .init, []⟩ = some y ∧
          y.trace.returned = [⟨true, false, 0, true⟩] ∧ y.early = [] ∧
          y.state.pulls = [.ok 0 5] := ⟨_, rfl, rfl, rfl, rfl⟩
    refine ⟨y, System.ofStep_reachable _ hy, ⟨_, hr ▸ List.mem_singleton_self _, rfl, rfl⟩, he, ?_⟩
    exact hp ▸ List.mem_singleton_self _

/-- 5 is posted and pulled.  Task 2's `close()` loses the compare-exchange to task 0's and
returns, and a call begins when task 0's has returned too. -/
def MpscUnbounded.closeThenPost : List (MpscUnbounded.Act Nat) := List.flatten
  [[.post 1 5], MpscUnbounded.taskSteps 1 10, [.pull .tryPull], MpscUnbounded.consumerSteps 3,
   [.close 0, .task 0 false, .close 2, .task 2 false], MpscUnbounded.taskSteps 0 7, [.post 1 6],
   MpscUnbounded.taskSteps 1 4]

def MpscBounded.closeThenPush : List (MpscBounded.Act Nat) := List.flatten
  [[.push 1 5], List.replicate 7 (.task 1 false), [.pull .tryPull, .consumer false],
   [.close 0, .task 0 false, .close 2, .task 2 false], List.replicate 5 (.task 0 false),
   [.push 1 6], List.replicate 4 (.task 1 false)]

/-- The runs of `closeThenPost` and `closeThenPush`, every move of them checked. -/
theorem reach_closeThenPut :
    (∃ x, (MpscUnbounded.traced Nat .wrapping MpscUnbounded.thirtyTwoBits).Reach
      (MpscUnbounded.Behind MpscUnbounded.thirtyTwoBits) x ∧ x.state.closes = 2 ∧
      x.trace.returned = [⟨false, false, 0, true⟩, ⟨true, true, 2, false⟩] ∧
      x.state.pulls = [.ok 0 5]) ∧
    ∃ y, (MpscBounded.traced Nat MpscBounded.twoSlots).Reach
      (MpscBounded.Behind MpscBounded.twoSlots) y ∧ y.state.closes = 2 ∧
      y.trace.returned = [⟨false, false, 0, true⟩, ⟨true, true, 2, false⟩] ∧
      y.state.pulls = [.ok 0 5] := by
  constructor
  · obtain ⟨x, hx, hc, hr, hp⟩ : ∃ x, MpscUnbounded.closeThenPost.foldlM (fun s a =>
        if MpscUnbounded.Behind MpscUnbounded.thirtyTwoBits s a then
          MpscUnbounded.tracedStep .wrapping MpscUnbounded.thirtyTwoBits s a else none)
        ⟨.init, .init, []⟩ = some x ∧ x.state.closes = 2 ∧
        x.trace.returned = [⟨false, false, 0, true⟩, ⟨true, true, 2, false⟩] ∧
        x.state.pulls = [.ok 0 5] := ⟨_, rfl, rfl, rfl, rfl⟩
    exact ⟨x, System.ofStep_reach _ (.init rfl) hx, hc, hr, hp⟩
  · obtain ⟨y, hy, hc, hr, hp⟩ : ∃ y, MpscBounded.closeThenPush.foldlM (fun s a =>
        if MpscBounded.Behind MpscBounded.twoSlots s a then
          MpscBounded.tracedStep MpscBounded.twoSlots s a else none)
        ⟨.init, .init, []⟩ = some y ∧ y.state.closes = 2 ∧
        y.trace.returned = [⟨false, false, 0, true⟩, ⟨true, true, 2, false⟩] ∧
        y.state.pulls = [.ok 0 5] := ⟨_, rfl, rfl, rfl, rfl⟩
    exact ⟨y, System.ofStep_reach _ (.init rfl) hy, hc, hr, hp⟩

theorem closed_stays_closed_closeThenPut :
    ∃ (x : MpscUnbounded.Traced Nat) (y : MpscBounded.Traced Nat),
      x.trace.returned = [⟨false, false, 0, true⟩, ⟨true, true, 2, false⟩] ∧
      y.trace.returned = [⟨false, false, 0, true⟩, ⟨true, true, 2, false⟩] ∧
      (∀ r ∈ x.trace.returned, r.after = true → ∃ c, x.trace.sentinel = some c ∧ c < r.ticket ∧
        (r.ok = false ↔ MpscUnbounded.thirtyTwoBits.Turns (r.ticket - c))) ∧
      ∀ r ∈ y.trace.returned, r.after = true → ∃ c, y.trace.sentinel = some c ∧ c < r.ticket ∧
        (MpscBounded.twoSlots.Turns (r.ticket - c) → r.ok = false) := by
  obtain ⟨⟨x, hx, -, hrx, -⟩, y, hy, -, hry, -⟩ := reach_closeThenPut
  exact ⟨x, y, hrx, hry, closed_stays_closed hx.reachable hy.reachable⟩

theorem close_takes_effect_closeThenPut :
    ∃ (x : MpscUnbounded.Traced Nat) (y : MpscBounded.Traced Nat),
      x.state.closes = 2 ∧ x.trace.returned = [⟨false, false, 0, true⟩, ⟨true, true, 2, false⟩] ∧
      x.state.pulls = [.ok 0 5] ∧
      y.state.closes = 2 ∧ y.trace.returned = [⟨false, false, 0, true⟩, ⟨true, true, 2, false⟩] ∧
      y.state.pulls = [.ok 0 5] ∧
      ((∀ r ∈ x.trace.returned, r.late = true → r.ok = false) ∧
        ∀ n v, .ok n v ∈ x.state.pulls → ∃ w ∈ x.early, w.Has v) ∧
      (∀ r ∈ y.trace.returned, r.late = true → r.ok = false) ∧
        ∀ n v, .ok n v ∈ y.state.pulls → v ∈ y.early := by
  obtain ⟨⟨x, hx, hcx, hrx, hpx⟩, y, hy, hcy, hry, hpy⟩ := reach_closeThenPut
  exact ⟨x, y, hcx, hrx, hpx, hcy, hry, hpy, close_takes_effect hx hy⟩

end CoroUtil
