import Mathlib.Data.List.Infix
import CoroUtil.General.System

/-!
# Bounded queues

What a bounded queue with zero-copy reads is for: a push appends values while at
most `cap` of them have not been released, a pull hands out the next value, and
the value is released before the next pull.
-/

namespace CoroUtil.General

structure Fifo (V : Type) where
  pushed : List V
  handed : List V
  released : Nat

namespace Fifo

variable {V : Type} {cap : Nat} {q q' : Fifo V}

def empty : Fifo V := ⟨[], [], 0⟩

inductive Op (V : Type)
  | push (vs : List V)
  | pull
  | release

/-- The operations of a queue that holds up to `cap` unreleased values. -/
def step (cap : Nat) (q : Fifo V) : Op V → Option (Fifo V)
  | .push vs =>
    if q.pushed.length + vs.length ≤ q.released + cap then some { q with pushed := q.pushed ++ vs }
    else none
  | .pull =>
    if q.released = q.handed.length then
      q.pushed[q.handed.length]?.map fun v => { q with handed := q.handed ++ [v] }
    else none
  | .release =>
    if q.released < q.handed.length then some { q with released := q.released + 1 } else none

def system (V : Type) (cap : Nat) : System (Fifo V) (Op V) := .ofStep .empty (step cap)

/-- The values are handed out in order and released one by one, and no more than
`cap` are unreleased. -/
structure Ordered (cap : Nat) (q : Fifo V) : Prop where
  handed : q.handed <+: q.pushed
  released : q.released ≤ q.handed.length ∧ q.handed.length ≤ q.released + 1
  bounded : q.pushed.length ≤ q.released + cap

theorem Ordered.step (h : Ordered cap q) {op : Op V} (hs : step cap q op = some q') :
    Ordered cap q' := by
  obtain ⟨⟨l, hl⟩, hr, hb⟩ := h
  cases op with
  | push vs =>
    simp only [Fifo.step] at hs
    split at hs <;> cases hs
    next hc => exact ⟨⟨l ++ vs, by rw [← List.append_assoc, hl]⟩, hr, by simpa using hc⟩
  | pull =>
    simp only [Fifo.step] at hs
    split at hs
    · next hc =>
      obtain ⟨v, hv, rfl⟩ := Option.map_eq_some_iff.mp hs
      refine ⟨?_, by simp [hc], hb⟩
      cases l with
      | nil => simp [← hl] at hv
      | cons w l =>
        rw [← hl, List.getElem?_append_right le_rfl] at hv
        simp only [Nat.sub_self, List.getElem?_cons_zero, Option.some.injEq] at hv
        exact ⟨l, by rw [← hv, ← hl, List.append_assoc, List.singleton_append]⟩
    · cases hs
  | release =>
    simp only [Fifo.step] at hs
    split at hs <;> cases hs
    next hc => exact ⟨⟨l, hl⟩, ⟨hc, by dsimp only; omega⟩, by dsimp only; omega⟩

theorem ordered (h : (system V cap).Reachable q) : Ordered cap q := by
  refine System.Reach.invariant (I := Ordered cap) ?_ (fun _ _ _ hq _ hs => hq.step hs) h
  rintro q rfl
  exact ⟨List.prefix_rfl, ⟨le_rfl, Nat.zero_le _⟩, Nat.zero_le _⟩

end Fifo

end CoroUtil.General
