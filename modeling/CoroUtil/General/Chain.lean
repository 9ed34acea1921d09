import Mathlib.Logic.Function.Basic

/-!
# Intrusive lists

`Linked next o l`: following `next` from the link `o` visits the cells of `l`
in order and ends at a null link.  A write to a cell outside the list leaves it
alone, and moving the first cell of one list in front of another is one write.
-/

namespace CoroUtil.General

variable {ι : Type} {next next' : ι → Option ι} {o : Option ι} {p : ι} {l l' : List ι}

def Linked (next : ι → Option ι) : Option ι → List ι → Prop
  | o, [] => o = none
  | o, p :: l => o = some p ∧ Linked next (next p) l

theorem Linked.head_eq (h : Linked next o l) : o = l.head? := by
  cases l with
  | nil => exact h
  | cons p l => exact h.1

theorem linked_none : Linked next none l ↔ l = [] := by
  cases l with
  | nil => exact ⟨fun _ => rfl, fun _ => rfl⟩
  | cons p l => exact ⟨fun h => absurd h.1 (by simp), fun h => absurd h (by simp)⟩

theorem linked_some : Linked next (some p) l ↔ ∃ l', l = p :: l' ∧ Linked next (next p) l' := by
  cases l with
  | nil => exact ⟨fun h => absurd h (by simp [Linked]), fun ⟨_, h, _⟩ => absurd h (by simp)⟩
  | cons q l =>
    constructor
    · rintro ⟨hq, h⟩
      cases hq
      exact ⟨l, rfl, h⟩
    · rintro ⟨l', hl, h⟩
      cases hl
      exact ⟨rfl, h⟩

theorem Linked.congr (h : Linked next o l) (hn : ∀ p ∈ l, next' p = next p) :
    Linked next' o l := by
  induction l generalizing o with
  | nil => exact h
  | cons p l ih =>
    refine ⟨h.1, ?_⟩
    rw [hn p List.mem_cons_self]
    exact ih h.2 (fun q hq => hn q (List.mem_cons_of_mem p hq))

/-- A write to a cell that is not in the list. -/
theorem Linked.update [DecidableEq ι] (h : Linked next o l) (hp : p ∉ l) (v : Option ι) :
    Linked (Function.update next p v) o l := by
  refine h.congr fun q hq => ?_
  rw [Function.update_of_ne]
  rintro rfl
  exact hp hq

/-- A cell is put in front of a list by one write. -/
theorem Linked.push [DecidableEq ι] (h : Linked next o l) (hp : p ∉ l) :
    Linked (Function.update next p o) (some p) (p :: l) := by
  refine ⟨rfl, ?_⟩
  rw [Function.update_self]
  exact h.update hp o

end CoroUtil.General
