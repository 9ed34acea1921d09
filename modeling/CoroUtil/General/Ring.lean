import Mathlib.Logic.Function.Basic

/-!
# Rings

`Ring cap start cell slots`: of an unbounded tape `cell` the `cap` cells from
`start` on are kept in the slots of a ring, the cell `n` in the slot `n % cap`.
A write to a slot is a write to the cell of the window it stands for, and when
the window moves on the slot of the cell that leaves it is that of the cell that
enters.
-/

namespace CoroUtil.General

variable {α : Type} {cap start i n m : Nat} {cell cell' : Nat → α} {slots : Nat → α} {x : α}

def Ring (cap start : Nat) (cell slots : Nat → α) : Prop :=
  ∀ n, start ≤ n → n < start + cap → slots (n % cap) = cell n

/-- Two cells of a window are in different slots. -/
theorem mod_ne_of_window (hn : start ≤ n ∧ n < start + cap) (hm : start ≤ m ∧ m < start + cap)
    (hne : n ≠ m) : n % cap ≠ m % cap := by
  intro h
  rcases Nat.lt_or_gt_of_ne hne with hlt | hlt
  · have hd : (m - n) % cap = 0 := Nat.sub_mod_eq_zero_of_mod_eq h.symm
    rw [Nat.mod_eq_of_lt (by omega)] at hd
    omega
  · have hd : (n - m) % cap = 0 := Nat.sub_mod_eq_zero_of_mod_eq h
    rw [Nat.mod_eq_of_lt (by omega)] at hd
    omega

theorem Ring.congr (h : Ring cap start cell slots)
    (hc : ∀ n, start ≤ n → n < start + cap → cell' n = cell n) : Ring cap start cell' slots := by
  intro n hn hlt
  rw [h n hn hlt, hc n hn hlt]

/-- A write to the slot of a cell of the window. -/
theorem Ring.write (h : Ring cap start cell slots) (hi : start ≤ i) (hlt : i < start + cap)
    (hx : cell' i = x) (hc : ∀ n, start ≤ n → n < start + cap → n ≠ i → cell' n = cell n) :
    Ring cap start cell' (Function.update slots (i % cap) x) := by
  intro n hn hn'
  by_cases hni : n = i
  · rw [hni, Function.update_self, hx]
  · rw [Function.update_of_ne (mod_ne_of_window ⟨hn, hn'⟩ ⟨hi, hlt⟩ hni), h n hn hn', hc n hn hn' hni]

/-- The first cell leaves the window, and the cell that enters it finds what the
last write to the slot of the first left there. -/
theorem Ring.advance (h : Ring cap start cell slots) (hx : cell' (start + cap) = x)
    (hc : ∀ n, start < n → n < start + cap → cell' n = cell n) :
    Ring cap (start + 1) cell' (Function.update slots (start % cap) x) := by
  intro n hn hn'
  by_cases hlast : n = start + cap
  · rw [hlast, Nat.add_mod_right, Function.update_self, hx]
  · have hin : start ≤ n ∧ n < start + cap := ⟨by omega, by omega⟩
    have hne := mod_ne_of_window hin ⟨Nat.le_refl start, by omega⟩ (by omega)
    rw [Function.update_of_ne hne, h n hin.1 hin.2, hc n hn hin.2]

/-- The cell a ring position in the lap after the window's first cell shows. -/
theorem Ring.lap (h : Ring cap start cell slots) (hn : start + cap ≤ n) (hlt : n < start + 2 * cap) :
    slots (n % cap) = cell (n - cap) := by
  rw [← h (n - cap) (by omega) (by omega), Nat.mod_eq_sub_mod (by omega : n ≥ cap)]

end CoroUtil.General
