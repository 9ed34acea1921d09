import Mathlib.Data.Nat.ModEq
import Mathlib.Tactic.Linarith

/-!
# Offsets on a platform word

The queues keep their offsets in `size_t` words of `PLATFORM_BITS` bits that
wrap.  A model keeps such a word unwrapped, as the natural number counted so
far; `word bits n` is what the register holds.  Addition does not see the
difference, and everything else in the code goes through `word`:
`circularLessThan` is `circular_less_than`, which decides `a < b` from the
wrapped difference, and `circularLessThan_near` says that it is the true order
while the two offsets are less than half the word range apart.
-/

namespace CoroUtil

/-- The register contents of an offset that has counted up to `n`. -/
def word (bits n : Nat) : Nat := n % 2 ^ bits

/-- `circular_less_than(a, b)`: `a - b > 1 << (PLATFORM_BITS - 1)` on words. -/
def circularLessThan (bits a b : Nat) : Bool :=
  decide (2 ^ (bits - 1) < (word bits a + (2 ^ bits - word bits b)) % 2 ^ bits)

theorem word_of_lt {bits n : Nat} (h : n < 2 ^ bits) : word bits n = n := Nat.mod_eq_of_lt h

theorem word_lt {bits n : Nat} : word bits n < 2 ^ bits := Nat.mod_lt _ (Nat.two_pow_pos _)

@[simp] theorem word_word {bits n : Nat} : word bits (word bits n) = word bits n := Nat.mod_mod ..

theorem word_add_word {bits k n : Nat} : word bits (k + word bits n) = word bits (k + n) :=
  Nat.add_mod_mod ..

theorem word_word_add {bits k n : Nat} : word bits (word bits n + k) = word bits (n + k) :=
  Nat.mod_add_mod ..

/-- A word tells offsets apart that are less than its range apart. -/
theorem word_inj {bits a b : Nat} (hab : a ≤ b) (hb : b < a + 2 ^ bits) :
    word bits a = word bits b ↔ a = b := by
  constructor
  · intro h
    have hzero : (b - a) % 2 ^ bits = 0 := Nat.sub_mod_eq_zero_of_mod_eq h.symm
    rw [Nat.mod_eq_of_lt (by omega)] at hzero
    omega
  · exact congrArg _

theorem half_lt {bits n : Nat} (h : n < 2 ^ (bits - 1)) : n < 2 ^ bits :=
  Nat.lt_of_lt_of_le h (Nat.pow_le_pow_right (by omega) (by omega))

/-- The wrapped difference of two offsets is that of the words. -/
theorem sub_word {bits b d : Nat} :
    (word bits (b + d) + (2 ^ bits - word bits b)) % 2 ^ bits = d % 2 ^ bits := by
  have hlt : word bits b < 2 ^ bits := word_lt
  refine Nat.ModEq.add_right_cancel' (word bits b) ?_
  calc (word bits (b + d) + (2 ^ bits - word bits b) + word bits b) % 2 ^ bits
      = (word bits (b + d) + 2 ^ bits) % 2 ^ bits := by
        rw [Nat.add_assoc, Nat.sub_add_cancel hlt.le]
    _ = (b + d) % 2 ^ bits := by rw [Nat.add_mod_right, word, Nat.mod_mod]
    _ = (d + word bits b) % 2 ^ bits := by rw [word, Nat.add_mod_mod, Nat.add_comm]

/-- The comparison with an earlier offset. -/
theorem circularLessThan_add {bits b d : Nat} :
    circularLessThan bits (b + d) b = true ↔ 2 ^ (bits - 1) < d % 2 ^ bits := by
  rw [circularLessThan, sub_word, decide_eq_true_iff]

/-- The comparison with a later offset. -/
theorem circularLessThan_add_right {bits a d : Nat} (hbits : 0 < bits) :
    circularLessThan bits a (a + d) = true ↔
      0 < d % 2 ^ bits ∧ d % 2 ^ bits < 2 ^ (bits - 1) := by
  have hpow : 2 ^ bits = 2 * 2 ^ (bits - 1) := by
    rw [← Nat.pow_succ', Nat.succ_eq_add_one, Nat.sub_add_cancel hbits]
  have hlt : d % 2 ^ bits < 2 ^ bits := word_lt
  have hmod : (a + d + (2 ^ bits - d % 2 ^ bits)) % 2 ^ bits = a % 2 ^ bits := by
    have hdiv := Nat.div_add_mod d (2 ^ bits)
    rw [show a + d + (2 ^ bits - d % 2 ^ bits) = a + 2 ^ bits * (d / 2 ^ bits + 1) by
      rw [Nat.mul_add, Nat.mul_one]; omega, Nat.add_mul_mod_self_left]
  have hword : word bits a = word bits (a + d + (2 ^ bits - d % 2 ^ bits)) := hmod.symm
  rw [circularLessThan, hword, sub_word, decide_eq_true_iff]
  rcases Nat.eq_zero_or_pos (d % 2 ^ bits) with hzero | hpos
  · rw [hzero, Nat.sub_zero, Nat.mod_self]
    omega
  · rw [Nat.mod_eq_of_lt (by omega)]
    omega

/-- Within half the word range of each other the circular comparison is the order
of the offsets. -/
theorem circularLessThan_near {bits a b : Nat} (ha : a < b + 2 ^ (bits - 1))
    (hb : b < a + 2 ^ (bits - 1)) : circularLessThan bits a b = decide (a < b) := by
  rw [Bool.eq_iff_iff, decide_eq_true_iff]
  rcases Nat.lt_or_ge a b with hab | hab
  · obtain ⟨d, rfl⟩ := Nat.exists_eq_add_of_lt hab
    have hbits : 0 < bits := by
      by_contra hzero
      rw [Nat.eq_zero_of_not_pos hzero] at hb
      omega
    have hd : (d + 1) % 2 ^ bits = d + 1 := Nat.mod_eq_of_lt (half_lt (by omega))
    rw [Nat.add_assoc, circularLessThan_add_right hbits, hd]
    omega
  · obtain ⟨d, rfl⟩ := Nat.exists_eq_add_of_le hab
    rw [circularLessThan_add, Nat.mod_eq_of_lt (half_lt (by omega))]
    omega

@[simp] theorem circularLessThan_word {bits a b : Nat} :
    circularLessThan bits (word bits a) (word bits b) = circularLessThan bits a b := by
  rw [circularLessThan, circularLessThan, word_word, word_word]

end CoroUtil
