import Mathlib.Data.Nat.Nth

/-!
# Visits

A process goes through the indices `0, 1, 2, ...` and at index `i` visits the
place `f i`.  `visits f k n` counts its visits to `k` before index `n`, and
`visit f k j` is the index of the visit that `j` others precede.  A set of
earlier indices of `k` is no larger than `visits`, and one that has them all is
no smaller.
-/

namespace CoroUtil.General

variable {κ : Type} [DecidableEq κ] (f : ℕ → κ)

def visits (k : κ) (n : ℕ) : ℕ := Nat.count (fun i => f i = k) n

@[simp] theorem visits_zero (k : κ) : visits f k 0 = 0 := Nat.count_zero _

theorem visits_succ (k : κ) (n : ℕ) :
    visits f k (n + 1) = visits f k n + if f n = k then 1 else 0 := Nat.count_succ _ n

noncomputable def visit (k : κ) (j : ℕ) : ℕ := Nat.nth (fun i => f i = k) j

variable {f} {k : κ} {n : ℕ}

theorem visits_succ_of_eq (h : f n = k) : visits f k (n + 1) = visits f k n + 1 := by
  rw [visits_succ, if_pos h]

theorem visits_succ_of_ne (h : f n ≠ k) : visits f k (n + 1) = visits f k n := by
  rw [visits_succ, if_neg h, Nat.add_zero]

theorem visits_mono {m : ℕ} (h : m ≤ n) : visits f k m ≤ visits f k n := Nat.count_monotone _ h

theorem visits_lt {m : ℕ} (hm : f m = k) (h : m < n) : visits f k m < visits f k n :=
  Nat.count_strict_mono hm h

theorem lt_of_visits_lt {m : ℕ} (h : visits f k m < visits f k n) : m < n :=
  Nat.lt_of_count_lt_count h

theorem eq_of_visits_eq {m : ℕ} (hm : f m = k) (hn : f n = k) (h : visits f k m = visits f k n) :
    m = n := Nat.count_injective hm hn h

theorem card_le_visits {S : Finset ℕ} (h : ∀ i ∈ S, i < n ∧ f i = k) : S.card ≤ visits f k n := by
  rw [visits, Nat.count_eq_card_filter_range]
  refine Finset.card_le_card fun i hi => ?_
  rw [Finset.mem_filter, Finset.mem_range]
  exact h i hi

theorem visits_le_card {S : Finset ℕ} (h : ∀ i < n, f i = k → i ∈ S) : visits f k n ≤ S.card := by
  rw [visits, Nat.count_eq_card_filter_range]
  refine Finset.card_le_card fun i hi => ?_
  rw [Finset.mem_filter, Finset.mem_range] at hi
  exact h i hi.1 hi.2

/-- While there is a visit after the first `j`, it is at `visit f k j`. -/
theorem visit_spec {j : ℕ} (h : j < visits f k n) :
    f (visit f k j) = k ∧ visits f k (visit f k j) = j := by
  have hcard : ∀ hf : (Set.ofPred (fun i => f i = k)).Finite, j < hf.toFinset.card :=
    fun hf => Nat.lt_of_lt_of_le h (Nat.count_le_card hf n)
  exact ⟨Nat.nth_mem j hcard, Nat.count_nth hcard⟩

end CoroUtil.General
