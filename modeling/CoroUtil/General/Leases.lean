import Mathlib.Logic.Function.Basic

/-!
# Exclusive ownership

`Leases held owned`: everyone holds at most one thing, no thing is held by two, and
the flag of a thing says whether it is held.
-/

namespace CoroUtil.General

variable {τ ι : Type} {held : τ → Option ι} {owned : ι → Bool} {t u : τ} {z : ι}

structure Leases (held : τ → Option ι) (owned : ι → Bool) : Prop where
  inj : ∀ t u z, held t = some z → held u = some z → t = u
  owned : ∀ z, owned z = true ↔ ∃ t, held t = some z

variable [DecidableEq τ]

theorem Leases.take [DecidableEq ι] (h : Leases held owned) (ht : held t = none)
    (hz : owned z = false) :
    Leases (Function.update held t (some z)) (Function.update owned z true) := by
  have hfree : ∀ u, held u ≠ some z := fun u hu => by
    rw [(h.owned z).mpr ⟨u, hu⟩] at hz
    cases hz
  constructor
  · intro u v y hu hv
    rw [Function.update_apply] at hu hv
    split at hu <;> split at hv
    · next hut hvt => rw [hut, hvt]
    · cases hu
      exact absurd hv (hfree v)
    · cases hv
      exact absurd hu (hfree u)
    · exact h.inj u v y hu hv
  · intro y
    rw [Function.update_apply]
    split
    · next hy => exact ⟨fun _ => ⟨t, by rw [Function.update_self, hy]⟩, fun _ => rfl⟩
    · next hy =>
      rw [h.owned y]
      constructor
      · rintro ⟨u, hu⟩
        have hut : u ≠ t := by
          rintro rfl
          rw [ht] at hu
          cases hu
        exact ⟨u, by rwa [Function.update_of_ne hut]⟩
      · rintro ⟨u, hu⟩
        rw [Function.update_apply] at hu
        split at hu
        · cases hu
          exact absurd rfl hy
        · exact ⟨u, hu⟩

theorem Leases.release [DecidableEq ι] (h : Leases held owned) (ht : held t = some z) :
    Leases (Function.update held t none) (Function.update owned z false) := by
  have hrest : ∀ u y, Function.update held t none u = some y ↔ held u = some y ∧ y ≠ z := by
    intro u y
    rw [Function.update_apply]
    split
    · next hut =>
      rw [hut, ht, Option.some_inj]
      exact ⟨nofun, fun hy => absurd hy.1.symm hy.2⟩
    · next hut =>
      refine ⟨fun hu => ⟨hu, ?_⟩, And.left⟩
      rintro rfl
      exact hut (h.inj u t y hu ht)
  constructor
  · exact fun u v y hu hv => h.inj u v y ((hrest u y).mp hu).1 ((hrest v y).mp hv).1
  · intro y
    simp only [hrest]
    rw [Function.update_apply]
    split
    · next hy => exact ⟨nofun, fun ⟨_, _, hne⟩ => absurd hy hne⟩
    · next hy =>
      rw [h.owned y]
      exact exists_congr fun u => (and_iff_left hy).symm

/-- What `u` holds goes to `t`. -/
theorem Leases.transfer (h : Leases held owned) (ht : held t = none) (hne : t ≠ u) :
    Leases (Function.update (Function.update held t (held u)) u none) owned := by
  have hmoved : ∀ v y, Function.update (Function.update held t (held u)) u none v = some y →
      v = t ∧ held u = some y ∨ v ≠ t ∧ v ≠ u ∧ held v = some y := by
    intro v y hv
    rw [Function.update_apply] at hv
    split at hv
    · cases hv
    · next hvu =>
      rw [Function.update_apply] at hv
      split at hv
      · next hvt => exact .inl ⟨hvt, hv⟩
      · next hvt => exact .inr ⟨hvt, hvu, hv⟩
  constructor
  · intro v w y hv hw
    rcases hmoved v y hv with ⟨hvt, hv⟩ | ⟨-, hvu, hv⟩ <;>
      rcases hmoved w y hw with ⟨hwt, hw⟩ | ⟨-, hwu, hw⟩
    · rw [hvt, hwt]
    · exact absurd (h.inj w u y hw hv) hwu
    · exact absurd (h.inj v u y hv hw) hvu
    · exact h.inj v w y hv hw
  · intro y
    rw [h.owned y]
    constructor
    · rintro ⟨v, hv⟩
      by_cases hvu : v = u
      · rw [hvu] at hv
        exact ⟨t, by rw [Function.update_of_ne hne, Function.update_self, hv]⟩
      · have hvt : v ≠ t := by
          rintro rfl
          rw [ht] at hv
          cases hv
        exact ⟨v, by rwa [Function.update_of_ne hvu, Function.update_of_ne hvt]⟩
    · rintro ⟨v, hv⟩
      rcases hmoved v y hv with ⟨-, hv⟩ | ⟨-, -, hv⟩
      · exact ⟨u, hv⟩
      · exact ⟨v, hv⟩

end CoroUtil.General
