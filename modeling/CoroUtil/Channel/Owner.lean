import CoroUtil.Channel.View
import CoroUtil.General.Cycle
import CoroUtil.General.Leases

/-!
# Who owns the hazard pointers

A hazard pointer belongs to the token that has it, or to the `get_hazard_ptr` that
has taken or allocated it.  `Inv` says that these are leases with `owned` as the
flag, and that the links form one cycle of the hazard pointers that are not still
to be linked by the `get_hazard_ptr` that allocated them.
-/

namespace CoroUtil.Channel

open CoroUtil.Blocks CoroUtil.General

variable {V : Type}

/-- The hazard pointer that `get_hazard_ptr` has taken. -/
def Acquire.node : Acquire → Option Nat
  | loadCount | next .. | owned .. | take .. => none
  | append _ _ _ new => some new
  | headOffset _ p | headBlock _ p _ | initActive _ p _ _ | initRead _ p _ | initWrite _ p _
  | count _ p | check _ p => some p

/-- The hazard pointer that it has allocated and not linked yet. -/
def Acquire.unlinked : Acquire → Option Nat
  | append _ _ _ new => some new
  | loadCount | next .. | owned .. | take .. | headOffset .. | headBlock .. | initActive ..
  | initRead .. | initWrite .. | count .. | check .. => none

/-- Its variables are hazard pointers of the list. -/
def Acquire.On (next : Nat → Nat) (l : List Nat) : Acquire → Prop
  | .next _ p => p ∈ l
  | owned _ p n | take _ p n => p ∈ l ∧ n ∈ l
  | append _ p n new => p ∈ l ∧ n ∈ l ∧ next new = n
  | loadCount | headOffset .. | headBlock .. | initActive .. | initRead .. | initWrite ..
  | count .. | check .. => True

namespace Role

def node : Role → Option Nat
  | idle | close => none
  | acquire a => a.node
  | uses z | free z => some z

def unlinked : Role → Option Nat
  | acquire a => a.unlinked
  | idle | close | uses _ | free _ => none

theorem node_of_unlinked {r : Role} {z : Nat} (h : r.unlinked = some z) : r.node = some z := by
  cases r with
  | acquire a =>
    cases a with
    | append rc p n new => exact h
    | _ => cases h
  | _ => cases h

end Role

namespace View

variable {v : View} {z : Nat}

/-- The hazard pointer of a token. -/
def node (v : View) : Option Nat := v.haz.or v.role.node

/-- A task has the hazard pointer of its token, or is acquiring one for it. -/
def Fits (v : View) : Prop :=
  match v.role with
  | .idle => v.live = false → v.haz = none
  | .acquire _ => v.live = true ∧ v.haz = none
  | .uses z => v.live = true ∧ v.haz = some z
  | .close => v.live = true
  | .free z => v.haz = some z

theorem node_of_haz (h : v.haz = some z) : v.node = some z := by rw [node, h, Option.some_or]

theorem node_of_none (h : v.haz = none) : v.node = v.role.node := by rw [node, h, Option.none_or]

theorem Fits.node_of_role (h : v.Fits) (hz : v.role.node = some z) : v.node = some z := by
  obtain ⟨live, haz, role⟩ := v
  cases role with
  | acquire a => exact (node_of_none h.2).trans hz
  | uses y =>
    cases hz
    exact node_of_haz h.2
  | free y =>
    cases hz
    exact node_of_haz h
  | idle | close => cases hz

theorem Fits.node_of_unlinked (h : v.Fits) (hz : v.role.unlinked = some z) : v.node = some z :=
  h.node_of_role (Role.node_of_unlinked hz)

/-- A token that is gone has no hazard pointer. -/
theorem Fits.vacant (h : v.Fits) (hrole : v.role = .idle) (hlive : v.live = false) :
    v.haz = none := by
  rw [Fits, hrole] at h
  exact h hlive

end View

/-- The hazard pointers are leased and `l` is their cycle. -/
structure Ring (view : Tid → View) (owned : Nat → Bool) (next : Nat → Nat) (hazards : Nat)
    (l : List Nat) : Prop where
  fits : ∀ t, (view t).Fits
  leases : Leases (fun t => (view t).node) owned
  lt : ∀ t z, (view t).node = some z → z < hazards
  cycle : Cycle next hazardPtrList l
  mem : ∀ z, z ∈ l ↔ z < hazards ∧ ∀ t, (view t).role.unlinked ≠ some z
  on : ∀ t a, (view t).role = .acquire a → a.On next l

theorem Acquire.On.mono {next next' : Nat → Nat} {l l' : List Nat} {a : Acquire}
    (h : a.On next l) (hl : ∀ z ∈ l, z ∈ l') (hn : ∀ z, a.unlinked = some z → next' z = next z) :
    a.On next' l' := by
  cases a with
  | next rc p => exact hl p h
  | owned rc p n | take rc p n => exact ⟨hl p h.1, hl n h.2⟩
  | append rc p n new => exact ⟨hl p h.1, hl n h.2.1, (hn new rfl).trans h.2.2⟩
  | _ => trivial

namespace Ring

variable {view : Tid → View} {owned : Nat → Bool} {next : Nat → Nat} {hazards : Nat} {l : List Nat}
  {t u : Tid} {v : View} {z p n : Nat} {a : Acquire}

theorem node_update : (fun u => (Function.update view t v u).node) =
    Function.update (fun u => (view u).node) t v.node := by
  funext u
  rw [Function.update_apply, Function.update_apply]
  split <;> rfl

theorem fits_update (h : ∀ u, (view u).Fits) (hv : v.Fits) (u : Tid) :
    (Function.update view t v u).Fits := by
  rw [Function.update_apply]
  split
  · exact hv
  · exact h u

/-- A token does something else with the same hazard pointer. -/
theorem set (h : Ring view owned next hazards l) (hfits : v.Fits) (hnode : v.node = (view t).node)
    (hun : v.role.unlinked = (view t).role.unlinked) (hon : ∀ a, v.role = .acquire a → a.On next l) :
    Ring (Function.update view t v) owned next hazards l := by
  have hnode' : (fun u => (Function.update view t v u).node) = fun u => (view u).node := by
    rw [node_update, hnode]
    exact Function.update_eq_self t fun u => (view u).node
  have hun' : ∀ u, (Function.update view t v u).role.unlinked = (view u).role.unlinked := by
    intro u
    rw [Function.update_apply]
    split
    · next hu => rw [hu, hun]
    · rfl
  refine ⟨fits_update h.fits hfits, ?_, fun u y hy => ?_, h.cycle, fun z => ?_, fun u a ha => ?_⟩
  · rw [hnode']
    exact h.leases
  · exact h.lt u y ((congrFun hnode' u).symm.trans hy)
  · simp only [hun']
    exact h.mem z
  · rw [Function.update_apply] at ha
    split at ha
    · exact hon a ha
    · exact h.on u a ha

/-- The hazard pointers that two tasks are to link are different. -/
theorem unlinked_ne (h : Ring view owned next hazards l) (ht : (view t).role.unlinked = some z)
    (hu : (view u).role.unlinked = some p) (hne : u ≠ t) : p ≠ z := by
  rintro rfl
  exact hne (h.leases.inj u t p ((h.fits u).node_of_unlinked hu) ((h.fits t).node_of_unlinked ht))

/-- A hazard pointer that is not leased is taken. -/
theorem take (h : Ring view owned next hazards l) (hp : p ∈ l) (hfree : owned p = false)
    (ht : (view t).node = none) (hfits : v.Fits) (hnode : v.node = some p)
    (hun : v.role.unlinked = none) (hon : ∀ a, v.role = .acquire a → a.On next l) :
    Ring (Function.update view t v) (Function.update owned p true) next hazards l := by
  have hold : (view t).role.unlinked = none := by
    cases hu : (view t).role.unlinked with
    | none => rfl
    | some z =>
      rw [(h.fits t).node_of_unlinked hu] at ht
      cases ht
  refine ⟨fits_update h.fits hfits, ?_, fun u y hy => ?_, h.cycle, fun y => ?_, fun u b hb => ?_⟩
  · rw [node_update, hnode]
    exact h.leases.take ht hfree
  · rw [Function.update_apply] at hy
    split at hy
    · rw [hnode] at hy
      cases hy
      exact ((h.mem p).mp hp).1
    · exact h.lt u y hy
  · rw [h.mem]
    refine and_congr_right fun _ => forall_congr' fun u => ?_
    rw [Function.update_apply]
    split
    · next hu => rw [hu, hold, hun]
    · rfl
  · rw [Function.update_apply] at hb
    split at hb
    · exact hon b hb
    · exact h.on u b hb

/-- A hazard pointer is allocated, to be linked in front of `n`. -/
theorem alloc (h : Ring view owned next hazards l) (ht : (view t).node = none) (hfits : v.Fits)
    (hnode : v.node = some hazards) (hun : v.role.unlinked = some hazards)
    (hon : ∀ a, v.role = .acquire a → a.On (Function.update next hazards n) l) :
    Ring (Function.update view t v) (Function.update owned hazards true)
      (Function.update next hazards n) (hazards + 1) l := by
  have hout : hazards ∉ l := fun hmem => Nat.lt_irrefl _ ((h.mem _).mp hmem).1
  have hfree : owned hazards = false := by
    refine Bool.eq_false_iff.mpr fun howned => ?_
    obtain ⟨u, hu⟩ := (h.leases.owned _).mp howned
    exact Nat.lt_irrefl _ (h.lt u _ hu)
  have hold : ∀ y, (view t).role.unlinked ≠ some y := fun y hu => by
    rw [(h.fits t).node_of_unlinked hu] at ht
    cases ht
  have hunl : ∀ u, (Function.update view t v u).role.unlinked =
      if u = t then some hazards else (view u).role.unlinked := by
    intro u
    rw [Function.update_apply]
    split
    · exact hun
    · rfl
  refine ⟨fits_update h.fits hfits, ?_, fun u y hy => ?_, ?_, fun y => ?_, fun u b hb => ?_⟩
  · rw [node_update, hnode]
    exact h.leases.take ht hfree
  · rw [Function.update_apply] at hy
    split at hy
    · rw [hnode] at hy
      cases hy
      exact Nat.lt_succ_self _
    · exact Nat.lt_succ_of_lt (h.lt u y hy)
  · exact h.cycle.congr fun y hy => Function.update_of_ne (by rintro rfl; exact hout hy) _ _
  · simp only [hunl]
    rw [h.mem y]
    constructor
    · rintro ⟨hlt, hy⟩
      refine ⟨Nat.lt_succ_of_lt hlt, fun u hu => ?_⟩
      split at hu
      · cases hu
        exact Nat.lt_irrefl _ hlt
      · exact hy u hu
    · rintro ⟨hlt, hy⟩
      have hne : y ≠ hazards := by
        rintro rfl
        exact hy t (if_pos rfl)
      refine ⟨Nat.lt_of_le_of_ne (Nat.le_of_lt_succ hlt) hne, fun u hu => ?_⟩
      by_cases hut : u = t
      · exact hold y (hut ▸ hu)
      · exact hy u (by rwa [if_neg hut])
  · rw [Function.update_apply] at hb
    split at hb
    · exact hon b hb
    · refine (h.on u b hb).mono (fun _ hy => hy) fun y hy => Function.update_of_ne ?_ _ _
      rintro rfl
      have hrole : (view u).role.unlinked = some y := by
        rw [hb]
        exact hy
      exact Nat.lt_irrefl _ (h.lt u _ ((h.fits u).node_of_unlinked hrole))

/-- The new hazard pointer `z` is linked behind `p`. -/
theorem link (h : Ring view owned next hazards l) (hp : p ∈ l) (hnext : next z = next p)
    (ht : (view t).role.unlinked = some z) (hfits : v.Fits) (hnode : v.node = some z)
    (hun : v.role.unlinked = none) (hon : ∀ a next l, v.role = .acquire a → a.On next l) :
    ∃ l', Ring (Function.update view t v) owned (Function.update next p z) hazards l' := by
  have hz := (h.fits t).node_of_unlinked ht
  have hout : z ∉ l := fun hmem => ((h.mem _).mp hmem).2 t ht
  obtain ⟨l', hcycle, hmem⟩ := h.cycle.insert hp hout hnext
  have hnode' : (fun u => (Function.update view t v u).node) = fun u => (view u).node := by
    rw [node_update, hnode, ← hz]
    exact Function.update_eq_self t fun u => (view u).node
  have hunl : ∀ u, (Function.update view t v u).role.unlinked =
      if u = t then none else (view u).role.unlinked := by
    intro u
    rw [Function.update_apply]
    split
    · exact hun
    · rfl
  refine ⟨l', fits_update h.fits hfits, ?_, fun u y hy => ?_, hcycle, fun y => ?_, fun u b hb => ?_⟩
  · rw [hnode']
    exact h.leases
  · exact h.lt u y ((congrFun hnode' u).symm.trans hy)
  · simp only [hunl]
    rw [hmem, h.mem]
    constructor
    · rintro (⟨hlt, hy⟩ | rfl)
      · refine ⟨hlt, fun u hu => ?_⟩
        split at hu
        · cases hu
        · exact hy u hu
      · refine ⟨h.lt t y hz, fun u hu => ?_⟩
        split at hu
        · cases hu
        · next hut => exact h.unlinked_ne ht hu hut rfl
    · rintro ⟨hlt, hy⟩
      by_cases hyz : y = z
      · exact .inr hyz
      · refine .inl ⟨hlt, fun u hu => ?_⟩
        by_cases hut : u = t
        · rw [hut, ht] at hu
          cases hu
          exact hyz rfl
        · exact hy u (by rwa [if_neg hut])
  · rw [Function.update_apply] at hb
    split at hb
    · exact hon b _ _ hb
    · refine (h.on u b hb).mono (fun y hy => (hmem y).mpr (.inl hy)) fun y hy =>
        Function.update_of_ne ?_ _ _
      rintro rfl
      refine ((h.mem y).mp hp).2 u ?_
      rw [hb]
      exact hy

/-- The new hazard pointer `z` gets another link. -/
theorem relink (h : Ring view owned next hazards l) (ht : (view t).role.unlinked = some z)
    (hfits : v.Fits) (hnode : v.node = some z) (hun : v.role.unlinked = some z)
    (hon : ∀ a, v.role = .acquire a → a.On (Function.update next z n) l) :
    Ring (Function.update view t v) owned (Function.update next z n) hazards l := by
  have hout : z ∉ l := fun hmem => ((h.mem _).mp hmem).2 t ht
  have hcycle : Cycle (Function.update next z n) hazardPtrList l :=
    h.cycle.congr fun y hy => Function.update_of_ne (by rintro rfl; exact hout hy) _ _
  have hnode' : (fun u => (Function.update view t v u).node) = fun u => (view u).node := by
    rw [node_update, hnode, ← (h.fits t).node_of_unlinked ht]
    exact Function.update_eq_self t fun u => (view u).node
  refine ⟨fits_update h.fits hfits, ?_, fun u y hy => ?_, hcycle, fun y => ?_, fun u b hb => ?_⟩
  · rw [hnode']
    exact h.leases
  · exact h.lt u y ((congrFun hnode' u).symm.trans hy)
  · rw [h.mem]
    refine and_congr_right fun _ => forall_congr' fun u => ?_
    rw [Function.update_apply]
    split
    · next hu => rw [hu, ht, hun]
    · rfl
  · rw [Function.update_apply] at hb
    split at hb
    · exact hon b hb
    · next hut =>
      refine (h.on u b hb).mono (fun _ hy => hy) fun y hy => Function.update_of_ne ?_ _ _
      refine h.unlinked_ne ht ?_ hut
      rw [hb]
      exact hy

/-- A token gives up its hazard pointer. -/
theorem release (h : Ring view owned next hazards l) (ht : (view t).node = some z)
    (hold : (view t).role.unlinked = none) (hfits : v.Fits) (hnode : v.node = none)
    (hrole : v.role = .idle) :
    Ring (Function.update view t v) (Function.update owned z false) next hazards l := by
  refine ⟨fits_update h.fits hfits, ?_, fun u y hy => ?_, h.cycle, fun y => ?_, fun u b hb => ?_⟩
  · rw [node_update, hnode]
    exact h.leases.release ht
  · rw [Function.update_apply] at hy
    split at hy
    · rw [hnode] at hy
      cases hy
    · exact h.lt u y hy
  · rw [h.mem]
    refine and_congr_right fun _ => forall_congr' fun u => ?_
    rw [Function.update_apply]
    split
    · next hu =>
      rw [hu, hold, hrole]
      rfl
    · rfl
  · rw [Function.update_apply] at hb
    split at hb
    · rw [hrole] at hb
      cases hb
    · exact h.on u b hb

/-- What token `u` has goes to token `t`. -/
theorem move {w : View} (h : Ring view owned next hazards l) (hne : t ≠ u)
    (ht : (view t).node = none) (htrole : (view t).role = .idle) (hurole : (view u).role = .idle)
    (hv : v.Fits) (hw : w.Fits) (hvnode : v.node = (view u).node) (hwnode : w.node = none)
    (hvrole : v.role = .idle) (hwrole : w.role = .idle) :
    Ring (Function.update (Function.update view t v) u w) owned next hazards l := by
  have hrole : ∀ x, (Function.update (Function.update view t v) u w x).role = (view x).role := by
    intro x
    rw [Function.update_apply]
    split
    · next hx => rw [hx, hwrole, hurole]
    · rw [Function.update_apply]
      split
      · next hx => rw [hx, hvrole, htrole]
      · rfl
  have hnode : (fun x => (Function.update (Function.update view t v) u w x).node) =
      Function.update (Function.update (fun x => (view x).node) t (view u).node) u none := by
    rw [node_update, node_update, hvnode, hwnode]
  refine ⟨fits_update (fits_update h.fits hv) hw, ?_, fun x y hy => ?_, h.cycle, fun y => ?_,
    fun x b hb => ?_⟩
  · rw [hnode]
    exact h.leases.transfer ht hne
  · rw [congrFun hnode x, Function.update_apply] at hy
    split at hy
    · cases hy
    · rw [Function.update_apply] at hy
      split at hy
      · exact h.lt u y hy
      · exact h.lt x y hy
  · simp only [hrole]
    exact h.mem y
  · rw [hrole] at hb
    exact h.on x b hb

end Ring

end CoroUtil.Channel
