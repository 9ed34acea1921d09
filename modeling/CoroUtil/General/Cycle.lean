import Mathlib.Logic.Function.Basic
import Mathlib.Data.List.Nodup

/-!
# Cycles of cells

`Cycle next start l`: following `next` from `start` visits the cells of `l`, each
once, and comes back.  A cell is put into the cycle by one write to any cell of it,
and `walk`, the loop that goes on until it comes back, visits `l`.
-/

namespace CoroUtil.General

variable {ι : Type} {next next' : ι → ι} {start a b m p q : ι} {l l' : List ι}

/-- Following `next` from `a` visits the cells of `l` and comes to `b`. -/
def Path (next : ι → ι) : ι → List ι → ι → Prop
  | a, [], b => a = b
  | a, p :: l, b => a = p ∧ Path next (next p) l b

theorem path_append : Path next a (l ++ l') b ↔ ∃ m, Path next a l m ∧ Path next m l' b := by
  induction l generalizing a with
  | nil =>
    constructor
    · exact fun h => ⟨a, rfl, h⟩
    · rintro ⟨m, rfl, h⟩
      exact h
  | cons p l ih =>
    constructor
    · rintro ⟨ha, h⟩
      obtain ⟨m, hm, h⟩ := ih.mp h
      exact ⟨m, ⟨ha, hm⟩, h⟩
    · rintro ⟨m, ⟨ha, hm⟩, h⟩
      exact ⟨ha, ih.mpr ⟨m, hm, h⟩⟩

theorem Path.congr (h : Path next a l b) (hn : ∀ p ∈ l, next' p = next p) : Path next' a l b := by
  induction l generalizing a with
  | nil => exact h
  | cons p l ih =>
    refine ⟨h.1, ?_⟩
    rw [hn p List.mem_cons_self]
    exact ih h.2 fun q hq => hn q (List.mem_cons_of_mem p hq)

/-- A path from a cell of a set that `next` keeps stays in it. -/
theorem Path.mem {P : ι → Prop} (h : Path next a l b) (hn : ∀ x, P x → P (next x)) (ha : P a) :
    ∀ x ∈ l, P x := by
  induction l generalizing a with
  | nil => exact fun x hx => absurd hx List.not_mem_nil
  | cons p l ih =>
    obtain ⟨rfl, h⟩ := h
    intro x hx
    rcases List.mem_cons.mp hx with rfl | hx
    · exact ha
    · exact ih h (hn _ ha) x hx

/-- A cell `q` that points to the one behind `p` is put behind `p`. -/
theorem Path.insert [DecidableEq ι] (h : Path next a l b) (hp : q ≠ p) (hq : q ∉ l)
    (hnext : next q = next p) :
    ∃ l', Path (Function.update next p q) a l' b ∧ (∀ x ∈ l, x ∈ l') ∧
      ∀ x ∈ l', x ∈ l ∨ x = q := by
  induction l generalizing a with
  | nil => exact ⟨[], h, fun _ hx => hx, fun _ hx => .inl hx⟩
  | cons c l ih =>
    obtain ⟨rfl, h⟩ := h
    obtain ⟨l', hpath, hsub, hsup⟩ := ih h fun hmem => hq (List.mem_cons_of_mem _ hmem)
    have hsub' : ∀ x ∈ a :: l, x = a ∨ x ∈ l' := fun x hx =>
      (List.mem_cons.mp hx).imp_right (hsub x)
    by_cases ha : a = p
    · subst ha
      refine ⟨a :: q :: l', ⟨rfl, ?_⟩, fun x hx => ?_, fun x hx => ?_⟩
      · rw [Function.update_self]
        refine ⟨rfl, ?_⟩
        rw [Function.update_of_ne hp, hnext]
        exact hpath
      · rcases hsub' x hx with rfl | hx
        · exact List.mem_cons_self
        · exact List.mem_cons_of_mem _ (List.mem_cons_of_mem _ hx)
      · rcases List.mem_cons.mp hx with rfl | hx
        · exact .inl List.mem_cons_self
        · rcases List.mem_cons.mp hx with rfl | hx
          · exact .inr rfl
          · exact (hsup x hx).imp_left (List.mem_cons_of_mem _)
    · refine ⟨a :: l', ⟨rfl, ?_⟩, fun x hx => ?_, fun x hx => ?_⟩
      · rw [Function.update_of_ne ha]
        exact hpath
      · rcases hsub' x hx with rfl | hx
        · exact List.mem_cons_self
        · exact List.mem_cons_of_mem _ hx
      · rcases List.mem_cons.mp hx with rfl | hx
        · exact .inl List.mem_cons_self
        · exact (hsup x hx).imp_left (List.mem_cons_of_mem _)

structure Cycle (next : ι → ι) (start : ι) (l : List ι) : Prop where
  path : Path next start l start
  ne_nil : l ≠ []
  nodup : l.Nodup

theorem Cycle.singleton (h : next start = start) : Cycle next start [start] :=
  ⟨⟨rfl, h⟩, List.cons_ne_nil _ _, List.nodup_singleton _⟩

theorem Cycle.congr (h : Cycle next start l) (hn : ∀ p ∈ l, next' p = next p) :
    Cycle next' start l := ⟨h.path.congr hn, h.ne_nil, h.nodup⟩

theorem Cycle.start_mem (h : Cycle next start l) : start ∈ l := by
  cases l with
  | nil => exact absurd rfl h.ne_nil
  | cons p l =>
    rw [h.path.1]
    exact List.mem_cons_self

theorem Cycle.next_mem (h : Cycle next start l) (hp : p ∈ l) : next p ∈ l := by
  obtain ⟨l₁, l₂, rfl⟩ := List.append_of_mem hp
  obtain ⟨m, -, -, hrest⟩ := path_append.mp h.path
  cases l₂ with
  | nil =>
    have hend : next p = start := hrest
    rw [hend]
    exact h.start_mem
  | cons q l₂ =>
    rw [hrest.1]
    exact List.mem_append_right _ (List.mem_cons_of_mem _ List.mem_cons_self)

/-- The cycle can be gone round from any of its cells. -/
theorem Cycle.rotate (h : Cycle next start l) (hp : p ∈ l) :
    ∃ tl, Path next (next p) tl p ∧ p ∉ tl ∧ ∀ x ∈ l, x ∈ p :: tl := by
  obtain ⟨l₁, l₂, rfl⟩ := List.append_of_mem hp
  obtain ⟨m, hfront, rfl, hrest⟩ := path_append.mp h.path
  refine ⟨l₂ ++ l₁, path_append.mpr ⟨start, hrest, hfront⟩, fun hmem => ?_, fun x hx => ?_⟩
  · obtain ⟨hout, -⟩ := List.nodup_cons.mp (List.nodup_middle.mp h.nodup)
    rcases List.mem_append.mp hmem with hmem | hmem
    · exact hout (List.mem_append_right _ hmem)
    · exact hout (List.mem_append_left _ hmem)
  · rcases List.mem_append.mp hx with hx | hx
    · exact List.mem_cons_of_mem _ (List.mem_append_right _ hx)
    · rcases List.mem_cons.mp hx with rfl | hx
      · exact List.mem_cons_self
      · exact List.mem_cons_of_mem _ (List.mem_append_left _ hx)

/-- A cell `q` that points to the one behind `p` is put behind `p`. -/
theorem Cycle.insert [DecidableEq ι] (h : Cycle next start l) (hp : p ∈ l) (hq : q ∉ l)
    (hnext : next q = next p) :
    ∃ l', Cycle (Function.update next p q) start l' ∧ ∀ x, x ∈ l' ↔ x ∈ l ∨ x = q := by
  obtain ⟨l₁, l₂, rfl⟩ := List.append_of_mem hp
  obtain ⟨m, hfront, rfl, hrest⟩ := path_append.mp h.path
  have hnodup := List.nodup_middle.mp h.nodup
  obtain ⟨hp', -⟩ := List.nodup_cons.mp hnodup
  have hsame : ∀ x ∈ l₁ ++ l₂, Function.update next m q x = next x := fun x hx =>
    Function.update_of_ne (by rintro rfl; exact hp' hx) q next
  have hqm : q ≠ m := fun heq => hq (heq ▸ hp)
  refine ⟨l₁ ++ m :: q :: l₂, ⟨path_append.mpr ⟨m, ?_, rfl, ?_⟩, ?_, ?_⟩, fun x => ?_⟩
  · exact hfront.congr fun x hx => hsame x (List.mem_append_left _ hx)
  · refine ⟨Function.update_self .., ?_⟩
    rw [Function.update_of_ne hqm, hnext]
    exact hrest.congr fun x hx => hsame x (List.mem_append_right _ hx)
  · exact List.append_ne_nil_of_right_ne_nil _ (List.cons_ne_nil _ _)
  · have hmid : (l₁ ++ [m] ++ q :: l₂).Nodup := by
      refine List.nodup_middle.mpr (List.nodup_cons.mpr ⟨?_, ?_⟩)
      · rwa [List.append_assoc]
      · rw [List.append_assoc]
        exact h.nodup
    rwa [List.append_assoc] at hmid
  · simp only [List.mem_append, List.mem_cons]
    tauto

/-! ## A cell is put into a cycle, or none -/

/-- At most one cell is put into what `l` visits. -/
inductive Links [DecidableEq ι] (next next' : ι → ι) (l l' : List ι) : Prop
  | same (hl : ∀ y ∈ l, y ∈ l') (h : ∀ y ∈ l, next' y = next y)
  | insert (p q : ι) (hp : p ∈ l) (hq : q ∉ l) (hnext : next q = next p)
    (h : next' = Function.update next p q) (hl : ∀ y ∈ l, y ∈ l')

namespace Links

variable [DecidableEq ι] {z n : ι} {tl : List ι}

theorem mem (h : Links next next' l l') : ∀ y ∈ l, y ∈ l' := by
  cases h with
  | same hl => exact hl
  | insert p q _ _ _ _ hl => exact hl

/-- The path to a cell of the cycle grows by at most one that is not in it. -/
theorem path (h : Links next next' l l') (hcycle : Cycle next start l) (hz : z ∈ l) (hn : n ∈ l)
    (hpath : Path next n tl z) :
    ∃ tl', Path next' n tl' z ∧ (∀ y ∈ tl, y ∈ tl') ∧ (z ∈ tl' → z ∈ tl) := by
  have hmem : ∀ y ∈ tl, y ∈ l := hpath.mem (fun _ => hcycle.next_mem) hn
  cases h with
  | same hl h => exact ⟨tl, hpath.congr fun y hy => h y (hmem y hy), fun _ hy => hy, fun hz => hz⟩
  | insert p q hp hq hnext h hl =>
    obtain ⟨tl', hpath', hsub, hsup⟩ := hpath.insert (p := p) (q := q)
      (fun heq => hq (heq ▸ hp)) (fun hmem' => hq (hmem q hmem')) hnext
    rw [h]
    refine ⟨tl', hpath', hsub, fun hz' => (hsup z hz').resolve_right ?_⟩
    rintro rfl
    exact hq hz

/-- A loop goes on from the next cell of the longer cycle. -/
theorem turn (h : Links next next' l l') (hcycle : Cycle next start l) (hz : z ∈ l) (ha : a ∈ l)
    (hpath : Path next (next a) tl z) (hout : z ∉ tl) :
    ∃ tl', Path next' (next' a) tl' z ∧ (∀ y ∈ tl, y ∈ tl') ∧ z ∉ tl' := by
  obtain ⟨rest, hrest, hsub, hback⟩ := h.path hcycle hz (hcycle.next_mem ha) hpath
  have hout' : z ∉ rest := fun hmem => hout (hback hmem)
  cases h with
  | same hl hn =>
    rw [hn a ha]
    exact ⟨rest, hrest, hsub, hout'⟩
  | insert p q hp hq hnext hn hl =>
    by_cases hap : a = p
    · -- the loop comes to the one that has been put behind it
      have hqp : q ≠ p := fun heq => hq (heq ▸ hp)
      have hzq : z ≠ q := fun heq => hq (heq ▸ hz)
      subst hap
      refine ⟨q :: rest, ?_, fun y hy => List.mem_cons_of_mem _ (hsub y hy),
        fun hmem => (List.mem_cons.mp hmem).elim hzq hout'⟩
      rw [hn, Function.update_self]
      refine ⟨rfl, ?_⟩
      rw [Function.update_of_ne hqp, hnext]
      rw [hn] at hrest
      exact hrest
    · refine ⟨rest, ?_, hsub, hout'⟩
      rw [hn, Function.update_of_ne hap]
      rw [hn] at hrest
      exact hrest

end Links

/-- The loop over a cycle that starts at `start`: it visits a cell and stops if the
next one is `start`. -/
def walk [DecidableEq ι] (next : ι → ι) (start : ι) : Nat → ι → List ι
  | 0, _ => []
  | n + 1, p => p :: if next p = start then [] else walk next start n (next p)

/-- The loop visits the cells of the cycle and ends. -/
theorem Cycle.walk_eq [DecidableEq ι] (h : Cycle next start l) {n : Nat} (hn : l.length ≤ n) :
    walk next start n start = l := by
  have hpath : ∀ l n a, l ≠ [] → Path next a l start → start ∉ l.tail → l.length ≤ n →
      walk next start n a = l := by
    intro l
    induction l with
    | nil => exact fun _ _ hne => absurd rfl hne
    | cons p l ih =>
      rintro (_ | n) a - ⟨rfl, hrest⟩ hout hn
      · exact absurd hn (Nat.not_succ_le_zero _)
      · rw [walk]
        cases l with
        | nil =>
          have hend : next a = start := hrest
          rw [if_pos hend]
        | cons q l =>
          obtain ⟨hnext, hrest⟩ := hrest
          have hne : next a ≠ start := fun heq => hout (by rw [← heq, hnext]; exact List.mem_cons_self)
          have htail : start ∉ (q :: l).tail := fun hmem => hout (List.mem_cons_of_mem q hmem)
          rw [if_neg hne, ih n (next a) (List.cons_ne_nil _ _) ⟨hnext, hrest⟩ htail
            (Nat.le_of_succ_le_succ hn)]
  refine hpath l n start h.ne_nil h.path ?_ hn
  cases l with
  | nil => exact List.not_mem_nil
  | cons p l =>
    obtain ⟨rfl, -⟩ := h.path
    exact (List.nodup_cons.mp h.nodup).1

end CoroUtil.General
