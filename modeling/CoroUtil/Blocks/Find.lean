import CoroUtil.Blocks.Chain

/-!
# `find_block` walks the chain

`Find.Ok` says where in the chain a walk is, and `Find.step_spec` that a step
goes on along the chain, which it makes longer by a fresh block at its end:
`Chain.Grows`.
-/

namespace CoroUtil.Blocks

variable {F V : Type} {L : Layout} {c c' c'' : Chain} {h h' h'' : Heap F V}

namespace Chain

/-- The positions of the chain keep their blocks. -/
structure Extends (c c' : Chain) : Prop where
  last : c.last ≤ c'.last
  block : ∀ k ≤ c.last, c'.block k = c.block k

theorem Extends.refl (c : Chain) : c.Extends c := ⟨Nat.le_refl _, fun _ _ => rfl⟩

theorem extends_append {ps : List Nat} : c.Extends (c.append ps) :=
  ⟨Nat.le_add_right .., fun _ hk => append_block_of_le hk⟩

theorem extends_drop {n : Nat} : c.Extends (c.drop n) := ⟨Nat.le_refl _, fun _ _ => rfl⟩

end Chain

/-- The block `b` is at position `k` of the chain, and the block of `idx` is not
before it. -/
structure Find.At (L : Layout) (c : Chain) (lo idx k b : Nat) : Prop where
  lo : lo ≤ k
  last : k ≤ c.last
  block : c.block k = b
  le : k ≤ idx / L.blockSize

/-- Where a walk to `idx` is that has not gone before position `lo`. -/
def Find.Ok (L : Layout) (c : Chain) (lo idx : Nat) : Find → Prop
  | load b => ∃ k, At L c lo idx k b
  | next b offset | cas b offset =>
    ∃ k, At L c lo idx k b ∧ offset = k * L.blockSize ∧ k ≠ idx / L.blockSize
  | check b offset => ∃ k, At L c lo idx k b ∧ offset = k * L.blockSize
  | found b => lo ≤ idx / L.blockSize ∧ idx / L.blockSize ≤ c.last ∧
      c.block (idx / L.blockSize) = b

/-- The block that a walk is at. -/
def Find.block : Find → Nat
  | load b | next b _ | cas b _ | check b _ | found b => b

variable {lo lo' idx k b : Nat} {f : Find}

theorem Find.Ok.has_block (h : f.Ok L c lo idx) : ∃ k, lo ≤ k ∧ k ≤ c.last ∧ c.block k = f.block := by
  cases f with
  | load b =>
    obtain ⟨k, hk⟩ := h
    exact ⟨k, hk.lo, hk.last, hk.block⟩
  | next b offset | cas b offset | check b offset =>
    obtain ⟨k, hk, -⟩ := h
    exact ⟨k, hk.lo, hk.last, hk.block⟩
  | found b => exact ⟨_, h⟩

theorem Find.At.mono (h : At L c lo idx k b) (hext : c.Extends c') (hlo : lo' ≤ lo) :
    At L c' lo' idx k b where
  lo := Nat.le_trans hlo h.lo
  last := Nat.le_trans h.last hext.last
  block := (hext.block k h.last).trans h.block
  le := h.le

/-- The walk goes one block on. -/
theorem Find.At.succ (h : At L c lo idx k b) (hne : k ≠ idx / L.blockSize) (hlast : k < c.last) :
    At L c lo idx (k + 1) (c.block (k + 1)) where
  lo := Nat.le_succ_of_le h.lo
  last := hlast
  block := rfl
  le := Nat.lt_of_le_of_ne h.le hne

theorem Find.Ok.mono (h : f.Ok L c lo idx) (hext : c.Extends c') (hlo : lo' ≤ lo) :
    f.Ok L c' lo' idx := by
  cases f with
  | load b =>
    obtain ⟨k, hk⟩ := h
    exact ⟨k, hk.mono hext hlo⟩
  | next b offset | cas b offset =>
    obtain ⟨k, hk, hoff, hne⟩ := h
    exact ⟨k, hk.mono hext hlo, hoff, hne⟩
  | check b offset =>
    obtain ⟨k, hk, hoff⟩ := h
    exact ⟨k, hk.mono hext hlo, hoff⟩
  | found b =>
    obtain ⟨hle, hlast, hb⟩ := h
    exact ⟨Nat.le_trans hlo hle, Nat.le_trans hlast hext.last, (hext.block _ hlast).trans hb⟩

section Step

variable [Zero F]

/-- The chain has become longer by unwritten elements at its end, and nothing
else has changed. -/
structure Chain.Grows (L : Layout) (c : Chain) (h : Heap F V) (c' : Chain) (h' : Heap F V) :
    Prop where
  ok : c'.Ok L h'
  ext : c.Extends c'
  first : c'.first = c.first
  fresh : h.fresh ≤ h'.fresh
  /-- The positions it has gained have fresh blocks. -/
  new : ∀ k, c.last < k → k ≤ c'.last → h.fresh ≤ c'.block k
  old : ∀ p < h.fresh, p ≠ c.block c.last → h'.block p = h.block p
  elem : ∀ p < h.fresh, ∀ i, h'.elem p i = h.elem p i
  cell : ∀ n, c.first ≤ n / L.blockSize → c'.cell L h' n = c.cell L h n

theorem Chain.Grows.refl (ok : c.Ok L h) : c.Grows L h c h where
  ok := ok
  ext := .refl c
  first := rfl
  fresh := Nat.le_refl _
  new _ hk hk' := absurd hk (Nat.not_lt.mpr hk')
  old _ _ _ := rfl
  elem _ _ _ := rfl
  cell _ _ := rfl

/-- A fresh block is put behind the last one. -/
theorem Chain.Ok.alloc (ok : c.Ok L h) : c.Grows L h (c.append [h.fresh])
    ((h.alloc ((c.last + 1) * L.blockSize)).setNext (c.block c.last) (some h.fresh)) := by
  have hlast : c.Has c.last := ⟨ok.le, Nat.le_refl _⟩
  have hne : ∀ p < h.fresh, p ≠ h.fresh := fun p hp => Nat.ne_of_lt hp
  have hblock : ∀ p, (h.alloc ((c.last + 1) * L.blockSize)).block p =
      if p = h.fresh then .new ((c.last + 1) * L.blockSize) else h.block p :=
    fun p => Heap.block_setBlock
  have hnext : ∀ p, (((h.alloc ((c.last + 1) * L.blockSize)).setNext (c.block c.last)
      (some h.fresh)).block p).next =
        if p = c.block c.last then some h.fresh
        else if p = h.fresh then none else (h.block p).next := by
    intro p
    rw [Heap.next_setNext, hblock]
    split_ifs <;> rfl
  refine ⟨?_, extends_append, rfl, Nat.le_succ _, fun k hk hk' => ?_, fun p hp hpl => ?_,
    fun p hp i => ?_, fun n hn => ?_⟩
  · refine ok.append Nat.one_pos (by simp) ?_ ?_ (Nat.le_succ _) ?_ ?_ ?_ ?_ ?_
    · intro k hk hmem
      exact hne _ (ok.fresh k hk) (List.mem_singleton.mp hmem)
    · intro p hp
      rw [List.mem_singleton.mp hp]
      exact Nat.lt_succ_self _
    · intro k hk
      rw [Heap.offset_setNext, hblock, if_neg (hne _ (ok.fresh k hk))]
    · intro k hk hkl
      have hkb : c.block k ≠ c.block c.last := fun heq => hkl (ok.inj k _ hk hlast heq)
      rw [hnext, if_neg hkb, if_neg (hne _ (ok.fresh k hk))]
    · rw [hnext, if_pos rfl]
      rfl
    · intro i hi
      obtain rfl : i = 0 := by simpa using hi
      rw [Heap.offset_setNext, List.getElem_singleton, hblock, if_pos rfl]
      rfl
    · intro i hi
      obtain rfl : i = 0 := by simpa using hi
      rw [hnext, List.getElem_singleton, if_neg (hne _ (ok.fresh _ hlast)).symm, if_pos rfl]
      rfl
  · have hk' : k ≤ c.last + 1 := hk'
    obtain rfl : k = c.last + 1 + 0 := by omega
    rw [append_block Nat.one_pos]
    exact Nat.le_refl _
  · rw [Heap.setNext, Heap.block_setBlock, if_neg hpl, hblock, if_neg (hne p hp)]
  · rw [Heap.elem_setNext, Heap.elem, hblock, if_neg (hne p hp), Heap.elem]
  · refine cell_append (fun k hk hk' i => ?_) (fun p hp i _ => ?_) hn
    · rw [Heap.elem_setNext, Heap.elem, hblock, if_neg (hne _ (ok.fresh k ⟨hk, hk'⟩)), Heap.elem]
    · rw [Heap.elem_setNext, Heap.elem, hblock, List.mem_singleton.mp hp, if_pos rfl]
      rfl

/-- A walk along the chain allocates nothing. -/
theorem Find.step_heap (ok : c.Ok L h) (hlo : c.first ≤ lo) (hf : f.Ok L c lo idx)
    (hlast : idx / L.blockSize ≤ c.last) : (f.step .natural L idx h).1 = h := by
  cases f with
  | cas b offset =>
    obtain ⟨k, hk, -, hne⟩ := hf
    have hnext := ok.next k ⟨hlo.trans hk.lo, hk.last⟩
    rw [if_neg (by have := hk.le; omega), hk.block] at hnext
    rw [Find.step, hnext]
  | load b | next b offset | check b offset =>
    rw [Find.step]
    split <;> rfl
  | found b => rfl

/-- A bound on the steps that a walk to `idx` still takes. -/
def Find.left (idx : Nat) (h : Heap F V) : Find → Nat
  | load b => 3 * (idx + 1 - (h.block b).offset) + 2
  | next _ offset => 3 * (idx + 1 - offset) + 1
  | cas _ offset => 3 * (idx + 1 - offset)
  | check _ offset => 3 * (idx + 1 - offset) + 2
  | found _ => 0

theorem Find.left_step (hf : f.Ok L c lo idx) (hne : ∀ b, f ≠ .found b) :
    (f.step .natural L idx h).2.2.left idx (f.step .natural L idx h).1 < f.left idx h := by
  have hpos := L.blockSize_pos
  cases f with
  | load b | check b offset =>
    rw [Find.step]
    split <;> simp [left]
  | next b offset | cas b offset =>
    obtain ⟨k, hk, rfl, -⟩ := hf
    have hle := (Nat.le_div_iff_mul_le hpos).mp hk.le
    rw [Find.step]
    split <;> simp only [left, Layout.reg_natural] <;> omega
  | found b => exact absurd rfl (hne b)

/-- The offset of the first block is loaded once. -/
theorem Find.step_ne_load {o : Offsets} : (f.step o L idx h).2.2 ≠ .load b := by
  cases f with
  | load t | next t offset | cas t offset | check t offset =>
    rw [Find.step]
    split <;> simp
  | found t => simp [Find.step]

/-- The next step puts a fresh block behind the last one. -/
def Find.links (h : Heap F V) : Find → Bool
  | cas b _ => (h.block b).next.isNone
  | load _ | next .. | check .. | found _ => false

/-- The chain after a step. -/
def Find.chain (c : Chain) (h : Heap F V) (f : Find) : Chain :=
  if f.links h = true then c.append [h.fresh] else c

theorem Find.step_fresh {o : Offsets} :
    (f.step o L idx h).1.fresh = if f.links h = true then h.fresh + 1 else h.fresh := by
  cases f with
  | cas b offset =>
    rw [Find.step, links]
    cases (h.block b).next <;> rfl
  | load b | next b offset | check b offset =>
    rw [Find.step]
    split <;> rfl
  | found b => rfl

/-- The chain that a step of `find_block` leaves. -/
theorem Find.step_chain (ok : c.Ok L h) (hlo : c.first ≤ lo) (hf : f.Ok L c lo idx) :
    c.Grows L h (f.chain c h) (f.step .natural L idx h).1 ∧
      (f.step .natural L idx h).2.1 = true ∧
      (f.step .natural L idx h).2.2.Ok L (f.chain c h) lo idx := by
  cases f with
  | load b =>
    obtain ⟨k, hk⟩ := hf
    have hoff := ok.offset k ⟨Nat.le_trans hlo hk.lo, hk.last⟩
    rw [hk.block] at hoff
    have hiff := L.mul_eq_base_iff (k := k) (n := idx)
    have hc : (load b).chain c h = c := rfl
    rw [Find.step, hoff, hc]
    split_ifs with hne
    · exact ⟨.refl ok, rfl, k, hk, rfl, fun heq => hne (hiff.mpr heq)⟩
    · have heq := hiff.mp (not_not.mp hne)
      subst heq
      exact ⟨.refl ok, L.inBlock_base idx, hk.lo, hk.last, hk.block⟩
  | next b offset =>
    obtain ⟨k, hk, rfl, hne⟩ := hf
    have hnext := ok.next k ⟨Nat.le_trans hlo hk.lo, hk.last⟩
    rw [hk.block] at hnext
    have hc : (next b (k * L.blockSize)).chain c h = c := rfl
    rw [Find.step, hc]
    split at hnext
    · rw [hnext]
      exact ⟨.refl ok, rfl, k, hk, rfl, hne⟩
    · next hlast =>
      rw [hnext]
      exact ⟨.refl ok, rfl, k + 1, hk.succ hne (Nat.lt_of_le_of_ne hk.last hlast), by
        rw [L.reg_natural, Nat.add_mul, Nat.one_mul]⟩
  | cas b offset =>
    obtain ⟨k, hk, rfl, hne⟩ := hf
    have hnext := ok.next k ⟨Nat.le_trans hlo hk.lo, hk.last⟩
    rw [hk.block] at hnext
    rw [Find.step, chain, links]
    split at hnext
    · next hlast =>
      -- the walk is at the end of the chain and makes it longer
      subst hlast
      have hoff : c.last * L.blockSize + L.blockSize = (c.last + 1) * L.blockSize := by
        rw [Nat.add_mul, Nat.one_mul]
      have hlt : c.last < (c.append [h.fresh]).last := Nat.lt_succ_self _
      have hk' : At L (c.append [h.fresh]) lo idx c.last b :=
        hk.mono Chain.extends_append (Nat.le_refl _)
      have hb : (c.append [h.fresh]).block (c.last + 1 + 0) = [h.fresh][0] :=
        Chain.append_block Nat.one_pos
      have hat := hk'.succ hne hlt
      rw [show c.last + 1 = c.last + 1 + 0 from rfl, hb] at hat
      rw [hnext, hoff, ← hk.block]
      exact ⟨ok.alloc, rfl, c.last + 1, hat, rfl⟩
    · next hlast =>
      rw [hnext]
      exact ⟨.refl ok, rfl, k + 1, hk.succ hne (Nat.lt_of_le_of_ne hk.last hlast), by
        rw [L.reg_natural, Nat.add_mul, Nat.one_mul]⟩
  | check b offset =>
    obtain ⟨k, hk, rfl⟩ := hf
    have hoff := ok.offset k ⟨Nat.le_trans hlo hk.lo, hk.last⟩
    rw [hk.block] at hoff
    have hiff := L.mul_eq_base_iff (k := k) (n := idx)
    have hc : (check b (k * L.blockSize)).chain c h = c := rfl
    rw [Find.step, hoff, hc]
    split_ifs with hne
    · exact ⟨.refl ok, by simp, k, hk, rfl, fun heq => hne (hiff.mpr heq)⟩
    · have heq := hiff.mp (not_not.mp hne)
      subst heq
      exact ⟨.refl ok, by simp [L.inBlock_base], hk.lo, hk.last, hk.block⟩
  | found b => exact ⟨.refl ok, rfl, hf⟩

/-- A step of `find_block` goes on along the chain and its assertions hold. -/
theorem Find.step_spec (ok : c.Ok L h) (hlo : c.first ≤ lo) (hf : f.Ok L c lo idx) :
    ∃ c', c.Grows L h c' (f.step .natural L idx h).1 ∧ (f.step .natural L idx h).2.1 = true ∧
      (f.step .natural L idx h).2.2.Ok L c' lo idx := ⟨_, step_chain ok hlo hf⟩

end Step

end CoroUtil.Blocks
