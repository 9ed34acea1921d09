import CoroUtil.Blocks.Model

/-!
# Chains of blocks

`Chain` names the blocks by their position in the sequence of all blocks: `block k`
is the address of the block for the indices from `k * BlockSize` on, and it is
assigned once.  `Chain.Ok` says that the heap links the blocks from `first` to
`last` in this order.  `cell` is the tape of elements that the chain stands for,
with unwritten elements past its end; appending a block of unwritten elements
does not change it.
-/

namespace CoroUtil.Blocks

namespace Layout

variable (L : Layout)

theorem blockSize_pos : 0 < L.blockSize := Nat.two_pow_pos _

@[simp] theorem reg_natural (n : Nat) : L.reg .natural n = n := rfl

@[simp] theorem less_natural (a b : Nat) : L.less .natural a b = decide (a < b) := rfl

theorem base_eq (n : Nat) : L.base n = n / L.blockSize * L.blockSize := by
  have hdiv := Nat.div_add_mod' n L.blockSize
  rw [base]
  omega

/-- The offset of a block is the one that `find_block` is looking for. -/
theorem mul_eq_base_iff {k n : Nat} : k * L.blockSize = L.base n ↔ k = n / L.blockSize := by
  rw [base_eq]
  exact Nat.mul_left_inj (Nat.pos_iff_ne_zero.mp L.blockSize_pos)

theorem inBlock_base (n : Nat) : L.inBlock n (n / L.blockSize * L.blockSize) = true := by
  have hpos := L.blockSize_pos
  have hlt := Nat.mod_lt n hpos
  have hdiv := Nat.div_add_mod' n L.blockSize
  rw [inBlock, Bool.and_eq_true, decide_eq_true_iff, decide_eq_true_iff]
  omega

end Layout

structure Chain where
  first : Nat
  last : Nat
  block : Nat → Nat

variable {F V : Type} {L : Layout} {c c' : Chain} {h h' : Heap F V}

namespace Heap

variable {p q i j : Nat} {e : Element F V} {o : Option Nat} {offset : Nat}

theorem block_setBlock {b : Block F V} :
    (h.setBlock p b).block q = if q = p then b else h.block q := Function.update_apply ..

@[simp] theorem fresh_setElem : (h.setElem p i e).fresh = h.fresh := rfl
@[simp] theorem fresh_setNext : (h.setNext p o).fresh = h.fresh := rfl
@[simp] theorem fresh_setOffset : (h.setOffset p offset).fresh = h.fresh := rfl

@[simp] theorem offset_setElem : ((h.setElem p i e).block q).offset = (h.block q).offset := by
  rw [setElem, block_setBlock]
  split
  · next hq => rw [hq]
  · rfl

@[simp] theorem next_setElem : ((h.setElem p i e).block q).next = (h.block q).next := by
  rw [setElem, block_setBlock]
  split
  · next hq => rw [hq]
  · rfl

theorem elem_setElem : (h.setElem p i e).elem q j = if q = p ∧ j = i then e else h.elem q j := by
  rw [elem, setElem, block_setBlock]
  split
  · next hq =>
    dsimp only
    rw [Function.update_apply, hq]
    by_cases hj : j = i
    · rw [if_pos hj, if_pos ⟨rfl, hj⟩]
    · rw [if_neg hj, if_neg (fun hl => hj hl.2), elem]
  · next hq => rw [if_neg (fun hl => hq hl.1), elem]

@[simp] theorem offset_setNext : ((h.setNext p o).block q).offset = (h.block q).offset := by
  rw [setNext, block_setBlock]
  split
  · next hq => rw [hq]
  · rfl

@[simp] theorem elem_setNext : (h.setNext p o).elem q j = h.elem q j := by
  rw [elem, setNext, block_setBlock]
  split
  · next hq => rw [hq, elem]
  · rw [elem]

theorem next_setNext : ((h.setNext p o).block q).next = if q = p then o else (h.block q).next := by
  rw [setNext, block_setBlock]
  split <;> rfl

@[simp] theorem next_setOffset : ((h.setOffset p offset).block q).next = (h.block q).next := by
  rw [setOffset, block_setBlock]
  split
  · next hq => rw [hq]
  · rfl

@[simp] theorem elem_setOffset : (h.setOffset p offset).elem q j = h.elem q j := by
  rw [elem, setOffset, block_setBlock]
  split
  · next hq => rw [hq, elem]
  · rw [elem]

theorem offset_setOffset :
    ((h.setOffset p offset).block q).offset = if q = p then offset else (h.block q).offset := by
  rw [setOffset, block_setBlock]
  split <;> rfl

end Heap

namespace Chain

/-- `k` is a position of the chain. -/
def Has (c : Chain) (k : Nat) : Prop := c.first ≤ k ∧ k ≤ c.last

/-- The heap links the blocks of the chain. -/
structure Ok (L : Layout) (c : Chain) (h : Heap F V) : Prop where
  le : c.first ≤ c.last
  inj : ∀ j k, c.Has j → c.Has k → c.block j = c.block k → j = k
  fresh : ∀ k, c.Has k → c.block k < h.fresh
  offset : ∀ k, c.Has k → (h.block (c.block k)).offset = k * L.blockSize
  next : ∀ k, c.Has k → (h.block (c.block k)).next =
    if k = c.last then none else some (c.block (k + 1))

/-- The chain is the same for a heap whose links are. -/
theorem Ok.congr (ok : c.Ok L h) (hfresh : h.fresh ≤ h'.fresh)
    (hoffset : ∀ k, c.Has k → (h'.block (c.block k)).offset = (h.block (c.block k)).offset)
    (hnext : ∀ k, c.Has k → (h'.block (c.block k)).next = (h.block (c.block k)).next) :
    c.Ok L h' where
  le := ok.le
  inj := ok.inj
  fresh k hk := Nat.lt_of_lt_of_le (ok.fresh k hk) hfresh
  offset k hk := (hoffset k hk).trans (ok.offset k hk)
  next k hk := (hnext k hk).trans (ok.next k hk)

/-- Blocks are put behind the last one. -/
def append (c : Chain) (ps : List Nat) : Chain where
  first := c.first
  last := c.last + ps.length
  block k := if k ≤ c.last then c.block k else ps[k - c.last - 1]?.getD 0

/-- The first `n` blocks leave. -/
def drop (c : Chain) (n : Nat) : Chain := { c with first := c.first + n }

section Append

variable {ps : List Nat}

theorem append_block_of_le {k : Nat} (hk : k ≤ c.last) : (c.append ps).block k = c.block k :=
  if_pos hk

theorem append_block {i : Nat} (hi : i < ps.length) :
    (c.append ps).block (c.last + 1 + i) = ps[i] := by
  rw [append]
  simp only
  rw [if_neg (by omega), show c.last + 1 + i - c.last - 1 = i by omega,
    List.getElem?_eq_getElem hi]
  rfl

theorem has_append {k : Nat} (hk : (c.append ps).Has k) :
    c.Has k ∨ ∃ i, i < ps.length ∧ k = c.last + 1 + i := by
  rcases Nat.lt_or_ge c.last k with hlt | hge
  · have hlast : k ≤ c.last + ps.length := hk.2
    exact .inr ⟨k - (c.last + 1), by omega, by omega⟩
  · exact .inl ⟨hk.1, hge⟩

/-- Blocks that are linked to each other are put behind the last one. -/
theorem Ok.append (ok : c.Ok L h) (hps : 0 < ps.length) (hnodup : ps.Nodup)
    (hout : ∀ k, c.Has k → c.block k ∉ ps) (hfresh : ∀ p ∈ ps, p < h'.fresh)
    (hle : h.fresh ≤ h'.fresh)
    (hoffset : ∀ k, c.Has k → (h'.block (c.block k)).offset = (h.block (c.block k)).offset)
    (hnext : ∀ k, c.Has k → k ≠ c.last →
      (h'.block (c.block k)).next = (h.block (c.block k)).next)
    (hlast : (h'.block (c.block c.last)).next = some ps[0])
    (hoffset' : ∀ i (hi : i < ps.length),
      (h'.block ps[i]).offset = (c.last + 1 + i) * L.blockSize)
    (hnext' : ∀ i (hi : i < ps.length), (h'.block ps[i]).next = ps[i + 1]?) :
    (c.append ps).Ok L h' := by
  have hle' := ok.le
  refine ⟨Nat.le_add_right_of_le ok.le, ?_, ?_, ?_, ?_⟩
  · intro j k hj hk heq
    rcases has_append hj with hj | ⟨i, hi, rfl⟩ <;> rcases has_append hk with hk | ⟨i', hi', rfl⟩
    · rw [append_block_of_le hj.2, append_block_of_le hk.2] at heq
      exact ok.inj j k hj hk heq
    · rw [append_block_of_le hj.2, append_block hi'] at heq
      exact absurd (heq ▸ List.getElem_mem hi') (hout j hj)
    · rw [append_block_of_le hk.2, append_block hi] at heq
      exact absurd (heq ▸ List.getElem_mem hi) (hout k hk)
    · rw [append_block hi, append_block hi'] at heq
      rw [(List.getElem_inj hnodup).mp heq]
  · intro k hk
    rcases has_append hk with hk | ⟨i, hi, rfl⟩
    · rw [append_block_of_le hk.2]
      exact Nat.lt_of_lt_of_le (ok.fresh k hk) hle
    · rw [append_block hi]
      exact hfresh _ (List.getElem_mem hi)
  · intro k hk
    rcases has_append hk with hk | ⟨i, hi, rfl⟩
    · rw [append_block_of_le hk.2, hoffset k hk, ok.offset k hk]
    · rw [append_block hi, hoffset' i hi]
  · intro k hk
    have hlast' : (c.append ps).last = c.last + ps.length := rfl
    rcases has_append hk with hk | ⟨i, hi, rfl⟩
    · rw [append_block_of_le hk.2, if_neg (by have := hk.2; omega)]
      by_cases hkl : k = c.last
      · rw [hkl, hlast]
        exact congrArg some (append_block hps).symm
      · have hlt : k < c.last := Nat.lt_of_le_of_ne hk.2 hkl
        rw [hnext k hk hkl, ok.next k hk, if_neg hkl, append_block_of_le hlt]
    · rw [append_block hi, hnext' i hi]
      by_cases hi' : i + 1 < ps.length
      · rw [if_neg (by omega), List.getElem?_eq_getElem hi', Nat.add_assoc, append_block hi']
      · rw [if_pos (by omega), List.getElem?_eq_none (by omega)]

end Append

/-- The first blocks leave the chain; the last one stays. -/
theorem Ok.drop (ok : c.Ok L h) {n : Nat} (hn : c.first + n ≤ c.last) : (c.drop n).Ok L h := by
  have hsub : ∀ k, (c.drop n).Has k → c.Has k := fun k hk => ⟨Nat.le_of_add_right_le hk.1, hk.2⟩
  exact
    { le := hn
      inj := fun j k hj hk => ok.inj j k (hsub j hj) (hsub k hk)
      fresh := fun k hk => ok.fresh k (hsub k hk)
      offset := fun k hk => ok.offset k (hsub k hk)
      next := fun k hk => ok.next k (hsub k hk) }

section Cell

variable [Zero F]

/-- The element of an index. -/
def cell (L : Layout) (c : Chain) (h : Heap F V) (n : Nat) : Element F V :=
  if n / L.blockSize ≤ c.last then h.elem (c.block (n / L.blockSize)) (n % L.blockSize)
  else ⟨0, none⟩

theorem cell_setElem (ok : c.Ok L h) {k i n : Nat} (hk : c.Has k) (hi : i < L.blockSize)
    (e : Element F V) (hn : c.first ≤ n / L.blockSize) :
    c.cell L (h.setElem (c.block k) i e) n =
      if n = k * L.blockSize + i then e else c.cell L h n := by
  have hdiv : n = k * L.blockSize + i ↔ n / L.blockSize = k ∧ n % L.blockSize = i := by
    rw [Nat.div_mod_unique L.blockSize_pos, Nat.mul_comm, Nat.add_comm, eq_comm]
    exact (and_iff_left hi).symm
  rw [cell, cell]
  by_cases hlast : n / L.blockSize ≤ c.last
  · rw [if_pos hlast, if_pos hlast, Heap.elem_setElem]
    refine if_congr ?_ rfl rfl
    rw [hdiv]
    refine and_congr_left fun _ => ⟨fun hb => ok.inj _ _ ⟨hn, hlast⟩ hk hb, fun hb => by rw [hb]⟩
  · rw [if_neg hlast, if_neg hlast, if_neg]
    rw [hdiv]
    rintro ⟨rfl, -⟩
    exact hlast hk.2

/-- Appending blocks of unwritten elements does not change the tape. -/
theorem cell_append {ps : List Nat} (hsame : ∀ k, c.first ≤ k → k ≤ c.last →
      ∀ i, h'.elem (c.block k) i = h.elem (c.block k) i)
    (hblank : ∀ p ∈ ps, ∀ i < L.blockSize, h'.elem p i = ⟨0, none⟩) {n : Nat}
    (hn : c.first ≤ n / L.blockSize) :
    (c.append ps).cell L h' n = c.cell L h n := by
  have hlast' : (c.append ps).last = c.last + ps.length := rfl
  rw [cell, cell]
  by_cases hlast : n / L.blockSize ≤ c.last
  · rw [if_pos hlast, if_pos (by omega), append_block_of_le hlast, hsame _ hn hlast]
  · rw [if_neg hlast]
    split
    · have hi : n / L.blockSize - (c.last + 1) < ps.length := by omega
      rw [show n / L.blockSize = c.last + 1 + (n / L.blockSize - (c.last + 1)) by omega,
        append_block hi]
      exact hblank _ (List.getElem_mem hi) _ (Nat.mod_lt _ L.blockSize_pos)
    · rfl

end Cell

end Chain

end CoroUtil.Blocks
