import CoroUtil.Blocks.Bare

/-!
# Blocks with offsets that wrap

`Heap.wrap` puts the natural offsets of a heap into registers.  `reclaim_blocks`
only adds to offsets and stores them, so its steps on the registers are those on
the numbers: `Reclaim.step_wrap`.  `find_block` compares an offset with the one
that it looks for; `Find.step_wrap` needs the two to be less than the range of a
register apart.  `Find.step_of_lt` and `Reclaim.step_of_lt` are about offsets that have
not wrapped.
-/

namespace CoroUtil.Blocks

namespace Layout

variable {L : Layout} {a b n k : Nat}

@[simp] theorem reg_wrapping : L.reg .wrapping n = word L.bits n := rfl

theorem blockSize_dvd : L.blockSize ∣ 2 ^ L.bits :=
  Nat.pow_dvd_pow 2 (by have hlt := L.log_lt; omega)

theorem blockSize_le : 4 * L.blockSize ≤ 2 ^ L.bits := by
  have hlt := L.log_lt
  calc 4 * L.blockSize = 2 ^ (L.log + 2) := by rw [blockSize, Nat.pow_add, Nat.mul_comm]
    _ ≤ 2 ^ L.bits := Nat.pow_le_pow_right (by omega) hlt

@[simp] theorem slot_word : L.slot (word L.bits n) = L.slot n :=
  Nat.mod_mod_of_dvd n blockSize_dvd

theorem base_le : L.base n ≤ n := Nat.sub_le ..

theorem lt_base_add : n < L.base n + L.blockSize := by
  have hlt := Nat.mod_lt n L.blockSize_pos
  rw [base]
  omega

/-- The block of a register is the register of the block. -/
@[simp] theorem base_word : L.base (word L.bits n) = word L.bits (L.base n) := by
  obtain ⟨k, hk⟩ := L.blockSize_dvd
  have hmod : word L.bits n % L.blockSize = n % L.blockSize := Nat.mod_mod_of_dvd n blockSize_dvd
  rw [base, hmod, base_eq, word, word, hk, Nat.mod_mul, Nat.add_sub_cancel_left,
    Nat.mul_comm _ L.blockSize,
    Nat.mul_mod_mul_left]

theorem inBlock_word_base : L.inBlock (word L.bits n) (word L.bits (L.base n)) = true := by
  rw [← base_word, base_eq]
  exact L.inBlock_base _

/-- `circular_less_than` on the registers of offsets within half their range of
each other. -/
theorem less_wrapping (ha : a < b + 2 ^ (L.bits - 1)) (hb : b < a + 2 ^ (L.bits - 1)) :
    L.less .wrapping (word L.bits a) (word L.bits b) = L.less .natural a b :=
  circularLessThan_word.trans (circularLessThan_near ha hb)

theorem reg_of_lt {n : Nat} (hn : n < 2 ^ L.bits) : L.reg .wrapping n = n := word_of_lt hn

theorem less_of_lt {a b : Nat} (ha : a < 2 ^ (L.bits - 1)) (hb : b < 2 ^ (L.bits - 1)) :
    L.less .wrapping a b = L.less .natural a b := by
  have hless := less_wrapping (L := L) (a := a) (b := b) (Nat.lt_add_left b ha)
    (Nat.lt_add_left a hb)
  rw [word_of_lt (half_lt ha), word_of_lt (half_lt hb)] at hless
  exact hless

end Layout

variable {F V : Type} {L : Layout} {h : Heap F V} {p i n lo idx tail : Nat} {c : Chain}
  {e : Element F V} {f : Find} {r : Reclaim}

def Block.wrap (L : Layout) (b : Block F V) : Block F V := { b with offset := word L.bits b.offset }

def Heap.wrap (L : Layout) (h : Heap F V) : Heap F V :=
    { h with block := fun p => (h.block p).wrap L }

def Find.wrap (L : Layout) : Find → Find
  | load b => load b
  | next b offset => next b (word L.bits offset)
  | cas b offset => cas b (word L.bits offset)
  | check b offset => check b (word L.bits offset)
  | found b => found b

def Reclaim.wrap (L : Layout) : Reclaim → Reclaim
  | setOffset un i boff t old new => setOffset un i (word L.bits boff) t old new
  | gather un old new => gather un old new
  | reset un i old new => reset un i old new
  | tailNext un t old new => tailNext un t old new
  | unlink un t old new => unlink un t old new
  | tailOffset un t old new => tailOffset un t old new
  | relink un t old new => relink un t old new
  | tailAgain un t old new => tailAgain un t old new
  | done => done

namespace Heap

@[simp] theorem fresh_wrap : (h.wrap L).fresh = h.fresh := rfl

@[simp] theorem offset_wrap : ((h.wrap L).block p).offset = word L.bits (h.block p).offset := rfl

@[simp] theorem next_wrap : ((h.wrap L).block p).next = (h.block p).next := rfl

@[simp] theorem elem_wrap : (h.wrap L).elem p i = h.elem p i := rfl

theorem wrap_setBlock {b : Block F V} :
    (h.setBlock p b).wrap L = (h.wrap L).setBlock p (b.wrap L) := by
  rw [wrap, wrap, setBlock, setBlock]
  congr 1
  funext q
  simp only [Function.update_apply]
  split <;> rfl

@[simp] theorem wrap_setElem : (h.setElem p i e).wrap L = (h.wrap L).setElem p i e := wrap_setBlock

@[simp] theorem wrap_setNext {o : Option Nat} : (h.setNext p o).wrap L = (h.wrap L).setNext p o :=
  wrap_setBlock

@[simp] theorem wrap_setOffset :
    (h.setOffset p n).wrap L = (h.wrap L).setOffset p (word L.bits n) := wrap_setBlock

@[simp] theorem wrap_alloc [Zero F] : (h.alloc n).wrap L = (h.wrap L).alloc (word L.bits n) :=
  congrArg (fun x : Heap F V => { x with fresh := h.fresh + 1 }) wrap_setBlock

end Heap

@[simp] theorem Find.block_wrap : (f.wrap L).block = f.block := by cases f <;> rfl

@[simp] theorem Reclaim.un_wrap : (r.wrap L).un = r.un := by cases r <;> rfl

theorem Reclaim.leads_wrap {q : Nat} : Leads (h.wrap L) p q ↔ Leads h p q := by
  constructor <;> intro hl
  · induction hl with
    | refl p => exact .refl p
    | next hn _ ih => exact .next hn ih
  · induction hl with
    | refl p => exact .refl p
    | next hn _ ih => exact .next hn ih

variable [Zero F]

/-- A step of `find_block` on registers. -/
theorem Find.step_wrap (ok : c.Ok L h) (hlo : c.first ≤ lo) (hf : f.Ok L c lo idx)
    (hnear : idx < lo * L.blockSize + 2 ^ L.bits) :
    (f.wrap L).step .wrapping L (word L.bits idx) (h.wrap L) =
      ((f.step .natural L idx h).1.wrap L, (f.step .natural L idx h).2.1,
        (f.step .natural L idx h).2.2.wrap L) := by
  have heq : ∀ {k b}, At L c lo idx k b →
      (word L.bits (k * L.blockSize) = word L.bits (L.base idx) ↔
        k * L.blockSize = L.base idx) := by
    intro k b hk
    have hmul := Nat.mul_le_mul_right L.blockSize hk.lo
    refine word_inj ?_ (L.base_le.trans_lt (by omega))
    rw [L.base_eq]
    exact Nat.mul_le_mul_right _ hk.le
  have hoff : ∀ {k b}, At L c lo idx k b → (h.block b).offset = k * L.blockSize := by
    intro k b hk
    rw [← hk.block]
    exact ok.offset k ⟨hlo.trans hk.lo, hk.last⟩
  have hin : L.inBlock idx (L.base idx) = true := by
    rw [L.base_eq]
    exact L.inBlock_base idx
  cases f with
  | load b =>
    obtain ⟨k, hk⟩ := hf
    simp only [Find.wrap, Find.step, Heap.offset_wrap, Layout.base_word, hoff hk, ne_eq, heq hk]
    split
    · rfl
    · next hne =>
      rw [not_not] at hne
      simp only [hne, hin, L.inBlock_word_base]
  | next b offset =>
    simp only [Find.wrap, Find.step, Heap.next_wrap]
    cases (h.block b).next <;> simp [word_word_add]
  | cas b offset =>
    simp only [Find.wrap, Find.step, Heap.next_wrap]
    cases (h.block b).next <;> simp [word_word_add]
  | check b offset =>
    obtain ⟨k, hk, rfl⟩ := hf
    simp only [Find.wrap, Find.step, Heap.offset_wrap, Layout.base_word, hoff hk, ne_eq, heq hk]
    split
    · simp
    · next hne =>
      rw [not_not] at hne
      simp [hne, hin, L.inBlock_word_base]
  | found b => rfl

/-- A step of `reclaim_blocks` on registers. -/
theorem Reclaim.step_wrap : (r.wrap L).step .wrapping L (h.wrap L) tail =
    ((r.step .natural L h tail).1.wrap L, (r.step .natural L h tail).2.1,
      (r.step .natural L h tail).2.2.1, (r.step .natural L h tail).2.2.2.wrap L) := by
  cases r with
  | gather un old new =>
    simp only [Reclaim.wrap, Reclaim.step, Heap.next_wrap]
    split
    · cases (h.block old).next <;> rfl
    · split <;> rfl
  | reset un i old new =>
    simp only [Reclaim.wrap, Reclaim.step, Heap.elem_wrap, Heap.wrap_setElem]
    split <;> rfl
  | tailNext un t old new | tailAgain un t old new =>
    simp only [Reclaim.wrap, Reclaim.step, Heap.next_wrap]
    cases (h.block t).next <;> rfl
  | unlink un t old new => simp only [Reclaim.wrap, Reclaim.step, Heap.wrap_setNext]
  | tailOffset un t old new =>
    simp [Reclaim.wrap, Reclaim.step, word_word_add]
  | setOffset un i boff t old new =>
    simp only [Reclaim.wrap, Reclaim.step, Heap.wrap_setOffset, Layout.reg_wrapping,
      Layout.reg_natural, word_word_add]
    split <;> rfl
  | relink un t old new =>
    simp only [Reclaim.wrap, Reclaim.step, Heap.next_wrap]
    cases (h.block t).next
    · simp
    · rfl
  | done => rfl

/-! ## Offsets that do not come to the end of the range -/

theorem Find.step_of_lt {f : Find} (hf : f.Ok L c lo idx) (hlt : idx + L.blockSize < 2 ^ L.bits) :
    f.step .wrapping L idx h = f.step .natural L idx h := by
  have hreg : ∀ {offset k}, offset = k * L.blockSize → k ≤ idx / L.blockSize →
      L.reg .wrapping (offset + L.blockSize) = L.reg .natural (offset + L.blockSize) := by
    intro offset k hoff hk
    have hle : offset ≤ idx := hoff ▸ (Nat.le_div_iff_mul_le L.blockSize_pos).mp hk
    exact L.reg_of_lt (Nat.lt_of_le_of_lt (Nat.add_le_add_right hle _) hlt)
  cases f with
  | load b | check b offset | found b => rfl
  | next b offset | cas b offset =>
    obtain ⟨k, hk, hoff, -⟩ := hf
    rw [step, step, hreg hoff hk.le]

theorem Reclaim.step_of_lt {r : Reclaim} (ok : c.Ok L h.bare) (hr : r.Ok L c h.bare lo tail)
    (hlt : (c.last + 1 + r.limbo.length) * L.blockSize < 2 ^ L.bits) :
    r.step .wrapping L h tail = r.step .natural L h tail := by
  have hreg : ∀ {n k}, n = k * L.blockSize → k ≤ c.last + 1 + r.limbo.length →
      L.reg .wrapping n = L.reg .natural n := by
    intro n k hn hk
    refine L.reg_of_lt (Nat.lt_of_le_of_lt ?_ hlt)
    rw [hn]
    exact Nat.mul_le_mul_right _ hk
  cases r with
  | gather | reset | tailNext | unlink | relink | tailAgain | done => rfl
  | tailOffset un t old new =>
    obtain ⟨-, -, -, ⟨k, hk, hb⟩, -⟩ := hr
    have hoff := ok.offset k hk
    rw [hb, Heap.offset_bare] at hoff
    have hlast := hk.2
    rw [step, step, hreg (k := k + 1) (by rw [hoff, Nat.succ_mul]) (by omega)]
  | setOffset un i boff t old new =>
    obtain ⟨-, -, -, -, -, k, hk, -, hboff, -⟩ := hr
    have hlast := hk.2
    rw [step, step]
    split
    · next hi =>
      have hlen : (setOffset un i boff t old new).limbo.length = un.length := rfl
      rw [hreg (k := k + 1 + i + 1) (by rw [hboff, Nat.succ_mul]) (by omega)]
    · rfl

end CoroUtil.Blocks
