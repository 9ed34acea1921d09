import Mathlib.Algebra.Group.PUnit
import CoroUtil.Blocks.Find
import CoroUtil.Blocks.Reclaim

/-!
# The blocks without their elements

`Heap.bare` keeps the offsets and the links.  `find_block` and `reclaim_blocks` do with
them what they do with the blocks, so where a pointer leads can be said without the
elements.
-/

namespace CoroUtil.Blocks

variable {F V : Type} [Zero F] {h : Heap F V} {p i idx tail : Nat} {o : Offsets} {L : Layout}

def Heap.bare (h : Heap F V) : Heap Unit Empty where
  block p := ⟨(h.block p).offset, (h.block p).next, fun _ => ⟨(), none⟩⟩
  fresh := h.fresh

namespace Heap

omit [Zero F] in
@[simp] theorem offset_bare : (h.bare.block p).offset = (h.block p).offset := rfl

omit [Zero F] in
@[simp] theorem next_bare : (h.bare.block p).next = (h.block p).next := rfl

omit [Zero F] in
@[simp] theorem fresh_bare : h.bare.fresh = h.fresh := rfl

theorem elem_unit (h : Heap Unit Empty) (p i : Nat) : h.elem p i = ⟨(), none⟩ := by
  generalize h.elem p i = e
  obtain ⟨⟨⟩, v⟩ := e
  cases v with
  | none => rfl
  | some v => exact v.elim

omit [Zero F] in
/-- Heaps with the same offsets and links. -/
theorem bare_congr {h' : Heap F V} (hoffset : ∀ p, (h'.block p).offset = (h.block p).offset)
    (hnext : ∀ p, (h'.block p).next = (h.block p).next) (hfresh : h'.fresh = h.fresh) :
    h'.bare = h.bare := by
  have hblock : h'.bare.block = h.bare.block := by
    funext p
    change (⟨_, _, _⟩ : Block Unit Empty) = ⟨_, _, _⟩
    rw [hoffset, hnext]
  calc h'.bare = ⟨h'.bare.block, h'.bare.fresh⟩ := rfl
    _ = ⟨h.bare.block, h.bare.fresh⟩ := by rw [hblock, fresh_bare, fresh_bare, hfresh]
    _ = h.bare := rfl

omit [Zero F] in
@[simp] theorem bare_setElem {e : Element F V} : (h.setElem p i e).bare = h.bare :=
  bare_congr (fun _ => offset_setElem) (fun _ => next_setElem) rfl

omit [Zero F] in
theorem bare_setBlock {b : Block F V} :
    (h.setBlock p b).bare = h.bare.setBlock p ⟨b.offset, b.next, fun _ => ⟨(), none⟩⟩ := by
  refine congrArg (Heap.mk · h.fresh) (funext fun q => ?_)
  rw [block_setBlock, Function.update_apply]
  split <;> rfl

omit [Zero F] in
theorem bare_setOffset {offset : Nat} : (h.setOffset p offset).bare = h.bare.setOffset p offset :=
  bare_setBlock

omit [Zero F] in
theorem bare_setNext {next : Option Nat} : (h.setNext p next).bare = h.bare.setNext p next :=
  bare_setBlock

theorem bare_alloc {offset : Nat} : (h.alloc offset).bare = h.bare.alloc offset := by
  have hset : (h.setBlock h.fresh (.new offset)).bare = h.bare.setBlock h.fresh (.new offset) :=
    bare_setBlock
  exact congrArg (fun k => { k with fresh := h.fresh + 1 }) hset

/-- A write to an element of a heap whose elements hold nothing. -/
theorem setElem_unit {h : Heap Unit Empty} {e : Element Unit Empty} : h.setElem p i e = h := by
  have helem : ∀ x y : Element Unit Empty, x = y := by
    intro x y
    obtain ⟨⟨⟩, v⟩ := x
    obtain ⟨⟨⟩, w⟩ := y
    cases v with
    | some v => exact v.elim
    | none =>
      cases w with
      | some w => exact w.elim
      | none => rfl
  refine congrArg (Heap.mk · h.fresh) (funext fun q => ?_)
  rw [Function.update_apply]
  split
  · next hq =>
    subst hq
    exact congrArg (Block.mk _ _) (funext fun _ => helem _ _)
  · rfl

end Heap

open Heap

theorem Find.step_bare (f : Find) : f.step o L idx h.bare =
    ((f.step o L idx h).1.bare, (f.step o L idx h).2.1, (f.step o L idx h).2.2) := by
  cases f with
  | load b =>
    rw [step, step, offset_bare]
    split <;> rfl
  | next b offset =>
    rw [step, step, next_bare]
    split <;> rfl
  | cas b offset =>
    rw [step, step, next_bare]
    split
    · rw [fresh_bare, bare_setNext, bare_alloc]
    · rfl
  | check b offset =>
    rw [step, step, offset_bare]
    split <;> rfl
  | found b => rfl

theorem Reclaim.step_bare (r : Reclaim) : r.step o L h.bare tail =
    ((r.step o L h tail).1.bare, (r.step o L h tail).2) := by
  cases r with
  | gather un old new =>
    rw [step, step, next_bare]
    split
    · split <;> rfl
    · split <;> rfl
  | reset un i old new => rw [step, step, setElem_unit, bare_setElem]
  | tailNext un t old new | tailAgain un t old new =>
    rw [step, step, next_bare]
    split <;> rfl
  | unlink un t old new => rw [step, step, bare_setNext]
  | tailOffset un t old new => rfl
  | setOffset un i boff t old new => rw [step, step, bare_setOffset]
  | relink un t old new =>
    rw [step, step, next_bare]
    split
    · rw [bare_setNext]
    · rfl
  | done => rfl

end CoroUtil.Blocks
