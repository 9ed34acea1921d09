import CoroUtil.Blocks.Chain

/-!
# The values in the blocks

Finding a block and reclaiming blocks construct nothing: what the heap holds
afterwards it held before.
-/

namespace CoroUtil.Blocks

variable {F V : Type} {o : Offsets} {L : Layout} {h : Heap F V} {P Q : V → Prop} {p i idx tail : Nat}

namespace Heap

/-- Every value in the heap satisfies `P`. -/
def Holds (P : V → Prop) (h : Heap F V) : Prop := ∀ p i v, (h.elem p i).data = some v → P v

namespace Holds

theorem mono (hh : Holds P h) (hPQ : ∀ v, P v → Q v) : Holds Q h :=
  fun p i v hv => hPQ v (hh p i v hv)

theorem setElem {e : Element F V} (hh : Holds P h) (he : ∀ v, e.data = some v → P v) :
    Holds P (h.setElem p i e) := fun q j v hv => by
  rw [elem_setElem] at hv
  split at hv
  · exact he v hv
  · exact hh q j v hv

theorem setNext {n : Option Nat} (hh : Holds P h) : Holds P (h.setNext p n) := fun q j v hv => by
  rw [elem_setNext] at hv
  exact hh q j v hv

theorem setOffset {n : Nat} (hh : Holds P h) : Holds P (h.setOffset p n) := fun q j v hv => by
  rw [elem_setOffset] at hv
  exact hh q j v hv

theorem alloc [Zero F] {n : Nat} (hh : Holds P h) : Holds P (h.alloc n) := fun q j v hv => by
  have helem : (h.alloc n).elem q j = (h.setBlock h.fresh (.new n)).elem q j := rfl
  rw [helem, elem, block_setBlock] at hv
  split at hv
  · cases hv
  · exact hh q j v hv

end Holds

end Heap

variable [Zero F]

theorem Find.step_holds (hh : h.Holds P) (f : Find) : (f.step o L idx h).1.Holds P := by
  cases f with
  | load b =>
    rw [Find.step]
    split <;> exact hh
  | next b offset =>
    rw [Find.step]
    split <;> exact hh
  | cas b offset =>
    rw [Find.step]
    split
    · exact hh.alloc.setNext
    · exact hh
  | check b offset =>
    rw [Find.step]
    split <;> exact hh
  | found b => exact hh

theorem Reclaim.step_holds (hh : h.Holds P) (r : Reclaim) : (r.step o L h tail).1.Holds P := by
  cases r with
  | gather un old new =>
    rw [Reclaim.step]
    split
    · split <;> exact hh
    · split <;> exact hh
  | reset un i old new => exact hh.setElem fun v hv => hh _ _ v hv
  | tailNext un t old new =>
    rw [Reclaim.step]
    split <;> exact hh
  | unlink un t old new => exact hh.setNext
  | tailOffset un t old new => exact hh
  | setOffset un i boff t old new => exact hh.setOffset
  | relink un t old new =>
    rw [Reclaim.step]
    split
    · exact hh.setNext
    · exact hh
  | tailAgain un t old new =>
    rw [Reclaim.step]
    split <;> exact hh
  | done => exact hh

end CoroUtil.Blocks
