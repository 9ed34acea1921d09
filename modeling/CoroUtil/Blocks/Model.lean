import Mathlib.Algebra.Notation.Defs
import Mathlib.Logic.Function.Basic
import CoroUtil.Word

/-!
# `data_block`, `find_block` and `reclaim_blocks`

The unbounded queues and the channel keep their elements in a linked list of
blocks and share this code.  Blocks live in a heap and a pointer is an address;
`find_block` and `reclaim_blocks` are machines that take one atomic load, store
or compare-exchange a step, for the task that runs them to interleave with the
others.  A step also says whether the assertions it passes hold; what an assertion
loads belongs to the step that comes to it.

`Offsets` says what an offset is: a register that wraps, which is what the code
has, or the natural number that the register stands for.
-/

namespace CoroUtil.Blocks

/-- `PLATFORM_BITS` and `BlockSize`, a power of 2.  An element has at least the
size of its `flags`, so an array of `BlockSize` elements that is an object has
fewer than `2 ^ (PLATFORM_BITS - 1)`. -/
structure Layout where
  bits : Nat
  log : Nat
  log_lt : log + 2 ≤ bits

/-- What holds an offset: a register of `PLATFORM_BITS` bits or a natural number. -/
inductive Offsets
  | wrapping
  | natural
  deriving DecidableEq

namespace Layout

variable (L : Layout) (o : Offsets)

def blockSize : Nat := 2 ^ L.log

/-- What an offset holds of a value that is stored to it. -/
def reg (n : Nat) : Nat :=
  match o with
  | .wrapping => word L.bits n
  | .natural => n

/-- `circular_less_than(a, b)`. -/
def less (a b : Nat) : Bool :=
  match o with
  | .wrapping => circularLessThan L.bits a b
  | .natural => decide (a < b)

/-- `Idx & BlockSizeMask`. -/
def slot (idx : Nat) : Nat := idx % L.blockSize

/-- `Idx & ~BlockSizeMask`. -/
def base (idx : Nat) : Nat := idx - idx % L.blockSize

/-- `Idx >= offset && Idx <= offset + BlockSize - 1`. -/
def inBlock (idx offset : Nat) : Bool :=
  decide (offset ≤ idx) && decide (idx ≤ offset + L.blockSize - 1)

end Layout

/-- `element`. -/
structure Element (F V : Type) where
  flags : F
  data : Option V

/-- `data_block`. -/
structure Block (F V : Type) where
  offset : Nat
  next : Option Nat
  values : Nat → Element F V

/-- The blocks by their addresses; `fresh` is what `new` returns next. -/
structure Heap (F V : Type) where
  block : Nat → Block F V
  fresh : Nat

variable {F V : Type} [Zero F]

/-- `data_block(Offset)`. -/
def Block.new (offset : Nat) : Block F V := ⟨offset, none, fun _ => ⟨0, none⟩⟩

namespace Heap

variable (h : Heap F V) (p : Nat)

def setBlock (b : Block F V) : Heap F V := { h with block := Function.update h.block p b }

def setOffset (offset : Nat) : Heap F V := h.setBlock p { h.block p with offset }

def setNext (next : Option Nat) : Heap F V := h.setBlock p { h.block p with next }

/-- The element at a position of a block. -/
def elem (i : Nat) : Element F V := (h.block p).values i

def setElem (i : Nat) (e : Element F V) : Heap F V :=
  h.setBlock p { h.block p with values := Function.update (h.block p).values i e }

/-- `new data_block(Offset)`. -/
def alloc (offset : Nat) : Heap F V := { h.setBlock h.fresh (.new offset) with fresh := h.fresh + 1 }

end Heap

/-- Where `find_block` is; `b` is its `Block` and `offset` its `offset`. -/
inductive Find
  | load (b : Nat)
  | next (b offset : Nat)
  | cas (b offset : Nat)
  | check (b offset : Nat)
  | found (b : Nat)
  deriving DecidableEq

/-- A step of `find_block(Block, idx)`.  The last one makes the loads of both assertions. -/
def Find.step (o : Offsets) (L : Layout) (idx : Nat) (h : Heap F V) : Find → Heap F V × Bool × Find
  | load b =>
    if (h.block b).offset ≠ L.base idx then (h, true, next b (h.block b).offset)
    else (h, L.inBlock idx (h.block b).offset, found b)
  | next b offset =>
    match (h.block b).next with
    | none => (h, true, cas b offset)
    | some n => (h, true, check n (L.reg o (offset + L.blockSize)))
  | cas b offset =>
    match (h.block b).next with
    | none =>
      ((h.alloc (L.reg o (offset + L.blockSize))).setNext b (some h.fresh), true,
        check h.fresh (L.reg o (offset + L.blockSize)))
    | some n => (h, true, check n (L.reg o (offset + L.blockSize)))
  | check b offset =>
    if offset ≠ L.base idx then (h, (h.block b).offset = offset, next b offset)
    else
      (h, decide ((h.block b).offset = offset) && L.inBlock idx (h.block b).offset, found b)
  | found b => (h, true, found b)

/-- Where `reclaim_blocks` is: `un` is what it has collected in `unlinked`, `old`
and `new` are `OldHead` and `NewHead`, `t` is `tailBlock`. -/
inductive Reclaim
  | gather (un : List Nat) (old new : Nat)
  | reset (un : List Nat) (i : Nat) (old new : Nat)
  | tailNext (un : List Nat) (t old new : Nat)
  | unlink (un : List Nat) (t old new : Nat)
  | tailOffset (un : List Nat) (t old new : Nat)
  | setOffset (un : List Nat) (i boff t old new : Nat)
  | relink (un : List Nat) (t old new : Nat)
  | tailAgain (un : List Nat) (t old new : Nat)
  | done
  deriving DecidableEq

/-- A step of `reclaim_blocks(OldHead, NewHead)`; `tail` is `tail_block`. -/
def Reclaim.step (o : Offsets) (L : Layout) (h : Heap F V) (tail : Nat) :
    Reclaim → Heap F V × Nat × Bool × Reclaim
  | gather un old new =>
    if un.length < 4 ∧ old ≠ new then
      match (h.block old).next with
      | none => (h, tail, false, done)
      | some n => (h, tail, true, gather (un ++ [old]) n new)
    else if un.length = 0 then (h, tail, true, done)
    else (h, tail, true, reset un 0 old new)
  | reset un i old new =>
    -- the store to `unlinked[i / BlockSize]->values[i % BlockSize].flags`
    let b := un[i / L.blockSize]?.getD 0
    (h.setElem b (i % L.blockSize) ⟨0, (h.elem b (i % L.blockSize)).data⟩, tail, true,
      if i + 1 < un.length * L.blockSize then reset un (i + 1) old new
      else tailNext un tail old new)
  | tailNext un t old new =>
    match (h.block t).next with
    | none => (h, tail, true, unlink un t old new)
    | some n => (h, tail, true, tailNext un n old new)
  | unlink un t old new => (h.setNext (un.getLastD 0) none, tail, true, tailOffset un t old new)
  | tailOffset un t old new =>
    (h, tail, true, setOffset un 0 (L.reg o ((h.block t).offset + L.blockSize)) t old new)
  | setOffset un i boff t old new =>
    (h.setOffset (un[i]?.getD 0) boff, tail, true,
      if i + 1 < un.length then setOffset un (i + 1) (L.reg o (boff + L.blockSize)) t old new
      else relink un t old new)
  | relink un t old new =>
    match (h.block t).next with
    | none => (h.setNext t (some (un.headD 0)), un.getLastD 0, true, gather [] old new)
    | some n => (h, tail, true, tailAgain un n old new)
  | tailAgain un t old new =>
    match (h.block t).next with
    | none => (h, tail, true, tailOffset un t old new)
    | some n => (h, tail, true, tailAgain un n old new)
  | done => (h, tail, true, done)

end CoroUtil.Blocks
