import CoroUtil.Blocks.Wrap
import CoroUtil.General.System

/-!
# `find_block` beside `reclaim_blocks`

The queues and the channel run one `reclaim_blocks` at a time beside any number of
calls of `find_block` that go from blocks it does not move.  `pair` is this system
for itself: `State.walk` and `State.move` are the steps of a call and of the
reclaimer, on registers, and `Act.write` is what else happens to the flags of the
blocks.  Neither function looks at the values, so the elements have none.

`Intact` says that the blocks are a list, an unlinked group and a rest of the old
blocks, and that both functions come to an end: a call takes at most a fixed number
of steps, and the reclaimer at most eight more for every block that a call links
meanwhile.
-/

namespace CoroUtil.Blocks

open CoroUtil.General

/-- Following the links from `p` visits the blocks of `l` and comes to `q`. -/
inductive Seg {F V : Type} (h : Heap F V) : Option Nat → List Nat → Option Nat → Prop
  | nil (p : Option Nat) : Seg h p [] p
  | cons {p : Nat} {l : List Nat} {q : Option Nat} (hl : Seg h (h.block p).next l q) :
      Seg h (some p) (p :: l) q

namespace Pair

structure State (F : Type) where
  heap : Heap F Empty
  /-- `NewHead` of the latest `reclaim_blocks`. -/
  head : Nat
  tail : Nat
  reclaim : Reclaim
  /-- The calls of `find_block`: `Idx` and where they are. -/
  call : Nat → Option (Nat × Find)
  -- history
  /-- The blocks that have been linked. -/
  linked : List Nat
  /-- How many blocks there were when `reclaim_blocks` was called. -/
  size : Nat
  /-- The steps it has taken since. -/
  taken : Nat
  /-- How many blocks the calls have linked since. -/
  grown : Nat
  /-- The steps that a call has taken. -/
  steps : Nat → Nat
  broken : Bool

inductive Act (F : Type)
  /-- `find_block(b, idx)` is called by task `t`. -/
  | find (t b idx : Nat)
  /-- The call of task `t` takes its next step. -/
  | walk (t : Nat)
  /-- `reclaim_blocks` is called with the head and `new`. -/
  | reclaim (new : Nat)
  /-- It takes its next step. -/
  | move
  /-- Flags of an element are written. -/
  | write (p i : Nat) (f : F)

variable {F : Type} [Zero F]

namespace State

variable (o : Offsets) (L : Layout) (s : State F)

/-- A step of a call of `find_block`, which ends when it has found the block. -/
def walk (t idx : Nat) (f : Find) : State F :=
  let (heap, ok, f') := f.step o L idx s.heap
  { s with
    heap
    call := Function.update s.call t (match f' with
      | .found _ => none
      | f' => some (idx, f'))
    linked := if f.links s.heap then s.linked ++ [s.heap.fresh] else s.linked
    grown := if f.links s.heap then s.grown + 1 else s.grown
    steps := Function.update s.steps t (s.steps t + 1)
    broken := s.broken || !ok }

/-- A step of `reclaim_blocks`. -/
def move : State F :=
  let (heap, tail, ok, reclaim) := s.reclaim.step o L s.heap s.tail
  { s with heap, tail, reclaim, taken := s.taken + 1, broken := s.broken || !ok }

/-- The call `find_block(b, idx)`. -/
def find (t b idx : Nat) : State F :=
  { s with
    call := Function.update s.call t (some (idx, .load b))
    steps := Function.update s.steps t 0 }

/-- The call `reclaim_blocks(head, new)`. -/
def start (new : Nat) : State F :=
  { s with
    reclaim := .gather [] s.head new
    head := new
    size := s.linked.length
    taken := 0
    grown := 0 }

def write (p i : Nat) (f : F) : State F := { s with heap := s.heap.setElem p i ⟨f, none⟩ }

end State

/-- One step.  A call starts from a block of the list, and no call is at a block that
`reclaim_blocks` is asked to move. -/
def step (o : Offsets) (L : Layout) (s : State F) (a : Act F) (s' : State F) : Prop :=
  match a with
  | .find t b idx =>
    s.call t = none ∧ Reclaim.Leads s.heap s.head b ∧ idx < 2 ^ L.bits ∧ s' = s.find t b idx
  | .walk t => ∃ idx f, s.call t = some (idx, f) ∧ s' = s.walk o L t idx f
  | .reclaim new =>
    s.reclaim = .done ∧ Reclaim.Leads s.heap s.head new ∧
      (∀ t idx f, s.call t = some (idx, f) → Reclaim.Leads s.heap new f.block) ∧
      s' = s.start new
  | .move => s.reclaim ≠ .done ∧ s' = s.move o L
  | .write p i f => Reclaim.Leads s.heap s.head p ∧ i < L.blockSize ∧ s' = s.write p i f

/-- A list of blocks of any length and `tail_block` anywhere in it. -/
structure Start (L : Layout) (s : State F) : Prop where
  list : Seg s.heap (some s.head) s.linked none
  nodup : s.linked.Nodup
  fresh : ∀ p ∈ s.linked, p < s.heap.fresh
  first : ∃ k, (s.heap.block s.head).offset = L.reg .wrapping (k * L.blockSize)
  offset : ∀ i (hi : i + 1 < s.linked.length), (s.heap.block s.linked[i + 1]).offset =
    L.reg .wrapping ((s.heap.block s.linked[i]).offset + L.blockSize)
  register : ∀ p, (s.heap.block p).offset < 2 ^ L.bits
  tail : s.tail ∈ s.linked
  reclaim : s.reclaim = .done
  call : ∀ t, s.call t = none
  steps : ∀ t, s.steps t = 0
  taken : s.taken = 0
  sound : s.broken = false

/-- The system on registers. -/
def pair (F : Type) [Zero F] (L : Layout) : System (State F) (Act F) where
  init := Start L
  step := step .wrapping L

end Pair

/-- `OldHead` of a running `reclaim_blocks`. -/
def Reclaim.old : Reclaim → Option Nat
  | gather _ old _ | reset _ _ old _ | tailNext _ _ old _ | unlink _ _ old _
  | tailOffset _ _ old _ | setOffset _ _ _ _ old _ | relink _ _ old _ | tailAgain _ _ old _ =>
    some old
  | done => none

namespace Pair

variable {F : Type}

/-- `l` is the list from the head on and `todo` the part of the old blocks from
`OldHead` on, which is still to be moved. -/
structure Split (L : Layout) (s : State F) (todo l : List Nat) : Prop where
  list : Seg s.heap (some s.head) l none
  old : Seg s.heap s.reclaim.old todo (if s.reclaim = .done then none else some s.head)
  /-- No block is lost, and none is in two places or in one place twice. -/
  nodup : (s.reclaim.un ++ todo ++ l).Nodup
  mem : ∀ p, p ∈ s.linked ↔ p ∈ s.reclaim.un ++ todo ++ l
  offset : ∀ i (hi : i + 1 < l.length), (s.heap.block l[i + 1]).offset =
    L.reg .wrapping ((s.heap.block l[i]).offset + L.blockSize)

/-- Block `p`, which is in the unlinked group, has its final form. -/
def Final (L : Layout) [Zero F] (s s' : State F) (p : Nat) : Prop :=
  (∀ i < L.blockSize, (s.heap.elem p i).flags = 0) ∧
    (s'.heap.block p).offset = (s.heap.block p).offset ∧
    ∀ i, s'.heap.elem p i = s.heap.elem p i

/-- A bound on the steps of a running `reclaim_blocks`. -/
def bound (L : Layout) (s : State F) : Nat :=
  (4 * L.blockSize + 28) * s.size + 5 + 8 * s.grown

structure Intact (L : Layout) [Zero F] (s : State F) : Prop where
  split : ∃ todo l, Split L s todo l
  linked : s.linked.Nodup
  /-- What a step makes reachable has been reset and has its offset. -/
  ready : ∀ a s', step .wrapping L s a s' → ∀ p ∈ s.reclaim.un,
    Reclaim.Leads s'.heap s'.head p → Final L s s' p
  reclaim : s.reclaim ≠ .done → s.taken < bound L s
  find : ∀ t, s.call t ≠ none → s.steps t < 3 * 2 ^ L.bits + 3
  sound : s.broken = false

end Pair

end CoroUtil.Blocks
