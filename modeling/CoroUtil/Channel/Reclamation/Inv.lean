import CoroUtil.Blocks.Span
import CoroUtil.Channel.Reclamation.Sight

/-!
# What keeps the blocks of an operation

The blocks are the positions of a chain (`Map`), and `lo` is that of the committed head.
A hazard pointer that a token has is at positions from `lo` on (`Seat`), and so is the
walk of its operation, which has started at the position `low` (`Phase.Holds`).

`Duty` is what `try_reclaim_blocks` has done about such a hazard pointer, or will come to.
An operation that it has passed in its first loop has no index before `ProtectIdx`, and
what it loads later is what is stored then (`Follows`).  The second loop stores the new
head and looks for an `active_offset` again: whoever has loaded before protects what he
has loaded (`Done`).
-/

namespace CoroUtil.Channel

open CoroUtil.General CoroUtil.Blocks

/-- The numbers behind the pointers. -/
structure Map where
  chain : Chain
  /-- The position of the committed head. -/
  lo : Nat
  /-- The positions of the block pointers of a hazard pointer. -/
  pos : Nat → Side → Nat
  /-- The position of the block that its operation has loaded. -/
  low : Nat → Nat

/-- The position of `newHead`, and the hazard pointers that the loop of the reclaim has
still to visit. -/
structure Plan where
  new : Nat
  rest : List Nat

/-- `b` is the block at position `k`. -/
def Map.At (m : Map) (k b : Nat) : Prop := k ≤ m.chain.last ∧ m.chain.block k = b

namespace Phase

/-- It has still to store its block. -/
def aims : Phase → Bool
  | ticket .. | loaded .. | seeks .. | ends .. => true
  | out | guards .. | swaps .. | has .. | crosses .. => false

/-- It is on its way from the block that it has loaded from this pointer. -/
def Looks (p : Phase) (side : Side) : Prop := p.looks = true ∧ p.side = some side

/-- It has no index before `q`. -/
def Clear (p : Phase) (q : Nat) : Prop := ∀ i, p.idx = some i → q ≤ i

theorem Clear.mono {p : Phase} {q q' : Nat} (h : p.Clear q) (hq : q' ≤ q) : p.Clear q' :=
  fun i hi => hq.trans (h i hi)

end Phase

namespace Sight

variable (cfg : Config) (l : List Nat) (S : Sight) (m : Map) (a : Plan)

/-- `b` is the block of a position from `f` on that both offsets have come to. -/
def HeadAt (f b : Nat) : Prop :=
  ∃ k, f ≤ k ∧ m.At k b ∧ ∀ side, k * cfg.blockSize ≤ S.off side

/-- A block pointer of hazard pointer `z` is at a position from `f` on. -/
structure Seat (f z : Nat) (side : Side) : Prop where
  block : (S.hazard z).block side = some (m.chain.block (m.pos z side))
  le : f ≤ m.pos z side
  last : m.pos z side ≤ m.chain.last
  off : m.pos z side * cfg.blockSize ≤ S.off side
  protect : (S.hazard z).nextProtect side ≤ m.pos z side * cfg.blockSize

/-- What the phase knows of the blocks. -/
def Knows (z : Nat) : Phase → Prop
  | .out => True
  | .guards side act =>
    act = (S.hazard z).activeOffset ∧ (S.hazard z).activeOffset = (S.hazard z).nextProtect side
  | .ticket _ act _ => act = (S.hazard z).activeOffset
  | .loaded _ act _ b => act = (S.hazard z).activeOffset ∧ m.At (m.low z) b
  | .seeks _ act idx boff f =>
    (∀ o ∈ act, o = (S.hazard z).activeOffset) ∧ (∀ o ∈ boff, o = m.low z * cfg.blockSize) ∧
      f.Ok cfg.toLayout m.chain (m.low z) idx
  | .ends idx last boff b f =>
    boff = m.low z * cfg.blockSize ∧ idx ≤ last ∧ last ≤ S.writeOffset ∧
      m.At (idx / cfg.blockSize) b ∧ f.Ok cfg.toLayout m.chain (m.low z) last
  | .swaps idx last b target =>
    idx ≤ last ∧ last / cfg.blockSize ≤ m.pos z .write ∧ m.At (idx / cfg.blockSize) b ∧
      m.At (last / cfg.blockSize) target
  | .has _ idx n stop b =>
    idx ≤ n ∧ n < stop ∧ (stop - 1) / cfg.blockSize ≤ m.chain.last ∧ m.At (n / cfg.blockSize) b
  | .crosses idx n stop b =>
    idx < n ∧ n ≤ stop ∧ (stop - 1) / cfg.blockSize ≤ m.chain.last ∧ n % cfg.blockSize = 0 ∧
      m.At (n / cfg.blockSize - 1) b

/-- What holds while the operation that uses `z` is in the phase. -/
structure Holds (z : Nat) (p : Phase) : Prop where
  idx : ∀ i, p.idx = some i → (S.hazard z).activeOffset ≤ i ∧ m.lo * cfg.blockSize ≤ i ∧
    ∀ side, p.side = some side → i ≤ S.off side
  aims : p.aims = true → ∀ side, p.side = some side →
    (S.hazard z).activeOffset = (S.hazard z).nextProtect side ∧
      ∀ i, p.idx = some i → m.pos z side * cfg.blockSize ≤ i
  looks : p.looks = true → (S.hazard z).activeOffset ≤ m.low z * cfg.blockSize ∧ m.lo ≤ m.low z ∧
    ∀ i, p.idx = some i → m.low z * cfg.blockSize ≤ i
  knows : Knows cfg S m z p

/-! ## `get_hazard_ptr` -/

/-- `init_haz_ptr` has stored an offset that is not past the committed head. -/
def Low (p : Nat) : Prop := ∀ side, (S.hazard p).nextProtect side ≤ m.lo * cfg.blockSize

/-- What is stored, or will be. -/
def Stores : Acquire → Prop
  | .headBlock _ _ off | .initActive _ _ off _ =>
    off ≤ m.lo * cfg.blockSize ∧ cfg.blockSize ∣ off
  | .initRead _ p _ | .initWrite _ p _ | .count _ p | .check _ p => Low cfg S m p
  | _ => True

/-- The blocks of a call that will not go back. -/
def Safe (f : Nat) : Acquire → Prop
  | .initActive _ _ _ head | .initRead _ _ head => HeadAt cfg S m f head
  | .initWrite _ p head => HeadAt cfg S m f head ∧ Seat cfg S m f p .read
  | .count _ p | .check _ p => ∀ side, Seat cfg S m f p side
  | _ => True

/-- Where a call of `get_hazard_ptr` is. -/
structure Calling (f : Nat) (q : Acquire) : Prop where
  rc : ∀ n, q.rc = some n → n ≤ S.reclaimCounter
  head : ∀ b, q.head = some b → b < S.heap.fresh
  stores : Stores cfg S m q
  safe : q.rc = some S.reclaimCounter → Safe cfg S m f q

/-! ## `close` -/

/-- Where `close` is. -/
def Walks : Task → Prop
  | .marks idx => m.lo * cfg.blockSize ≤ idx
  | .walks idx f => m.lo * cfg.blockSize ≤ idx ∧ f.Ok cfg.toLayout m.chain m.lo idx
  | _ => True

/-! ## The reclaim -/

section

variable (z : Nat) (p : Phase) (q : Nat) (side : Side)

/-- If it is on its way from a block, that is at or after the offset `q`, or is what the
pointer has. -/
def Follows : Prop :=
  p.Looks side → q ≤ m.low z * cfg.blockSize ∨ m.pos z side ≤ m.low z

/-- The pointer, and the block that it is on its way from, are at or after `q`. -/
def Done : Prop :=
  q ≤ m.pos z side * cfg.blockSize ∧ (p.Looks side → q ≤ m.low z * cfg.blockSize)

/-- The first loop has passed the hazard pointer. -/
def Passed : Prop := p.Clear q ∧ ∀ side, Follows cfg m z p q side

/-- What the second loop has to do, which is at `curr`: `now` are the pointers of that
which it has not come to. -/
def Todo (now : Side → Prop) (x : Scan) : Prop :=
  p.Clear (a.new * cfg.blockSize) ∧
    ∀ side, (z ∈ a.rest ∨ now side) ∧ Follows cfg m z p (a.new * cfg.blockSize) side ∨
      (x.count = S.hazPtrCounter → Done cfg m z p x.protect side)

end

/-- The second loop comes to `side` when it is at `now`. -/
def Ahead (now side : Side) : Prop := now = .write ∨ side = .read

/-- What the reclaim has done about a hazard pointer, or will come to; `idx` is the index
of its own operation. -/
def Duty (idx z : Nat) (p : Phase) : TryReclaim → Prop
  | .minNext x _ => z ∈ a.rest ∨ Passed cfg m z p (min x.protect idx)
  | .minOwned x curr _ | .minActive x curr _ =>
    z = curr ∨ z ∈ a.rest ∨ Passed cfg m z p (min x.protect idx)
  | .walk x _ false | .walkNext x _ false => Passed cfg m z p x.protect
  | .advNext x _ _ => Todo cfg S m a z p (fun _ => False) x
  | .advOwned x _ curr _ => Todo cfg S m a z p (fun _ => z = curr) x
  | .advBlock x _ curr _ now => Todo cfg S m a z p (fun side => z = curr ∧ Ahead now side) x
  | .advOffset x _ curr _ now b | .advNewOffset x _ curr _ now b _ | .advCas x _ curr _ now b
  | .advFailed x _ curr _ now b =>
    Todo cfg S m a z p (fun side => z = curr ∧ Ahead now side ∧
      (side = now → x.count = S.hazPtrCounter → ∃ k, m.lo ≤ k ∧ k ≤ m.pos z side ∧ m.At k b)) x
  | .advActive x _ curr _ now =>
    p.Clear (a.new * cfg.blockSize) ∧
      ∀ side, (z ∈ a.rest ∨ z = curr ∧ now = .write ∧ side = .read) ∧
          Follows cfg m z p (a.new * cfg.blockSize) side ∨
        (z = curr ∧ side = now ∧
          (x.count = S.hazPtrCounter → x.protect ≤ m.pos z side * cfg.blockSize)) ∨
        (x.count = S.hazPtrCounter → Done cfg m z p x.protect side)
  | .walk x _ true | .walkNext x _ true | .reduce x _ =>
    p.Clear x.protect ∧
      (x.count = S.hazPtrCounter → x.protect ≤ m.lo * cfg.blockSize ∨
        ∀ side, Done cfg m z p x.protect side)
  | .assertRead x _ | .assertWrite x _ | .storeHead x _ | .count x _ | .check x _ =>
    p.Clear (a.new * cfg.blockSize) ∧
      (x.count = S.hazPtrCounter → ∀ side, Done cfg m z p (a.new * cfg.blockSize) side)
  | .loadHead .. | .loadCount .. | .oldOffset .. | .rollback .. | .newOffset .. | .storeOffset ..
  | .move _ | .done => True

/-- The variables of `try_advance_head`. -/
structure Scans (x : Scan) : Prop where
  old : x.old = m.chain.block m.lo
  oldOff : x.oldOff = m.lo * cfg.blockSize
  count : x.count ≤ S.hazPtrCounter
  dvd : cfg.blockSize ∣ x.protect
  le : x.protect ≤ S.writeOffset

/-- `ProtectIdx` is not past the last block, nor past the offsets. -/
structure Reach (protect : Nat) : Prop where
  last : protect ≤ m.chain.last * cfg.blockSize
  off : ∀ side, protect ≤ S.off side

/-- `new` is the block of the position. -/
structure New (new : Nat) : Prop where
  le : m.lo ≤ a.new
  at_ : m.At a.new new
  off : ∀ side, a.new * cfg.blockSize ≤ S.off side

/-- The loop for `z` is at `curr`, and at its end if it comes to `z` again. -/
structure Loop (z curr : Nat) : Prop where
  mem : curr ∈ l
  path : Path S.next curr a.rest z
  rest : ∃ tl, a.rest = curr :: tl ∧ z ∉ tl

/-- It has loaded the next one. -/
structure Loads (z curr n : Nat) : Prop where
  mem : curr ∈ l
  next : n ∈ l
  path : Path S.next n a.rest z
  rest : z ∉ a.rest

/-- Nothing has been reclaimed that is not moved. -/
structure Quiet : Prop where
  first : m.chain.first = m.lo
  off : S.headOffset = m.lo * cfg.blockSize
  tail : Reclaim.Points m.chain S.tailBlock

/-- How far the second loop is. -/
structure Advances (x : Scan) (new : Nat) : Prop where
  scans : Scans cfg S m x
  new : New cfg S m a new
  le : x.protect ≤ a.new * cfg.blockSize

/-- What the steps of the reclaim rely on. -/
def Site (z idx : Nat) : TryReclaim → Prop
  | .loadHead protect => protect ≤ S.writeOffset
  | .loadCount protect old => protect ≤ S.writeOffset ∧ old = m.chain.block m.lo
  | .oldOffset protect old count =>
    protect ≤ S.writeOffset ∧ cfg.blockSize ∣ protect ∧ old = m.chain.block m.lo ∧
      count ≤ S.hazPtrCounter
  | .minNext x curr =>
    Scans cfg S m x ∧ m.lo * cfg.blockSize < x.protect ∧ (curr = z ∨ x.protect ≤ idx) ∧
      Loop l S a z curr
  | .minOwned x curr n | .minActive x curr n =>
    Scans cfg S m x ∧ m.lo * cfg.blockSize < x.protect ∧ (curr = z ∨ x.protect ≤ idx) ∧
      Loads l S a z curr n
  | .walk x new again =>
    Scans cfg S m x ∧ New cfg S m a new ∧ Reach cfg S m x.protect ∧
      (a.new = m.lo ∨ a.new * cfg.blockSize ≤ x.protect) ∧
      (again = false → m.lo * cfg.blockSize < x.protect)
  | .walkNext x new again =>
    Scans cfg S m x ∧ New cfg S m a new ∧ Reach cfg S m x.protect ∧
      a.new * cfg.blockSize < x.protect ∧
      (again = false → m.lo * cfg.blockSize < x.protect)
  | .advNext x new curr => Advances cfg S m a x new ∧ Loop l S a z curr
  | .advOwned x new curr n | .advBlock x new curr n _ | .advActive x new curr n _ =>
    Advances cfg S m a x new ∧ Loads l S a z curr n
  | .advOffset x new curr n _ b | .advFailed x new curr n _ b =>
    Advances cfg S m a x new ∧ Loads l S a z curr n ∧ b < S.heap.fresh
  | .advNewOffset x new curr n _ b boff =>
    Advances cfg S m a x new ∧ Loads l S a z curr n ∧ b < S.heap.fresh ∧ boff = S.offset b
  | .advCas x new curr n _ b =>
    Advances cfg S m a x new ∧ Loads l S a z curr n ∧ b < S.heap.fresh ∧
      S.offset b < a.new * cfg.blockSize
  | .reduce x new => Scans cfg S m x ∧ New cfg S m a new ∧ x.protect ≤ a.new * cfg.blockSize
  | .assertRead x new | .assertWrite x new | .storeHead x new | .count x new | .check x new =>
    Scans cfg S m x ∧ New cfg S m a new
  | .rollback x => x.old = m.chain.block m.lo
  | .newOffset x new =>
    new = m.chain.block m.lo ∧
      (Reclaim.gather [] x.old new).Ok cfg.toLayout m.chain S.heap m.lo S.tailBlock
  | .storeOffset x new off =>
    new = m.chain.block m.lo ∧ off = m.lo * cfg.blockSize ∧
      (Reclaim.gather [] x.old new).Ok cfg.toLayout m.chain S.heap m.lo S.tailBlock
  | .move r => r.Ok cfg.toLayout m.chain S.heap m.lo S.tailBlock
  | .done => True

/-- The head that `head_block` has. -/
def Stage : TryReclaim → Prop
  | .count .. | .check .. => Quiet cfg S m ∧ S.headBlock = m.chain.block a.new
  | .rollback .. => Quiet cfg S m
  | .newOffset .. | .storeOffset .. => S.headBlock = m.chain.block m.lo
  | .move _ => S.headBlock = m.chain.block m.lo ∧ S.headOffset = m.lo * cfg.blockSize
  | _ => Quiet cfg S m ∧ S.headBlock = m.chain.block m.lo

/-- The blocks that the reclaim has unlinked. -/
def limbo : Option (Nat × Nat × TryReclaim) → List Nat
  | some (_, _, .move r) => r.limbo
  | _ => []

/-- The blocks that a call of `get_hazard_ptr` may still be given. -/
def floor (lo new : Nat) : Option (Nat × Nat × TryReclaim) → Nat
  | some (_, _, .check ..) => new
  | _ => lo

/-- The reclaim. -/
def Runs : Option (Nat × Nat × TryReclaim) → Prop
  | none => Quiet cfg S m ∧ S.headBlock = m.chain.block m.lo
  | some (z, idx, r) => z ∈ l ∧ Stage cfg S m a r ∧ Site cfg l S m a z idx r ∧
      ∀ t y, S.Has t y → Duty cfg S m a idx y (S.task t).phase r

/-! ## The invariant -/

/-- The blocks. -/
structure Heaps (un : List Nat) : Prop where
  ok : m.chain.Ok cfg.toLayout S.heap
  mem : ∀ b < S.heap.fresh, b ∈ un ∨ Reclaim.Points m.chain b
  lo : m.chain.Has m.lo
  off : ∀ side, m.lo * cfg.blockSize ≤ S.off side
  committed : S.committed = m.chain.block m.lo

/-- The hazard pointers. -/
structure Nodes : Prop where
  fresh : ∀ z side b, (S.hazard z).block side = some b → b < S.heap.fresh
  dvd : ∀ z side, cfg.blockSize ∣ (S.hazard z).nextProtect side
  active : ∀ z, cfg.blockSize ∣ (S.hazard z).activeOffset ∨ cfg.inactive ≤ (S.hazard z).activeOffset

structure Inv : Prop where
  ring : S.Ring l
  heaps : Heaps cfg S m (limbo S.run)
  nodes : Nodes cfg S
  lock : ∀ t, (S.task t).locked = true ↔ S.blocksLock = some t
  /-- What a call of `get_hazard_ptr` loads. -/
  head : HeadAt cfg S m (floor m.lo a.new S.run) S.headBlock
  off : S.headOffset ≤ m.lo * cfg.blockSize ∧ cfg.blockSize ∣ S.headOffset
  seats : ∀ t z, S.Has t z → ∀ side, Seat cfg S m m.lo z side
  top : ∀ t z p top, S.task t = .uses z p top → top ≤ S.writeOffset
  holds : ∀ t z p, (S.task t).doing = some (z, p) → Holds cfg S m z p
  calling : ∀ t q, S.task t = .acquires q → Calling cfg S m (floor m.lo a.new S.run) q
  walks : ∀ t, Walks cfg m (S.task t)
  runs : Runs cfg l S m a S.run

end Sight

end CoroUtil.Channel
