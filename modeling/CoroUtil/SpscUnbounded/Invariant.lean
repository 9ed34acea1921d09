import CoroUtil.Blocks.Reclaim
import CoroUtil.SpscUnbounded.Model

/-!
# The invariant of `qu_spsc_unbounded`

`Map` says which block is where, which index the producer publishes next and
whether that index carries the CLOSED sentinel.  `Mem` ties the blocks and the
elements to it, `Knows` and `ConsumerKnows` the two program counters.  The block
of every published index is at `write` or before it, and `head` is the block of
an index that has been released: this is why a block that the consumer recycles
is behind the producer.

The offsets here are natural numbers.
-/

namespace CoroUtil.SpscUnbounded

open CoroUtil.Blocks

variable {V : Type}

structure Map where
  chain : Chain
  head : Nat
  write : Nat
  next : Nat
  sealed : Bool

/-- The values that have been handed out. -/
def handed : List (Pull V) → List V
  | [] => []
  | .ok v :: l => v :: handed l
  | .empty :: l | .closed :: l => handed l

namespace Put

/-- The items that are left after `k` of them. -/
def rest (w : Put V) (k : Nat) : List V := w.items.drop k

end Put

namespace ProducerPc

/-- The items of the call that have not been constructed. -/
def rest : ProducerPc V → List V
  | assertOpen w => w.items
  | find (.post v) _ _ | storeWriteBlock (.post v) _ _ => [v]
  | bulkAssert items _ | bulkFind items _ _ | bulkFindEnd items _ _ _
  | bulkStoreWriteBlock items _ _ => items
  | emplace w _ k _ _ => w.rest k
  | publish w _ k _ _ => w.rest (k + 1)
  | nextBlock items _ k _ _ | storeNextBlock items _ k _ _ => items.drop k
  | idle | find .close _ _ | storeWriteBlock .close _ _ | resumeConsumer _ | closeCas
  | storeClosedAt | exchangeClosed .. | elemNull _ | closeResume _ => []

/-- How many elements are constructed and not published. -/
def built : ProducerPc V → Nat
  | publish .. => 1
  | _ => 0

/-- The frame of the consumer that is to be resumed. -/
def wakes : ProducerPc V → Option Nat
  | emplace _ _ _ _ cons | publish _ _ _ _ cons | nextBlock _ _ _ _ cons
  | storeNextBlock _ _ _ _ cons => cons
  | resumeConsumer frame | elemNull frame | closeResume frame => some frame
  | idle | assertOpen _ | find .. | storeWriteBlock .. | bulkAssert .. | bulkFind ..
  | bulkFindEnd .. | bulkStoreWriteBlock .. | closeCas | storeClosedAt | exchangeClosed .. => none

/-- `cons->elem` has been set to null. -/
def nulls : ProducerPc V → Bool
  | closeResume _ => true
  | _ => false

end ProducerPc

/-- The consumer has been handed the value at `read_offset`. -/
def ConsumerPc.scope : ConsumerPc → Option (Nat × Nat)
  | holding idx b => some (idx, b)
  | emptyFind scope _ | emptyPoll scope _ => scope
  | idle | assertRead _ | find .. | poll .. | tryWait .. | storeClosed .. | suspended ..
  | resumed .. | reclaim _ => none

namespace Map

variable (cfg : Config) (m : Map) (s : State V)

def cell (n : Nat) : Element Flags V := m.chain.cell cfg.toLayout s.heap n

/-- The flags of the element at index `n`. -/
def mark (n : Nat) : Flags :=
  if n < m.next then .data else if m.sealed = true ∧ n = m.next then .closed else .null

/-- The flags at `read_offset` once the consumer of `frame` has been suspended on
them. -/
def waiting (frame n : Nat) : Flags :=
  if n < m.next then .data else if m.sealed = true then .closed else .consumer frame

/-- The block of index `n` is `b`. -/
def BlockOf (n b : Nat) : Prop :=
  n / cfg.blockSize ≤ m.chain.last ∧ m.chain.block (n / cfg.blockSize) = b

end Map

/-- The blocks and the elements. -/
structure Mem (cfg : Config) (s : State V) (m : Map) : Prop where
  ok : m.chain.Ok cfg.toLayout s.heap
  first : m.chain.first ≤ m.head
  write_le : m.write ≤ m.chain.last
  head : m.chain.block m.head = s.headBlock
  write : m.chain.block m.write = s.writeBlock
  head_lt : m.head = 0 ∨ m.head * cfg.blockSize < s.readOffset
  read_near : s.readOffset ≤ (m.head + 1) * cfg.blockSize
  read_le : s.readOffset ≤ m.next
  write_mul : m.write * cfg.blockSize ≤ m.next
  write_near : m.next ≤ (m.write + 1) * cfg.blockSize
  data : ∀ n, s.readOffset ≤ n → (m.cell cfg s n).data = s.constructed[n]?
  flags : ∀ n, s.readOffset < n → (m.cell cfg s n).flags = m.mark n
  drained : ∀ n, m.head ≤ n / cfg.blockSize → n < s.readOffset → (m.cell cfg s n).data = none

/-- The producer posts from `idx` on and has published `k` items. -/
def Posts (s : State V) (m : Map) (idx k : Nat) : Prop :=
  idx = s.writeOffset ∧ m.next = idx + k ∧ s.closed = false ∧ m.sealed = false

/-- The producer looks for the block of `idx`. -/
def Job.Knows (s : State V) (m : Map) (idx : Nat) : Job V → Prop
  | post _ => Posts s m idx 0
  | close => idx = s.writeOffset ∧ m.next = idx ∧ s.closed = true ∧ m.sealed = false

/-- The blocks of `count` items from `idx` on have been allocated. -/
def Ready (cfg : Config) (m : Map) (idx count : Nat) : Prop :=
  (idx + count - 1) / cfg.blockSize ≤ m.chain.last

/-- The number of items of a call of `post_bulk` that has some. -/
def Sized (cfg : Config) (items : List V) : Prop :=
  0 < items.length ∧ items.length < 2 ^ (cfg.bits - 1)

/-- Where the producer is. -/
def Knows (cfg : Config) (s : State V) (m : Map) : ProducerPc V → Prop
  | .idle | .closeCas => m.next = s.writeOffset ∧ m.sealed = s.closed
  | .assertOpen w => Posts s m s.writeOffset 0 ∧ w.count < 2 ^ (cfg.bits - 1)
  | .find j idx f =>
    j.Knows s m idx ∧ f.Ok cfg.toLayout m.chain m.write idx ∧ ∀ b, f = .load b → b = s.writeBlock
  | .storeWriteBlock j idx b => j.Knows s m idx ∧ m.BlockOf cfg idx b
  | .bulkAssert items idx => Posts s m idx 0 ∧ Sized cfg items
  | .bulkFind items idx f =>
    Posts s m idx 0 ∧ Sized cfg items ∧ f.Ok cfg.toLayout m.chain m.write idx
  | .bulkFindEnd items idx b f =>
    Posts s m idx 0 ∧ Sized cfg items ∧ m.BlockOf cfg idx b ∧
      f.Ok cfg.toLayout m.chain m.write (idx + items.length - 1)
  | .bulkStoreWriteBlock items idx b =>
    Posts s m idx 0 ∧ 0 < items.length ∧ m.BlockOf cfg idx b ∧ Ready cfg m idx items.length
  | .emplace w idx k b _ | .publish w idx k b _ =>
    Posts s m idx k ∧ k < w.count ∧ m.BlockOf cfg (idx + k) b ∧ Ready cfg m idx w.count ∧
      m.write = (idx + k) / cfg.blockSize
  | .nextBlock items idx k b _ =>
    Posts s m idx k ∧ 0 < k ∧ k ≤ items.length ∧ cfg.slot (idx + k) = 0 ∧
      m.BlockOf cfg (idx + k - 1) b ∧ Ready cfg m idx items.length ∧
      m.write = (idx + k - 1) / cfg.blockSize
  | .storeNextBlock items idx k b _ =>
    Posts s m idx k ∧ k < items.length ∧ m.BlockOf cfg (idx + k) b ∧ Ready cfg m idx items.length
  | .resumeConsumer _ => m.next = s.writeOffset ∧ m.sealed = s.closed ∧ s.closed = false
  | .storeClosedAt => m.next = s.writeOffset ∧ s.closed = true ∧ m.sealed = false
  | .exchangeClosed idx b => Job.close.Knows s m idx ∧ m.BlockOf cfg idx b
  | .elemNull _ | .closeResume _ =>
    m.next = s.writeOffset ∧ m.sealed = s.closed ∧ s.closed = true ∧ s.readOffset = m.next

/-- No blocks are being moved. -/
structure Calm (s : State V) (m : Map) : Prop where
  first : m.chain.first = m.head
  tail : Reclaim.Points m.chain s.tailBlock

/-- The flags at `read_offset` are those of its mark. -/
def Clear (cfg : Config) (s : State V) (m : Map) : Prop :=
  (m.cell cfg s s.readOffset).flags = m.mark s.readOffset

/-- The consumer looks at block `b` for the value at `read_offset`. -/
def Looks (cfg : Config) (s : State V) (m : Map) (idx b : Nat) : Prop :=
  idx = s.readOffset ∧ m.BlockOf cfg idx b

/-- The consumer has a scope over the value at `read_offset`. -/
structure Scope (cfg : Config) (s : State V) (m : Map) (idx b : Nat) : Prop where
  looks : Looks cfg s m idx b
  lt : s.readOffset < m.next
  flags : (m.cell cfg s s.readOffset).flags = if s.grabbed then .consumer s.frame else .data

/-- What the scope that is alive during `empty()` says. -/
def InScope (cfg : Config) (s : State V) (m : Map) : Option (Nat × Nat) → Prop
  | some (idx, b) => Scope cfg s m idx b
  | none => Clear cfg s m

/-- `pull()` is there to be called. -/
def Call.Able (cfg : Config) (k : Call) : Prop := k = .pull → cfg.consumerCanSuspend = true

/-- Where the consumer is. -/
def ConsumerKnows (cfg : Config) (s : State V) (m : Map) : ConsumerPc → Prop
  | .idle => Calm s m ∧ Clear cfg s m
  | .assertRead k => Calm s m ∧ Clear cfg s m ∧ k.Able cfg
  | .find k idx f =>
    Calm s m ∧ Clear cfg s m ∧ idx = s.readOffset ∧ f.Ok cfg.toLayout m.chain m.head idx ∧
      k.Able cfg
  | .poll k idx b => Calm s m ∧ Clear cfg s m ∧ Looks cfg s m idx b ∧ k.Able cfg
  | .tryWait idx b =>
    Calm s m ∧ Clear cfg s m ∧ Looks cfg s m idx b ∧ cfg.consumerCanSuspend = true
  | .storeClosed idx b =>
    Calm s m ∧ Looks cfg s m idx b ∧ m.sealed = true ∧ s.readOffset = m.next
  | .suspended idx b _ =>
    Calm s m ∧ Looks cfg s m idx b ∧
      (m.cell cfg s s.readOffset).flags = m.waiting s.frame s.readOffset ∧
      cfg.consumerCanSuspend = true
  | .resumed idx b elemNull =>
    Calm s m ∧ Clear cfg s m ∧ Looks cfg s m idx b ∧
      if elemNull then m.sealed = true ∧ s.readOffset = m.next else s.readOffset < m.next
  | .holding idx b => Calm s m ∧ Scope cfg s m idx b
  | .reclaim r => Clear cfg s m ∧ r.Ok cfg.toLayout m.chain s.heap m.head s.tailBlock
  | .emptyFind scope f =>
    Calm s m ∧ f.Ok cfg.toLayout m.chain m.head s.readOffset ∧ InScope cfg s m scope
  | .emptyPoll scope b =>
    Calm s m ∧ Looks cfg s m s.readOffset b ∧ InScope cfg s m scope

/-- What the history says. -/
structure Recorded (s : State V) (m : Map) : Prop where
  length : s.constructed.length = m.next + s.producer.built
  posts : s.constructed ++ s.producer.rest = s.posts
  values : handed s.pulls =
    s.constructed.take (s.readOffset + if s.consumer.scope.isSome then 1 else 0)
  closed : Pull.closed ∈ s.pulls → m.sealed = true ∧ s.readOffset = m.next
  last : ∀ l l', s.pulls = l ++ Pull.closed :: l' → ∀ x ∈ l', x = .closed

/-- The producer has the frame of the suspended consumer once its element is
published. -/
structure Awake (s : State V) (m : Map) : Prop where
  wakes : ∀ frame, s.producer.wakes = some frame →
    frame = s.frame ∧ ∃ idx b, s.consumer = .suspended idx b s.producer.nulls ∧
      (idx < m.next ∨ m.sealed = true)
  waits : ∀ idx b e, s.consumer = .suspended idx b e → idx < m.next ∨ m.sealed = true →
    s.producer.wakes = some s.frame
  nulls : ∀ idx b e, s.consumer = .suspended idx b e → e = s.producer.nulls

structure Inv (cfg : Config) (s : State V) (m : Map) : Prop where
  mem : Mem cfg s m
  producer : Knows cfg s m s.producer
  consumer : ConsumerKnows cfg s m s.consumer
  awake : Awake s m
  recorded : Recorded s m
  sound : s.broken = false

end CoroUtil.SpscUnbounded
