import CoroUtil.Blocks.Model
import CoroUtil.General.System

/-!
# `qu_spsc_unbounded`

The unbounded single-producer single-consumer queue, one atomic load, store or
read-modify-write at a time.  `write_offset` and `write_block` belong to the
producer, `read_offset`, `head_block` and `tail_block` to the consumer, so an
access to one of them goes with the operation before it; so do the loads of
`offset` in `try_reclaim_blocks`, since only the consumer changes the offset of
a block.

* `Offsets` says what the offsets are; `.wrapping` is what the code has.
* A `consumer_base*` is named by the number of the `pull()` whose frame it
  lives in.
* The last fields of `State` are history: no branch reads them.  `broken`
  records a failed assertion, a value constructed over another, the resumption
  of a coroutine that is not suspended, and a null pointer that is followed.
-/

namespace CoroUtil.SpscUnbounded

open CoroUtil.General CoroUtil.Blocks

/-- The configuration and the word size; `PLATFORM_BITS` is 32 or 64. -/
structure Config extends Layout where
  consumerCanSuspend : Bool
  platform : 32 ≤ bits

/-- `element::flags`. -/
inductive Flags
  | null
  | data
  | closed
  | consumer (frame : Nat)
  deriving DecidableEq

instance : Zero Flags := ⟨.null⟩

/-- What `post` and `post_bulk` are called with. -/
inductive Put (V : Type)
  | post (v : V)
  | bulk (items : List V)

namespace Put

variable {V : Type}

def items : Put V → List V
  | post v => [v]
  | bulk items => items

def count (w : Put V) : Nat := w.items.length

end Put

/-- Who asks for the block of `write_offset`. -/
inductive Job (V : Type)
  | post (v : V)
  | close

/-- The program counter of the producer.  `k` counts the items that have been
written, `cons` is the waiting consumer that one of them has found. -/
inductive ProducerPc (V : Type)
  | idle
  | assertOpen (w : Put V)
  -- find_write_block
  | find (j : Job V) (idx : Nat) (f : Find)
  | storeWriteBlock (j : Job V) (idx b : Nat)
  -- get_write_ticket_bulk
  | bulkAssert (items : List V) (idx : Nat)
  | bulkFind (items : List V) (idx : Nat) (f : Find)
  | bulkFindEnd (items : List V) (idx b : Nat) (f : Find)
  | bulkStoreWriteBlock (items : List V) (idx b : Nat)
  -- write_element, the loop of post_bulk
  | emplace (w : Put V) (idx k b : Nat) (cons : Option Nat)
  | publish (w : Put V) (idx k b : Nat) (cons : Option Nat)
  | nextBlock (items : List V) (idx k b : Nat) (cons : Option Nat)
  | storeNextBlock (items : List V) (idx k b : Nat) (cons : Option Nat)
  | resumeConsumer (frame : Nat)
  -- close_get_waiting_consumer, close
  | closeCas
  | storeClosedAt
  | exchangeClosed (idx b : Nat)
  | elemNull (frame : Nat)
  | closeResume (frame : Nat)

/-- The two ways to ask for a value. -/
inductive Call
  | pull
  | tryPull
  deriving DecidableEq

/-- The program counter of the consumer.  `empty()` may be called while a scope
is alive; `scope` is its index and block. -/
inductive ConsumerPc
  | idle
  -- get_read_ticket
  | assertRead (k : Call)
  | find (k : Call) (idx : Nat) (f : Find)
  -- aw_pull_impl::await_ready, try_pull
  | poll (k : Call) (idx b : Nat)
  -- aw_pull_impl::await_suspend
  | tryWait (idx b : Nat)
  | storeClosed (idx b : Nat)
  | suspended (idx b : Nat) (elemNull : Bool)
  | resumed (idx b : Nat) (elemNull : Bool)
  -- a live scope
  | holding (idx b : Nat)
  | reclaim (r : Reclaim)
  -- empty
  | emptyFind (scope : Option (Nat × Nat)) (f : Find)
  | emptyPoll (scope : Option (Nat × Nat)) (b : Nat)

/-- What a `pull()` or `try_pull()` returned. -/
inductive Pull (V : Type)
  | ok (v : V)
  | empty
  | closed

structure State (V : Type) where
  heap : Heap Flags V
  writeOffset : Nat
  writeBlock : Nat
  closed : Bool
  writeClosedAt : Nat
  readOffset : Nat
  headBlock : Nat
  tailBlock : Nat
  producer : ProducerPc V
  consumer : ConsumerPc
  /-- The frame of the latest `pull()`. -/
  frame : Nat
  -- history
  /-- The values that `post()` and `post_bulk()` have been called with. -/
  posts : List V
  constructed : List V
  pulls : List (Pull V)
  /-- `await_suspend` found `DATA_BIT` where it put its own pointer, and the
  latest scope is over that element. -/
  grabbed : Bool
  empties : List Bool
  broken : Bool

def State.init {V : Type} : State V where
  heap := ⟨fun _ => .new 0, 1⟩
  writeOffset := 0
  writeBlock := 0
  closed := false
  writeClosedAt := 0
  readOffset := 0
  headBlock := 0
  tailBlock := 0
  producer := .idle
  consumer := .idle
  frame := 0
  posts := []
  constructed := []
  pulls := []
  grabbed := false
  empties := []
  broken := false

namespace State

variable {V : Type} (o : Offsets) (cfg : Config) (s : State V)

def setProducer (pc : ProducerPc V) : State V := { s with producer := pc }

def setConsumer (pc : ConsumerPc) : State V := { s with consumer := pc }

/-- `assert(b)`. -/
def check (b : Bool) : State V := { s with broken := s.broken || !b }

/-- `Block->offset`. -/
def offset (b : Nat) : Nat := (s.heap.block b).offset

/-- The element of block `b` that an index selects. -/
def elem (b idx : Nat) : Element Flags V := s.heap.elem b (cfg.slot idx)

def setElem (b idx : Nat) (e : Element Flags V) : State V :=
  { s with heap := s.heap.setElem b (cfg.slot idx) e }

def setFlags (b idx : Nat) (f : Flags) : State V :=
  s.setElem cfg b idx { s.elem cfg b idx with flags := f }

/-- `pull()` or `try_pull()` returns without a value. -/
def returnPull (r : Pull V) : State V := { s with consumer := .idle, pulls := s.pulls ++ [r] }

/-- The scope over the element at `idx` is handed to the consumer. -/
def handOut (idx b : Nat) (grabbed : Bool) : State V :=
  match (s.elem cfg b idx).data with
  | some v => { s with consumer := .holding idx b, pulls := s.pulls ++ [.ok v], grabbed }
  | none => ({ s with consumer := .holding idx b }).check false

/-- `ContinuationPolicy::resume` of the consumer that waits in `frame`. -/
def resumeConsumer (frame : Nat) : State V :=
  match s.consumer with
  | .suspended idx b n =>
    if frame = s.frame then s.setConsumer (.resumed idx b n) else s.check false
  | _ => s.check false

/-- `find_write_block` has found the block `b` of `idx`. -/
def afterFind (j : Job V) (idx b : Nat) : State V :=
  match j with
  | .post v => s.setProducer (.emplace (.post v) idx 0 b none)
  | .close => s.setProducer (.exchangeClosed idx b)

/-- `count` items have been written from `idx` on. -/
def finish (idx count : Nat) (cons : Option Nat) : State V :=
  { s with writeOffset := cfg.reg o (idx + count) }.setProducer
    (match cons with
    | some frame => .resumeConsumer frame
    | none => .idle)

/-- The loop of `post_bulk` with `k` items written. -/
def afterItem (items : List V) (idx k b : Nat) (cons : Option Nat) : State V :=
  if cfg.reg o (idx + k) = cfg.reg o (idx + items.length) then
    s.finish o cfg idx items.length cons
  else s.setProducer (.emplace (.bulk items) idx k b cons)

/-- `post` and the loop of `post_bulk` once item `k` is published. -/
def afterWrite (w : Put V) (idx k b : Nat) (cons : Option Nat) : State V :=
  match w with
  | .post _ => s.finish o cfg idx 1 cons
  | .bulk items =>
    if cfg.slot (cfg.reg o (idx + (k + 1))) = 0 then
      s.setProducer (.nextBlock items idx (k + 1) b cons)
    else s.afterItem o cfg items idx (k + 1) b cons

/-- `post`, `post_bulk` and `close`. -/
def producerStep : Option (State V) :=
  match s.producer with
  | .idle => none
  | .assertOpen w =>
    let s := s.check !s.closed
    match w with
    | .post v => some (s.setProducer (.find (.post v) s.writeOffset (.load s.writeBlock)))
    | .bulk items =>
      some (s.setProducer (if items.length = 0 then .idle else .bulkAssert items s.writeOffset))
  | .find j idx f =>
    let (heap, ok, f') := f.step o cfg.toLayout idx s.heap
    match f with
    | .load b =>
      -- the offset that is loaded is also the one that is asserted
      let s' := { s with heap }.check
        (cfg.less o (s.offset b) (cfg.reg o (1 + idx)) && ok)
      match f' with
      | .found b => some (s'.afterFind j idx b)
      | f' => some (s'.setProducer (.find j idx f'))
    | _ =>
      let s' := { s with heap }.check ok
      match f' with
      | .found b => some (s'.setProducer (.storeWriteBlock j idx b))
      | f' => some (s'.setProducer (.find j idx f'))
  | .storeWriteBlock j idx b => some ({ s with writeBlock := b }.afterFind j idx b)
  | .bulkAssert items idx =>
    some ((s.check (cfg.less o (s.offset s.writeBlock) (cfg.reg o (1 + idx)))).setProducer
      (.bulkFind items idx (.load s.writeBlock)))
  | .bulkFind items idx f =>
    let (heap, ok, f) := f.step o cfg.toLayout idx s.heap
    let s := { s with heap }.check ok
    match f with
    | .found b => some (s.setProducer (.bulkFindEnd items idx b (.load b)))
    | f => some (s.setProducer (.bulkFind items idx f))
  | .bulkFindEnd items idx b f =>
    let (heap, ok, f) := f.step o cfg.toLayout (cfg.reg o (idx + items.length - 1)) s.heap
    let s := { s with heap }.check ok
    match f with
    | .found _ => some (s.setProducer (.bulkStoreWriteBlock items idx b))
    | f => some (s.setProducer (.bulkFindEnd items idx b f))
  | .bulkStoreWriteBlock items idx b =>
    some ({ s with writeBlock := b }.setProducer (.emplace (.bulk items) idx 0 b none))
  | .emplace w idx k b cons =>
    let i := cfg.reg o (idx + k)
    match w.items[k]? with
    | some v =>
      some ({ (s.setElem cfg b i { s.elem cfg b i with data := some v }).check
        (s.elem cfg b i).data.isNone with constructed := s.constructed ++ [v] }.setProducer
        (.publish w idx k b cons))
    | none => some ((s.check false).setProducer .idle)
  | .publish w idx k b cons =>
    let i := cfg.reg o (idx + k)
    let s' := s.setFlags cfg b i .data
    if cfg.consumerCanSuspend then
      match (s.elem cfg b i).flags with
      | .null => some (s'.afterWrite o cfg w idx k b cons)
      | .consumer frame => some ((s'.check cons.isNone).afterWrite o cfg w idx k b (some frame))
      | _ => some ((s'.check false).afterWrite o cfg w idx k b cons)
    else some (s'.afterWrite o cfg w idx k b cons)
  | .nextBlock items idx k b cons =>
    let less := cfg.less o (cfg.reg o (idx + k)) (cfg.reg o (idx + items.length))
    match (s.heap.block b).next with
    | some n =>
      if less then some (s.setProducer (.storeNextBlock items idx k n cons))
      else some (s.afterItem o cfg items idx k n cons)
    | none =>
      let s := s.check !less
      if cfg.reg o (idx + k) = cfg.reg o (idx + items.length) then
        some (s.finish o cfg idx items.length cons)
      else some ((s.check false).setProducer .idle)
  | .storeNextBlock items idx k b cons =>
    some ({ s with writeBlock := b }.afterItem o cfg items idx k b cons)
  | .resumeConsumer frame => some ((s.resumeConsumer frame).setProducer .idle)
  | .closeCas =>
    if s.closed then some (s.setProducer .idle)
    else some ({ s with closed := true }.setProducer .storeClosedAt)
  | .storeClosedAt =>
    some ({ s with writeClosedAt := s.writeOffset }.setProducer
      (.find .close s.writeOffset (.load s.writeBlock)))
  | .exchangeClosed idx b =>
    let s' := s.setFlags cfg b idx .closed
    match (s.elem cfg b idx).flags with
    | .consumer frame => some (s'.setProducer (.elemNull frame))
    | _ => some (s'.setProducer .idle)
  | .elemNull frame =>
    let s := s.setProducer (.closeResume frame)
    match s.consumer with
    | .suspended i b _ =>
      if frame = s.frame then some (s.setConsumer (.suspended i b true)) else some (s.check false)
    | _ => some (s.check false)
  | .closeResume frame => some ((s.resumeConsumer frame).setProducer .idle)

/-- The scope that was alive before `empty()`. -/
def afterEmpty (scope : Option (Nat × Nat)) : State V :=
  match scope with
  | some (idx, b) => s.setConsumer (.holding idx b)
  | none => s.setConsumer .idle

/-- `aw_pull_impl::await_ready`, `await_suspend` and `await_resume`, `try_pull`,
`reclaim_blocks` and `empty`. -/
def consumerStep : Option (State V) :=
  match s.consumer with
  | .idle => none
  | .assertRead k =>
    some ((s.check (cfg.less o (s.offset s.headBlock) (cfg.reg o (1 + s.readOffset)))).setConsumer
      (.find k s.readOffset (.load s.headBlock)))
  | .find k idx f =>
    let (heap, ok, f) := f.step o cfg.toLayout idx s.heap
    let s := { s with heap }.check ok
    match f with
    | .found b => some (s.setConsumer (.poll k idx b))
    | f => some (s.setConsumer (.find k idx f))
  | .poll k idx b =>
    match k, (s.elem cfg b idx).flags with
    | _, .data => some (s.handOut cfg idx b false)
    | .pull, _ => some (s.setConsumer (.tryWait idx b))
    | .tryPull, .closed => some (s.returnPull .closed)
    | .tryPull, _ => some (s.returnPull .empty)
  | .tryWait idx b =>
    let s' := s.setFlags cfg b idx (.consumer s.frame)
    match (s.elem cfg b idx).flags with
    | .null => some (s'.setConsumer (.suspended idx b false))
    | .closed => some (s'.setConsumer (.storeClosed idx b))
    | _ => some (s'.handOut cfg idx b true)
  | .storeClosed idx b => some ((s.setFlags cfg b idx .closed).returnPull .closed)
  | .suspended _ _ _ => none
  | .resumed idx b elemNull =>
    if elemNull then some (s.returnPull .closed) else some (s.handOut cfg idx b false)
  | .holding _ _ => none
  | .reclaim r =>
    let (heap, tailBlock, ok, r) := r.step o cfg.toLayout s.heap s.tailBlock
    let s := { s with heap, tailBlock }.check ok
    match r with
    | .done => some (s.setConsumer .idle)
    | r => some (s.setConsumer (.reclaim r))
  | .emptyFind scope f =>
    let (heap, ok, f) := f.step o cfg.toLayout s.readOffset s.heap
    let s := { s with heap }.check ok
    match f with
    | .found b => some (s.setConsumer (.emptyPoll scope b))
    | f => some (s.setConsumer (.emptyFind scope f))
  | .emptyPoll scope b =>
    let f := (s.elem cfg b s.readOffset).flags
    some ({ s with
      empties := s.empties ++ [decide (f ≠ Flags.data ∧ f ≠ Flags.closed)] }.afterEmpty scope)

/-- `try_reclaim_blocks`. -/
def tryReclaimBlocks (b : Nat) : State V :=
  { s.check (decide (s.headBlock = b) || cfg.less o (s.offset s.headBlock) (s.offset b)) with
    headBlock := b }.setConsumer (.reclaim (.gather [] s.headBlock b))

/-- The consumer's scope is destroyed: `finish_read`. -/
def release : Option (State V) :=
  match s.consumer with
  | .holding idx b =>
    let s := { (s.setElem cfg b idx { s.elem cfg b idx with data := none }).check
      (s.elem cfg b idx).data.isSome with readOffset := cfg.reg o (idx + 1) }
    some (if cfg.slot idx = 0 then s.tryReclaimBlocks o cfg b else s.setConsumer .idle)
  | _ => none

/-- The consumer calls `pull()` or `try_pull()`. -/
def callPull (k : Call) : Option (State V) :=
  match s.consumer with
  | .idle =>
    match k with
    | .pull =>
      if cfg.consumerCanSuspend then
        some ({ s with frame := s.frame + 1 }.setConsumer (.assertRead k))
      else none
    | .tryPull => some (s.setConsumer (.assertRead k))
  | _ => none

/-- The consumer calls `empty()`. -/
def callEmpty : Option (State V) :=
  match s.consumer with
  | .idle => some (s.setConsumer (.emptyFind none (.load s.headBlock)))
  | .holding idx b => some (s.setConsumer (.emptyFind (some (idx, b)) (.load s.headBlock)))
  | _ => none

/-- The producer starts a call with the given items.  It posts nothing once it
has called `close()`. -/
def call (pc : ProducerPc V) (items : List V) (b : Bool) : Option (State V) :=
  match s.producer with
  | .idle => if b then some ({ s with posts := s.posts ++ items }.setProducer pc) else none
  | _ => none

/-- The blocks fit in the address space: an element is not smaller than its
`flags`, which take 4 bytes or more. -/
def fits : Bool := decide (4 * (s.heap.fresh * cfg.blockSize) ≤ 2 ^ cfg.bits)

end State

/-- The moves of the producer and of the consumer. -/
inductive Act (V : Type)
  | post (v : V)
  | bulk (items : List V)
  /-- `close()` or `close_resume_inline()`. -/
  | close
  /-- The producer takes its next step. -/
  | producer
  | pull (k : Call)
  | empty
  /-- The consumer takes its next step. -/
  | consumer
  /-- The consumer destroys its scope. -/
  | release

/-- A move of the queue and its users.  The distance of two iterators is a
`ptrdiff_t`. -/
def move {V : Type} (o : Offsets) (cfg : Config) (s : State V) : Act V → Option (State V)
  | .post v => s.call (.assertOpen (.post v)) [v] !s.closed
  | .bulk items =>
    s.call (.assertOpen (.bulk items)) items
      (!s.closed && decide (items.length < 2 ^ (cfg.bits - 1)))
  | .close => s.call .closeCas [] true
  | .producer => s.producerStep o cfg
  | .pull k => s.callPull cfg k
  | .empty => s.callEmpty
  | .consumer => s.consumerStep o cfg
  | .release => s.release o cfg

/-- One step: a `new` that does not fit in the address space does not return. -/
def step {V : Type} (o : Offsets) (cfg : Config) (s : State V) (a : Act V) : Option (State V) :=
  (move o cfg s a).filter fun s' => s'.fits cfg

/-- The queue as a transition system. -/
def system (V : Type) (o : Offsets) (cfg : Config) : System (State V) (Act V) :=
  .ofStep .init (step o cfg)

end CoroUtil.SpscUnbounded
