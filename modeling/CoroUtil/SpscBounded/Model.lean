import Mathlib.Logic.Function.Basic
import CoroUtil.General.System
import CoroUtil.Word

/-!
# `qu_spsc_bounded`

The bounded single-producer single-consumer queue, one atomic load, store or
read-modify-write at a time.  A value of `element::flags` is null, a union of
`DATA_BIT` and `CLOSED_BIT`, or the address of the awaitable of a suspended
coroutine, which is the consumer's or the producer's: the code compares the
address with 4 and lets the context tell which of the two it is.

Offsets are kept unwrapped and select a slot through `word`.  `pushed`, `pulls`
and `broken` are history.
-/

namespace CoroUtil.SpscBounded

open CoroUtil.General

/-- The constructor's arguments and its assertions. -/
structure Config where
  bits : Nat
  capacity : Nat
  consumerCanSuspend : Bool
  capacity_pos : 0 < capacity
  capacity_lt : capacity < 2 ^ (bits - 1)

/-- `Idx % capacity`, on the register contents of `Idx`. -/
def Config.slotOf (cfg : Config) (idx : Nat) : Nat := word cfg.bits idx % cfg.capacity

/-- `element::flags`. -/
inductive Flags
  | null
  | data
  | closed
  | dataClosed
  /-- A `consumer_base*`. -/
  | consumer
  /-- A `producer_base*`. -/
  | producer
  deriving DecidableEq

namespace Flags

/-- `f >= 4`. -/
def isPointer : Flags → Bool
  | consumer | producer => true
  | null | data | closed | dataClosed => false

/-- `(f & DATA_BIT) != 0`. -/
def dataBit : Flags → Bool
  | data | dataClosed => true
  | null | closed | consumer | producer => false

/-- `(f & CLOSED_BIT) != 0`. -/
def closedBit : Flags → Bool
  | closed | dataClosed => true
  | null | data | consumer | producer => false

/-- `(f & DATA_BIT) != 0 || f >= 4`. -/
def dataWaiting (f : Flags) : Bool := f.dataBit || f.isPointer

end Flags

/-- `element`. -/
structure Element (V : Type) where
  flags : Flags
  data : Option V

/-- The program counter of the producer. -/
inductive ProducerPc (V : Type)
  | idle
  -- aw_push_impl
  | pushPoll (v : V)
  | pushPark (v : V) (idx : Nat)
  | pushSuspended (v : V) (idx : Nat)
  -- try_push
  | tryPoll (v : V)
  -- write_element
  | emplace (v : V) (idx : Nat)
  | publish (v : V) (idx : Nat)
  -- aw_push_bulk_impl
  | bulkPoll (vs : List V)
  | bulkPark (vs : List V) (startIdx : Nat)
  | bulkSuspended (vs : List V) (startIdx : Nat)
  | bulkFirst (vs : List V) (startIdx : Nat)
  | bulkEmplace (vs : List V) (startIdx i : Nat)
  | bulkStore (vs : List V) (startIdx i : Nat)
  | bulkPublish (vs : List V) (startIdx : Nat)
  | resumeConsumer
  -- close_get_waiting_consumer
  | closeCas
  | closeStoreAt
  | closeLoad
  | closeCasFlags (cur : Flags)
  | closeElemNull
  | closeResume

/-- The two ways to ask for a value. -/
inductive Call
  | pull
  | tryPull
  deriving DecidableEq

/-- The program counter of the consumer. -/
inductive ConsumerPc
  | idle
  -- aw_pull_impl, try_pull
  | poll (k : Call)
  | tryWait (idx : Nat)
  | suspended (idx : Nat) (elemNull : Bool)
  | resumed (idx : Nat) (elemNull : Bool)
  -- a live scope, finish_read
  | holding (idx : Nat)
  | freeSlot (idx : Nat)
  | resumeProducer
  | storeClosed (idx : Nat)

/-- What a `pull()` or `try_pull()` returned. -/
inductive Pull (V : Type)
  | ok (v : V)
  | empty
  | closed

structure State (V : Type) where
  writeOffset : Nat
  readOffset : Nat
  elements : Nat → Element V
  closed : Bool
  writeClosedAt : Nat
  producer : ProducerPc V
  consumer : ConsumerPc
  -- history
  pushed : List V
  pulls : List (Pull V)
  broken : Bool

def State.init {V : Type} : State V where
  writeOffset := 0
  readOffset := 0
  elements := fun _ => ⟨.null, none⟩
  closed := false
  writeClosedAt := 0
  producer := .idle
  consumer := .idle
  pushed := []
  pulls := []
  broken := false

namespace State

variable {V : Type} (cfg : Config) (s : State V)

def setProducer (pc : ProducerPc V) : State V := { s with producer := pc }

def setConsumer (pc : ConsumerPc) : State V := { s with consumer := pc }

/-- The element an index selects. -/
def elem (idx : Nat) : Element V := s.elements (cfg.slotOf idx)

def setFlags (idx : Nat) (f : Flags) : State V :=
  { s with elements := Function.update s.elements (cfg.slotOf idx) ⟨f, (s.elem cfg idx).data⟩ }

def setData (idx : Nat) (d : Option V) : State V :=
  { s with elements := Function.update s.elements (cfg.slotOf idx) ⟨(s.elem cfg idx).flags, d⟩ }

/-- `assert(b)`. -/
def check (b : Bool) : State V := { s with broken := s.broken || !b }

/-- `data.emplace`, of a slot that has to be empty. -/
def construct (idx : Nat) (v : Option V) : State V :=
  (s.check (s.elem cfg idx).data.isNone).setData cfg idx v

/-- `pull()` or `try_pull()` returns without a value. -/
def returnPull (r : Pull V) : State V := { s with consumer := .idle, pulls := s.pulls ++ [r] }

/-- The scope over the element at `idx` is handed to the consumer. -/
def handOut (idx : Nat) : State V :=
  match (s.elem cfg idx).data with
  | some v => { s with consumer := .holding idx, pulls := s.pulls ++ [.ok v] }
  | none => ({ s with consumer := .holding idx }).check false

/-- `ContinuationPolicy::resume` of the waiting consumer. -/
def resumeConsumer : State V :=
  match s.consumer with
  | .suspended idx n => s.setConsumer (.resumed idx n)
  | _ => s.check false

/-- `ContinuationPolicy::resume` of the waiting producer. -/
def resumeProducer : State V :=
  match s.producer with
  | .pushSuspended v idx => s.setProducer (.emplace v idx)
  | .bulkSuspended vs idx => s.setProducer (.bulkFirst vs idx)
  | _ => s.check false

/-- `set_data_ready_or_get_waiting_consumer` or `set_data_ready` on the slot at
`idx`, and the store of `write_offset` that follows: `vs` has been pushed. -/
def publish (idx : Nat) (vs : List V) : State V :=
  let s' := { s.setFlags cfg idx .data with
    writeOffset := idx + vs.length
    pushed := s.pushed ++ vs }
  if cfg.consumerCanSuspend then
    match (s.elem cfg idx).flags with
    | .null => s'.setProducer .idle
    | .consumer => s'.setProducer .resumeConsumer
    | _ => (s'.check false).setProducer .idle
  else s'.setProducer .idle

/-- A failed compare-exchange of `await_suspend` left `f` in `expected`. -/
def notParked (f : Flags) : State V :=
  s.check (decide (f = .null) || cfg.consumerCanSuspend && f.isPointer)

/-- What `push_bulk` does once `i` items are in the queue. -/
def nextItem (vs : List V) (startIdx i : Nat) : State V :=
  s.setProducer (if i < vs.length then .bulkEmplace vs startIdx i else .bulkPublish vs startIdx)

/-- `aw_push_impl`, `try_push`, `aw_push_bulk_impl` and `close_get_waiting_consumer`. -/
def producerStep (spurious : Bool) : Option (State V) :=
  match s.producer with
  | .idle => none
  | .pushPoll v =>
    some (s.setProducer (if (s.elem cfg s.writeOffset).flags ≠ .data then .emplace v s.writeOffset
      else .pushPark v s.writeOffset))
  | .pushPark v idx =>
    if (s.elem cfg idx).flags = .data then
      some ((s.setFlags cfg idx .producer).setProducer (.pushSuspended v idx))
    else some ((s.notParked cfg (s.elem cfg idx).flags).setProducer (.emplace v idx))
  | .pushSuspended _ _ => none
  | .tryPoll v =>
    some (s.setProducer (if (s.elem cfg s.writeOffset).flags = .data then .idle
      else .emplace v s.writeOffset))
  | .emplace v idx => some ((s.construct cfg idx (some v)).setProducer (.publish v idx))
  | .publish v idx => some (s.publish cfg idx [v])
  | .bulkPoll vs =>
    if vs.length = 0 then some (s.setProducer .idle)
    else
      some (s.setProducer
        (if (s.elem cfg (s.writeOffset + vs.length - 1)).flags ≠ .data then
          .bulkFirst vs s.writeOffset
        else .bulkPark vs s.writeOffset))
  | .bulkPark vs idx =>
    if (s.elem cfg (idx + vs.length - 1)).flags = .data then
      some ((s.setFlags cfg (idx + vs.length - 1) .producer).setProducer (.bulkSuspended vs idx))
    else
      some ((s.notParked cfg (s.elem cfg (idx + vs.length - 1)).flags).setProducer
        (.bulkFirst vs idx))
  | .bulkSuspended _ _ => none
  | .bulkFirst vs idx => some ((s.construct cfg idx vs[0]?).nextItem vs idx 1)
  | .bulkEmplace vs idx i =>
    some ((s.construct cfg (idx + i) vs[i]?).setProducer (.bulkStore vs idx i))
  | .bulkStore vs idx i => some ((s.setFlags cfg (idx + i) .data).nextItem vs idx (i + 1))
  | .bulkPublish vs idx => some (s.publish cfg idx vs)
  | .resumeConsumer => some (s.resumeConsumer.setProducer .idle)
  | .closeCas =>
    if s.closed then some (s.setProducer .idle)
    else some ({ s with closed := true }.setProducer .closeStoreAt)
  | .closeStoreAt => some ({ s with writeClosedAt := s.writeOffset }.setProducer .closeLoad)
  | .closeLoad => some (s.setProducer (.closeCasFlags (s.elem cfg s.writeOffset).flags))
  | .closeCasFlags cur =>
    if spurious = false ∧ (s.elem cfg s.writeOffset).flags = cur then
      some ((s.setFlags cfg s.writeOffset (if cur = .data then .dataClosed else .closed)).setProducer
        (if cur.isPointer then .closeElemNull else .idle))
    else some (s.setProducer (.closeCasFlags (s.elem cfg s.writeOffset).flags))
  | .closeElemNull =>
    match s.consumer with
    | .suspended idx _ => some ((s.setConsumer (.suspended idx true)).setProducer .closeResume)
    | _ => some ((s.check false).setProducer .closeResume)
  | .closeResume => some (s.resumeConsumer.setProducer .idle)

/-- `aw_pull_impl`, `try_pull` and `finish_read`. -/
def consumerStep : Option (State V) :=
  match s.consumer with
  | .idle => none
  | .poll k =>
    if (s.elem cfg s.readOffset).flags.dataWaiting then some (s.handOut cfg s.readOffset)
    else
      match k with
      | .pull => some (s.setConsumer (.tryWait s.readOffset))
      | .tryPull =>
        some (s.returnPull (if (s.elem cfg s.readOffset).flags = .closed then .closed else .empty))
  | .tryWait idx =>
    if (s.elem cfg idx).flags = .null then
      some ((s.setFlags cfg idx .consumer).setConsumer (.suspended idx false))
    else if (s.elem cfg idx).flags = .closed then some (s.returnPull .closed)
    else some (s.handOut cfg idx)
  | .suspended _ _ => none
  | .resumed idx elemNull =>
    if elemNull then some (s.returnPull .closed) else some (s.handOut cfg idx)
  | .holding _ => none
  | .freeSlot idx =>
    some ({ s.setFlags cfg idx .null with readOffset := idx + 1 }.setConsumer
      (if (s.elem cfg idx).flags.isPointer then .resumeProducer
      else if (s.elem cfg idx).flags.closedBit then .storeClosed idx else .idle))
  | .resumeProducer => some (s.resumeProducer.setConsumer .idle)
  | .storeClosed idx => some ((s.setFlags cfg idx .closed).setConsumer .idle)

/-- The consumer's scope is destroyed: the start of `finish_read`. -/
def release : Option (State V) :=
  match s.consumer with
  | .holding idx =>
    some (((s.check (s.elem cfg idx).data.isSome).setData cfg idx none).setConsumer (.freeSlot idx))
  | _ => none

end State

/-- The moves of the producer and of the consumer. -/
inductive Act (V : Type)
  | push (v : V)
  | tryPush (v : V)
  | pushBulk (vs : List V)
  /-- `close()` or `close_resume_inline()`. -/
  | close
  /-- The producer takes its next step. -/
  | producer (spurious : Bool)
  | pull (k : Call)
  /-- The consumer takes its next step. -/
  | consumer
  /-- The consumer destroys its scope. -/
  | release

/-- The producer starts a call.  It pushes nothing once it has closed the queue. -/
def State.call {V : Type} (s : State V) (pc : ProducerPc V) (b : Bool) : Option (State V) :=
  match s.producer with
  | .idle => if b then some (s.setProducer pc) else none
  | _ => none

/-- One step of the queue and its users. -/
def step {V : Type} (cfg : Config) (s : State V) : Act V → Option (State V)
  | .push v => s.call (.pushPoll v) !s.closed
  | .tryPush v => s.call (.tryPoll v) !s.closed
  | .pushBulk vs => s.call (.bulkPoll vs) (!s.closed && decide (vs.length ≤ cfg.capacity))
  | .close => s.call .closeCas true
  | .producer spurious => s.producerStep cfg spurious
  | .pull k =>
    match s.consumer with
    | .idle => if k = .pull ∧ cfg.consumerCanSuspend = false then none
        else some (s.setConsumer (.poll k))
    | _ => none
  | .consumer => s.consumerStep cfg
  | .release => s.release cfg

/-- The queue as a transition system. -/
def system (V : Type) (cfg : Config) : System (State V) (Act V) := .ofStep .init (step cfg)

end CoroUtil.SpscBounded
