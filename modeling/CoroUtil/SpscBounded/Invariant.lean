import CoroUtil.General.Ring
import CoroUtil.SpscBounded.Model

/-!
# The ring invariant

`View.cell` says what each index of the window that starts at `read_offset`
holds, from the two offsets and from how far the producer and the consumer are.
It settles which of the two a pointer in `flags` belongs to: the consumer's is
at `write_offset`, the producer's one lap behind the last index it needs.
-/

namespace CoroUtil.SpscBounded

open CoroUtil.General

variable {V : Type}

/-- The values that were handed out. -/
def handed : List (Pull V) → List V
  | [] => []
  | .ok v :: l => v :: handed l
  | .empty :: l | .closed :: l => handed l

theorem handed_append (l l' : List (Pull V)) : handed (l ++ l') = handed l ++ handed l' := by
  induction l with
  | nil => rfl
  | cons r l ih => cases r <;> simp [handed, ih]

namespace ProducerPc

/-- The values it has constructed and not yet pushed. -/
def built : ProducerPc V → List V
  | publish v _ => [v]
  | bulkEmplace vs _ i => vs.take i
  | bulkStore vs _ i => vs.take (i + 1)
  | bulkPublish vs _ => vs
  | _ => []

/-- How many of them, behind the first, `DATA_BIT` is set for before the first is
published. -/
def stored : ProducerPc V → Nat
  | bulkEmplace _ _ i | bulkStore _ _ i => i - 1
  | bulkPublish vs _ => vs.length - 1
  | _ => 0

/-- How many values its call is going to push, unless it is a `try_push` that
has not seen its slot. -/
def count : ProducerPc V → Nat
  | pushPoll _ | pushPark _ _ | pushSuspended _ _ | emplace _ _ | publish _ _ => 1
  | bulkPoll vs | bulkPark vs _ | bulkSuspended vs _ | bulkFirst vs _ | bulkEmplace vs _ _
  | bulkStore vs _ _ | bulkPublish vs _ => vs.length
  | _ => 0

/-- The index of the first value it is going to push. -/
def start : ProducerPc V → Option Nat
  | pushPark _ idx | pushSuspended _ idx | emplace _ idx | publish _ idx | bulkPark _ idx
  | bulkSuspended _ idx | bulkFirst _ idx | bulkEmplace _ idx _ | bulkStore _ idx _
  | bulkPublish _ idx => some idx
  | _ => none

/-- The last index it needs, while it is suspended. -/
def waitsFor : ProducerPc V → Option Nat
  | pushSuspended _ idx => some idx
  | bulkSuspended vs idx => some (idx + vs.length - 1)
  | _ => none

/-- It is on its way to resume the consumer. -/
def wakes : ProducerPc V → Bool
  | resumeConsumer | closeElemNull | closeResume => true
  | _ => false

/-- `close()` has not put the mark on its slot yet. -/
def beforeMark : ProducerPc V → Bool
  | closeStoreAt | closeLoad | closeCasFlags _ => true
  | _ => false

/-- What the ring shows of it. -/
def shown (pc : ProducerPc V) : List V × Nat × Option Nat × Bool :=
  (pc.built, pc.stored, pc.waitsFor, pc.beforeMark)

end ProducerPc

namespace ConsumerPc

/-- It has been handed a value whose slot is not free yet. -/
def taken : ConsumerPc → Nat
  | holding _ | freeSlot _ => 1
  | _ => 0

def freeing : ConsumerPc → Bool
  | freeSlot _ => true
  | _ => false

def waiting : ConsumerPc → Bool
  | suspended _ _ => true
  | _ => false

/-- It has taken the mark off the slot and not put it back yet. -/
def storing : ConsumerPc → Bool
  | storeClosed _ => true
  | _ => false

/-- What the ring and the list of pulls show of it. -/
def shown (pc : ConsumerPc) : Nat × Bool × Bool × Bool :=
  (pc.taken, pc.freeing, pc.waiting, pc.storing)

end ConsumerPc

/-- What the window of the ring depends on. -/
structure View (V : Type) where
  values : List V
  readOffset : Nat
  writeOffset : Nat
  stored : Nat
  waitsFor : Option Nat
  marked : Bool
  storing : Bool
  waiting : Bool
  freeing : Bool

namespace View

variable (cap : Nat) (w : View V) (n : Nat)

/-- `flags` of the slot of index `n`. -/
def flagsAt : Flags :=
  if n < w.writeOffset then
    if w.waitsFor = some (n + cap) then .producer
    else if w.marked ∧ n + cap = w.writeOffset then .dataClosed
    else .data
  else if n = w.writeOffset then
    if w.marked then if w.storing then .null else .closed
    else if w.waiting ∧ n = w.readOffset then .consumer
    else .null
  else if n ≤ w.writeOffset + w.stored then .data
  else .null

/-- The value in the slot of index `n`. -/
def dataAt : Option V := if w.freeing ∧ n = w.readOffset then none else w.values[n]?

/-- What the slot of index `n` holds while `n` is in the window. -/
def cell : Element V := ⟨w.flagsAt cap n, w.dataAt n⟩

end View

namespace State

variable (cfg : Config) (s : State V)

/-- The mark of `close()` is on the slot of `write_offset`. -/
def marked : Bool := s.closed && !s.producer.beforeMark

def view : View V where
  values := s.pushed ++ s.producer.built
  readOffset := s.readOffset
  writeOffset := s.writeOffset
  stored := s.producer.stored
  waitsFor := s.producer.waitsFor
  marked := s.marked
  storing := s.consumer.storing
  waiting := s.consumer.waiting
  freeing := s.consumer.freeing

/-- What the producer knows. -/
def producerOk : Prop :=
  match s.producer with
  | .pushPoll _ | .tryPoll _ => s.closed = false
  | .bulkPoll vs => s.closed = false ∧ vs.length ≤ cfg.capacity
  | .pushPark _ idx => s.closed = false ∧ idx = s.writeOffset
  | .bulkPark vs idx =>
    s.closed = false ∧ idx = s.writeOffset ∧ 0 < vs.length ∧ vs.length ≤ cfg.capacity
  | .pushSuspended _ idx =>
    s.closed = false ∧ idx = s.writeOffset ∧ s.readOffset + cfg.capacity ≤ idx + 1 ∧
      (s.readOffset + cfg.capacity = idx + 1 → s.consumer = .resumeProducer)
  | .bulkSuspended vs idx =>
    s.closed = false ∧ idx = s.writeOffset ∧ 0 < vs.length ∧ vs.length ≤ cfg.capacity ∧
      s.readOffset + cfg.capacity ≤ idx + vs.length ∧
      (s.readOffset + cfg.capacity = idx + vs.length → s.consumer = .resumeProducer)
  | .emplace _ idx | .publish _ idx =>
    s.closed = false ∧ idx = s.writeOffset ∧ s.writeOffset < s.readOffset + cfg.capacity
  | .bulkFirst vs idx | .bulkPublish vs idx =>
    s.closed = false ∧ idx = s.writeOffset ∧ 0 < vs.length ∧
      s.writeOffset + vs.length ≤ s.readOffset + cfg.capacity
  | .bulkEmplace vs idx i | .bulkStore vs idx i =>
    s.closed = false ∧ idx = s.writeOffset ∧ (0 < i ∧ i < vs.length) ∧
      s.writeOffset + vs.length ≤ s.readOffset + cfg.capacity
  | .resumeConsumer =>
    s.closed = false ∧ s.readOffset < s.writeOffset ∧ s.consumer = .suspended s.readOffset false
  | .closeStoreAt | .closeLoad | .closeCasFlags _ => s.closed = true
  | .closeElemNull => s.closed = true ∧ s.consumer = .suspended s.readOffset false
  | .closeResume => s.closed = true ∧ s.consumer = .suspended s.readOffset true
  | .idle | .closeCas => True

/-- What the consumer knows. -/
def consumerOk : Prop :=
  match s.consumer with
  | .idle => True
  | .poll k => k = .pull → cfg.consumerCanSuspend = true
  | .tryWait idx => idx = s.readOffset ∧ cfg.consumerCanSuspend = true
  | .suspended idx n =>
    idx = s.readOffset ∧ cfg.consumerCanSuspend = true ∧
      (s.readOffset < s.writeOffset → s.producer = .resumeConsumer) ∧
      (s.marked = true → s.producer = .closeElemNull ∨ s.producer = .closeResume) ∧
      (n = true → s.producer = .closeResume)
  | .resumed idx n => idx = s.readOffset ∧ (n = false → s.readOffset < s.writeOffset)
  | .holding idx | .freeSlot idx => idx = s.readOffset ∧ s.readOffset < s.writeOffset
  | .resumeProducer => s.producer.waitsFor = some (s.readOffset + cfg.capacity - 1)
  | .storeClosed idx =>
    idx + 1 = s.readOffset ∧ idx + cfg.capacity = s.writeOffset ∧ s.marked = true

end State

/-- The offsets, the ring between them and what the two sides know. -/
structure Inv (cfg : Config) (s : State V) : Prop where
  pushed : s.pushed.length = s.writeOffset
  le : s.readOffset ≤ s.writeOffset
  full : s.writeOffset ≤ s.readOffset + cfg.capacity
  handed : handed s.pulls = s.pushed.take (s.readOffset + s.consumer.taken)
  ring : Ring cfg.capacity s.readOffset (s.view.cell cfg.capacity) s.elements
  producer : s.producerOk cfg
  consumer : s.consumerOk cfg
  unbroken : s.broken = false

/-- No index that the calls made so far go to shares its register contents
modulo the capacity with a wrong slot. -/
def Straight (cfg : Config) (s : State V) : Prop :=
  ∀ n ≤ s.writeOffset + s.producer.count, cfg.slotOf n = n % cfg.capacity

end CoroUtil.SpscBounded
