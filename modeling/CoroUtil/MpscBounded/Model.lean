import Mathlib.Logic.Function.Basic
import CoroUtil.General.System
import CoroUtil.Word

/-!
# `qu_mpsc_bounded`

The bounded multi-producer single-consumer queue, one atomic load, store or
read-modify-write at a time.  `Pc` and `ConsumerPc` are the program counters of
a producer or closer task and of the consumer; `State.taskStep` and
`State.consumerStep` run the next atomic operation of one of them, together
with the private computation that follows it.

* A flags word is kept as its fields: three bits and the pointer part, which is
  null, a `producer_base*` (named by the task whose frame it lives in) or
  `CLOSE_SENTINEL`.
* Offsets are kept unwrapped; the code reads them through `word`.
* A weak compare-exchange may fail spuriously: the label of the step says so.
* The last fields of `State` are history: no branch reads them.  `broken`
  records a failed assertion, the resumption of a coroutine that is not
  suspended, and a null pointer that is followed.
-/

namespace CoroUtil.MpscBounded

open CoroUtil.General

/-- A producer or closer task. -/
abbrev Tid := Nat

/-- The constructor's arguments and its assertions. -/
structure Config where
  bits : Nat
  capacity : Nat
  consumerCanSuspend : Bool
  capacity_pos : 0 < capacity
  capacity_le : capacity ≤ 2 ^ (bits - 1)

/-- One slot and 32-bit offsets. -/
def oneSlot : Config := ⟨32, 1, true, by decide, by decide⟩

/-- `idx % capacity`, on the register contents of `idx`. -/
def Config.slotOf (cfg : Config) (idx : Nat) : Nat := word cfg.bits idx % cfg.capacity

/-- `Flags & CHAIN_MASK`. -/
inductive ChainPtr
  | null
  | node (p : Tid)
  | closeSentinel
  deriving DecidableEq

/-- `element::flags`. -/
structure Flags where
  prod : Bool
  data : Bool
  cons : Bool
  chain : ChainPtr
  deriving DecidableEq

namespace Flags

def zero : Flags := ⟨false, false, false, .null⟩

/-- `(cur & ~CONS_BIT) == 0`. -/
def claimable (f : Flags) : Bool := !f.prod && !f.data && decide (f.chain = .null)

/-- `has_close_sentinel`. -/
def hasCloseSentinel (f : Flags) : Bool := decide (f.chain = .closeSentinel)

/-- `chain_ptr`, of a word that does not carry the sentinel. -/
def chainPtr (f : Flags) : Option Tid :=
  match f.chain with
  | .node p => some p
  | _ => none

end Flags

/-- `element`.  A stored value carries the ticket of the push that constructed
it; the code never reads the ticket. -/
structure Element (V : Type) where
  flags : Flags
  outputProducers : Option Tid
  waitingConsumer : Bool
  waitingConsumerIdx : Nat
  data : Option (Nat × V)

/-- `element::init`. -/
def Element.init {V : Type} : Element V := ⟨.zero, none, false, 0, none⟩

/-- The program counter of a task that pushes and closes. -/
inductive Pc (V : Type)
  | idle
  -- get_write_ticket
  | fetchTicket (v : V)
  | loadClosed (v : V) (idx : Nat)
  | spinReady (v : V) (idx : Nat)
  | loadClosedAt (v : V) (idx : Nat)
  -- producer_try_claim
  | claimLoad (v : V) (idx : Nat)
  | claimCas (v : V) (idx : Nat) (cur : Flags)
  -- producer_park
  | parkLoad (v : V) (idx : Nat)
  | parkCas (v : V) (idx : Nat) (cur : Flags)
  | suspended (v : V) (idx : Nat)
  -- aw_push_impl::await_resume, producer_publish
  | emplace (v : V) (idx : Nat)
  | publishLoad (v : V) (idx : Nat)
  | publishCas (v : V) (idx : Nat) (cur : Flags)
  | takeConsumer (v : V) (idx : Nat)
  | resumeConsumer (v : V) (idx : Nat)
  -- close_get_waiting_consumer
  | closeCas
  | closeTicket
  | storeClosedAt (cutoff : Nat)
  | storeReady (cutoff : Nat)
  | fetchOr (cutoff : Nat)
  | loadWaitIdx (cutoff : Nat) (cur : Flags)
  | closeArmedCas (cutoff : Nat) (cur : Flags)
  | closeFreeCas (cutoff : Nat) (cur : Flags)
  | closeTakeConsumer (cutoff : Nat)
  | closeResume (cutoff : Nat)

/-- The two ways to ask for a value. -/
inductive Call
  | pull
  | tryPull
  deriving DecidableEq

/-- The program counter of the consumer. -/
inductive ConsumerPc
  | idle
  -- aw_pull_impl::await_ready, try_pull
  | poll (k : Call)
  | loadClosed (k : Call) (idx : Nat) (f : Flags)
  | spinReady (k : Call) (idx : Nat) (f : Flags)
  | loadClosedAt (k : Call) (idx : Nat) (f : Flags)
  -- aw_pull_impl::await_suspend
  | storeIdx
  | storeSelf (idx : Nat)
  | loadFlags (idx : Nat)
  | withdrawData (idx : Nat)
  | withdrawSentinel (idx : Nat)
  | sentinelReady (idx : Nat)
  | sentinelClosedAt (idx : Nat)
  | armCas (idx : Nat) (f : Flags)
  | suspended (idx : Nat) (elemNull : Bool)
  | resumed (idx : Nat) (elemNull : Bool)
  -- a live scope, finish_read
  | holding (idx : Nat)
  | drainLoad (idx : Nat)
  | handoffCas (idx : Nat) (cur : Flags)
  | drainCas (idx : Nat)
  | drainExchange (idx : Nat)
  | reverse (idx : Nat) (prev curr : Option Tid)
  | resumeProducer (idx : Nat) (p : Tid)

/-- What a `push()` returned. -/
structure Push (V : Type) where
  task : Tid
  ticket : Nat
  value : V
  ok : Bool

/-- What a `pull()` or `try_pull()` returned. -/
inductive Pull (V : Type)
  | ok (ticket : Nat) (v : V)
  | empty
  | closed

structure State (V : Type) where
  writeOffset : Nat
  readOffset : Nat
  elements : Nat → Element V
  closed : Bool
  closedReady : Bool
  writeClosedAt : Nat
  /-- `producer_base::next`. -/
  next : Tid → Option Tid
  task : Tid → Pc V
  consumer : ConsumerPc
  -- history
  constructed : List (Nat × V)
  pushes : List (Push V)
  pulls : List (Pull V)
  closes : Nat
  broken : Bool

def State.init {V : Type} : State V where
  writeOffset := 0
  readOffset := 0
  elements := fun _ => .init
  closed := false
  closedReady := false
  writeClosedAt := 0
  next := fun _ => none
  task := fun _ => .idle
  consumer := .idle
  constructed := []
  pushes := []
  pulls := []
  closes := 0
  broken := false

namespace State

variable {V : Type} (cfg : Config) (s : State V)

def setTask (p : Tid) (pc : Pc V) : State V := { s with task := Function.update s.task p pc }

def setConsumer (pc : ConsumerPc) : State V := { s with consumer := pc }

/-- The element an index selects. -/
def elem (idx : Nat) : Element V := s.elements (cfg.slotOf idx)

def setElem (idx : Nat) (e : Element V) : State V :=
  { s with elements := Function.update s.elements (cfg.slotOf idx) e }

def setFlags (idx : Nat) (f : Flags) : State V :=
  s.setElem cfg idx { s.elem cfg idx with flags := f }

/-- `assert(b)`. -/
def check (b : Bool) : State V := { s with broken := s.broken || !b }

/-- The push of `v` with ticket `idx` returns `ok` to task `p`. -/
def returnPush (p : Tid) (v : V) (idx : Nat) (ok : Bool) : State V :=
  { s with
    task := Function.update s.task p .idle
    pushes := s.pushes ++ [⟨p, idx, v, ok⟩] }

/-- `close()` returns to task `p`. -/
def returnClose (p : Tid) : State V :=
  { s with task := Function.update s.task p .idle, closes := s.closes + 1 }

/-- `pull()` or `try_pull()` returns without a value. -/
def returnPull (r : Pull V) : State V := { s with consumer := .idle, pulls := s.pulls ++ [r] }

/-- The scope over the element at `idx` is handed to the consumer. -/
def handOut (idx : Nat) : State V :=
  match (s.elem cfg idx).data with
  | some e => { s with consumer := .holding idx, pulls := s.pulls ++ [.ok e.1 e.2] }
  | none => ({ s with consumer := .holding idx }).check false

/-- `ContinuationPolicy::resume` of the waiting consumer. -/
def resumeConsumer : State V :=
  match s.consumer with
  | .suspended idx n => s.setConsumer (.resumed idx n)
  | _ => s.check false

/-- `ContinuationPolicy::resume` of a parked producer. -/
def resumeProducer (p : Tid) : State V :=
  match s.task p with
  | .suspended v idx => s.setTask p (.emplace v idx)
  | _ => s.check false

/-- `producer_try_claim` once `cur` holds the flags. -/
def afterClaimLoad (p : Tid) (v : V) (idx : Nat) (cur : Flags) : State V :=
  if cur.claimable then s.setTask p (.claimCas v idx cur)
  else if cur.hasCloseSentinel then s.returnPush p v idx false
  else s.setTask p (.parkLoad v idx)

/-- `producer_park` once `cur` holds the flags. -/
def afterParkLoad (p : Tid) (v : V) (idx : Nat) (cur : Flags) : State V :=
  if cur.claimable then s.setTask p (.claimLoad v idx)
  else if cur.hasCloseSentinel then s.returnPush p v idx false
  else { s with next := Function.update s.next p cur.chainPtr }.setTask p (.parkCas v idx cur)

/-- The loop of `close_get_waiting_consumer` once `cur` holds the flags of the
cutoff slot. -/
def afterCloseLoad (p : Tid) (cutoff : Nat) (cur : Flags) : State V :=
  if cur.data || cur.prod then s.returnClose p
  else if cur.cons then s.setTask p (.loadWaitIdx cutoff cur)
  else s.setTask p (.closeFreeCas cutoff cur)

/-- `aw_push_impl::await_ready`, `await_suspend` and `await_resume`, and
`close_get_waiting_consumer`. -/
def taskStep (p : Tid) (spurious : Bool) : Option (State V) :=
  match s.task p with
  | .idle => none
  | .fetchTicket v =>
    some ({ s with writeOffset := s.writeOffset + 1 }.setTask p (.loadClosed v s.writeOffset))
  | .loadClosed v idx =>
    some (s.setTask p (if s.closed then .spinReady v idx else .claimLoad v idx))
  | .spinReady v idx =>
    some (s.setTask p (if s.closedReady then .loadClosedAt v idx else .spinReady v idx))
  | .loadClosedAt v idx =>
    if circularLessThan cfg.bits idx s.writeClosedAt then some (s.setTask p (.claimLoad v idx))
    else some (s.returnPush p v idx false)
  | .claimLoad v idx => some (s.afterClaimLoad p v idx (s.elem cfg idx).flags)
  | .claimCas v idx cur =>
    if spurious = false ∧ (s.elem cfg idx).flags = cur then
      some ((s.setFlags cfg idx { cur with prod := true }).setTask p (.emplace v idx))
    else some (s.afterClaimLoad p v idx (s.elem cfg idx).flags)
  | .parkLoad v idx => some (s.afterParkLoad p v idx (s.elem cfg idx).flags)
  | .parkCas v idx cur =>
    if spurious = false ∧ (s.elem cfg idx).flags = cur then
      some ((s.setFlags cfg idx { cur with chain := .node p }).setTask p (.suspended v idx))
    else some (s.afterParkLoad p v idx (s.elem cfg idx).flags)
  | .suspended _ _ => none
  | .emplace v idx =>
    some ({ (s.setElem cfg idx { s.elem cfg idx with data := some (idx, v) }).check
        (s.elem cfg idx).data.isNone with constructed := s.constructed ++ [(idx, v)] }.setTask p
        (.publishLoad v idx))
  | .publishLoad v idx => some (s.setTask p (.publishCas v idx (s.elem cfg idx).flags))
  | .publishCas v idx cur =>
    let s := s.check (cur.prod && !cur.data)
    if spurious = false ∧ (s.elem cfg idx).flags = cur then
      let s := s.setFlags cfg idx { cur with prod := false, cons := false, data := true }
      if cfg.consumerCanSuspend && cur.cons then some (s.setTask p (.takeConsumer v idx))
      else some (s.returnPush p v idx true)
    else some (s.setTask p (.publishCas v idx (s.elem cfg idx).flags))
  | .takeConsumer v idx =>
    let s' := s.setElem cfg idx { s.elem cfg idx with waitingConsumer := false }
    if (s.elem cfg idx).waitingConsumer then some (s'.setTask p (.resumeConsumer v idx))
    else some (s'.returnPush p v idx true)
  | .resumeConsumer v idx => some (s.resumeConsumer.returnPush p v idx true)
  | .closeCas =>
    if s.closed then some (s.returnClose p)
    else some ({ s with closed := true }.setTask p .closeTicket)
  | .closeTicket =>
    some ({ s with writeOffset := s.writeOffset + 1 }.setTask p (.storeClosedAt s.writeOffset))
  | .storeClosedAt cutoff =>
    some ({ s with writeClosedAt := cutoff }.setTask p (.storeReady cutoff))
  | .storeReady cutoff => some ({ s with closedReady := true }.setTask p (.fetchOr cutoff))
  | .fetchOr cutoff =>
    if cfg.consumerCanSuspend then some (s.afterCloseLoad p cutoff (s.elem cfg cutoff).flags)
    else some (s.returnClose p)
  | .loadWaitIdx cutoff cur =>
    if circularLessThan cfg.bits (s.elem cfg cutoff).waitingConsumerIdx cutoff then
      some (s.returnClose p)
    else some (s.setTask p (.closeArmedCas cutoff cur))
  | .closeArmedCas cutoff cur =>
    if spurious = false ∧ (s.elem cfg cutoff).flags = cur then
      some ((s.setFlags cfg cutoff { cur with cons := false, chain := .closeSentinel }).setTask p
        (.closeTakeConsumer cutoff))
    else some (s.afterCloseLoad p cutoff (s.elem cfg cutoff).flags)
  | .closeFreeCas cutoff cur =>
    if spurious = false ∧ (s.elem cfg cutoff).flags = cur then
      some ((s.setFlags cfg cutoff ⟨false, false, false, .closeSentinel⟩).returnClose p)
    else some (s.afterCloseLoad p cutoff (s.elem cfg cutoff).flags)
  | .closeTakeConsumer cutoff =>
    let s' := s.setElem cfg cutoff { s.elem cfg cutoff with waitingConsumer := false }
    if (s.elem cfg cutoff).waitingConsumer then
      match s.consumer with
      | .suspended idx _ =>
        some ((s'.setConsumer (.suspended idx true)).setTask p (.closeResume cutoff))
      | _ => some ((s'.check false).setTask p (.closeResume cutoff))
    else some (s'.returnClose p)
  | .closeResume _ => some (s.resumeConsumer.returnClose p)

/-- The end of `await_ready` or of an iteration of `try_pull`, when the slot
holds no value and the consumer is not past the cutoff. -/
def afterPoll (k : Call) : State V :=
  match k with
  | .pull => s.setConsumer .storeIdx
  | .tryPull => s.returnPull .empty

/-- `await_suspend` once `f` holds the flags. -/
def afterLoadFlags (idx : Nat) (f : Flags) : State V :=
  if f.data then s.setConsumer (.withdrawData idx)
  else if f.hasCloseSentinel then s.setConsumer (.withdrawSentinel idx)
  else (s.check (!f.cons)).setConsumer (.armCas idx f)

/-- `consumer_drain_and_handoff` once `cur` holds the flags. -/
def afterDrainLoad (idx : Nat) (cur : Flags) : State V :=
  if (s.elem cfg idx).outputProducers.isSome then s.setConsumer (.handoffCas idx cur)
  else
    (s.check (cur.data && !cur.prod)).setConsumer
      (if cur = ⟨false, true, false, .null⟩ then .drainCas idx else .drainExchange idx)

/-- The chain that `consumer_drain_and_handoff` reversed is stored back and its
first producer is woken. -/
def afterReverse (idx : Nat) (toWake : Option Tid) : State V :=
  match toWake with
  | some p =>
    (s.setElem cfg idx { s.elem cfg idx with outputProducers := s.next p }).setConsumer
      (.resumeProducer idx p)
  | none => (s.check false).setConsumer .idle

/-- `aw_pull_impl::await_ready`, `await_suspend` and `await_resume`, `try_pull`,
and `finish_read`. -/
def consumerStep (spurious : Bool) : Option (State V) :=
  match s.consumer with
  | .idle => none
  | .poll k =>
    let f := (s.elem cfg s.readOffset).flags
    if f.data then some (s.handOut cfg s.readOffset)
    else some (s.setConsumer (.loadClosed k s.readOffset f))
  | .loadClosed k idx f =>
    if s.closed then some (s.setConsumer (.spinReady k idx f)) else some (s.afterPoll k)
  | .spinReady k idx f =>
    some (s.setConsumer (if s.closedReady then .loadClosedAt k idx f else .spinReady k idx f))
  | .loadClosedAt k idx f =>
    if circularLessThan cfg.bits idx s.writeClosedAt then
      if f.hasCloseSentinel then
        some ({ s with readOffset := idx + 1 }.setConsumer (.poll k))
      else some (s.afterPoll k)
    else some (s.returnPull .closed)
  | .storeIdx =>
    some ((s.setElem cfg s.readOffset
      { s.elem cfg s.readOffset with waitingConsumerIdx := s.readOffset }).setConsumer
      (.storeSelf s.readOffset))
  | .storeSelf idx =>
    some ((s.setElem cfg idx { s.elem cfg idx with waitingConsumer := true }).setConsumer
      (.loadFlags idx))
  | .loadFlags idx => some (s.afterLoadFlags idx (s.elem cfg idx).flags)
  | .withdrawData idx =>
    if (s.elem cfg idx).waitingConsumer then
      some ((s.setElem cfg idx { s.elem cfg idx with waitingConsumer := false }).handOut cfg idx)
    else some (s.setConsumer (.suspended idx false))
  | .withdrawSentinel idx =>
    if (s.elem cfg idx).waitingConsumer then
      some ((s.setElem cfg idx { s.elem cfg idx with waitingConsumer := false }).setConsumer
        (.sentinelReady idx))
    else some (s.setConsumer (.suspended idx false))
  | .sentinelReady idx =>
    some (s.setConsumer (if s.closedReady then .sentinelClosedAt idx else .sentinelReady idx))
  | .sentinelClosedAt idx =>
    if circularLessThan cfg.bits idx s.writeClosedAt then
      some ({ s with readOffset := idx + 1 }.setConsumer .storeIdx)
    else some (s.returnPull .closed)
  | .armCas idx f =>
    if spurious = false ∧ (s.elem cfg idx).flags = f then
      some ((s.setFlags cfg idx { f with cons := true }).setConsumer (.suspended idx false))
    else some (s.afterLoadFlags idx (s.elem cfg idx).flags)
  | .suspended _ _ => none
  | .resumed idx elemNull =>
    if elemNull then some (s.returnPull .closed) else some (s.handOut cfg idx)
  | .holding _ => none
  | .drainLoad idx => some (s.afterDrainLoad cfg idx (s.elem cfg idx).flags)
  | .handoffCas idx cur =>
    let s := s.check (cur.data && !cur.prod)
    if spurious = false ∧ (s.elem cfg idx).flags = cur then
      match (s.elem cfg idx).outputProducers with
      | some p =>
        some ((s.setElem cfg idx { s.elem cfg idx with
          flags := ⟨true, false, false, cur.chain⟩
          outputProducers := s.next p }).setConsumer (.resumeProducer idx p))
      | none => some (s.check false)
    else some (s.setConsumer (.handoffCas idx (s.elem cfg idx).flags))
  | .drainCas idx =>
    if (s.elem cfg idx).flags = ⟨false, true, false, .null⟩ then
      some ((s.setFlags cfg idx .zero).setConsumer .idle)
    else some (s.setConsumer (.drainExchange idx))
  | .drainExchange idx =>
    some ((s.setFlags cfg idx ⟨true, false, false, .null⟩).setConsumer
      (.reverse idx none (s.elem cfg idx).flags.chainPtr))
  | .reverse idx prev curr =>
    match curr with
    | some p =>
      some ({ s with next := Function.update s.next p prev }.setConsumer
        (.reverse idx (some p) (s.next p)))
    | none => some (s.afterReverse cfg idx prev)
  | .resumeProducer _ p => some ((s.resumeProducer p).setConsumer .idle)

/-- The consumer's scope is destroyed: the start of `finish_read`. -/
def release : Option (State V) :=
  match s.consumer with
  | .holding idx =>
    some ({ (s.setElem cfg idx { s.elem cfg idx with data := none }).check
      (s.elem cfg idx).data.isSome with readOffset := idx + 1, consumer := .drainLoad idx })
  | _ => none

end State

/-- The moves of the tasks and of the consumer. -/
inductive Act (V : Type)
  /-- Task `p` awaits `push(v)`. -/
  | push (p : Tid) (v : V)
  /-- Task `p` calls `close()`. -/
  | close (p : Tid)
  /-- Task `p` takes its next step. -/
  | task (p : Tid) (spurious : Bool)
  /-- The consumer calls `pull()` or `try_pull()`. -/
  | pull (k : Call)
  /-- The consumer takes its next step. -/
  | consumer (spurious : Bool)
  /-- The consumer destroys its scope. -/
  | release

/-- One step of the queue and its users. -/
def step {V : Type} (cfg : Config) (s : State V) : Act V → Option (State V)
  | .push p v =>
    match s.task p with
    | .idle => some (s.setTask p (.fetchTicket v))
    | _ => none
  | .close p =>
    match s.task p with
    | .idle => some (s.setTask p .closeCas)
    | _ => none
  | .task p spurious => s.taskStep cfg p spurious
  | .pull k =>
    match s.consumer with
    | .idle => if k = .pull ∧ cfg.consumerCanSuspend = false then none
        else some (s.setConsumer (.poll k))
    | _ => none
  | .consumer spurious => s.consumerStep cfg spurious
  | .release => s.release cfg

/-- The queue as a transition system. -/
def system (V : Type) (cfg : Config) : System (State V) (Act V) := .ofStep .init (step cfg)

end CoroUtil.MpscBounded
