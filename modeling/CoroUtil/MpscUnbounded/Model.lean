import CoroUtil.Blocks.Model
import CoroUtil.General.System

/-!
# `qu_mpsc_unbounded`

The unbounded multi-producer single-consumer queue, one atomic load, store or
read-modify-write at a time.  `Pc` and `ConsumerPc` are the program counters of
a producer or closer task and of the consumer; `State.taskStep` and
`State.consumerStep` run the next atomic operation of one of them, together
with the private computation that follows it.

* `Offsets` says what the offsets are; `.wrapping` is what the code has.
* A `consumer_base*` is named by the number of the `pull()` whose frame it
  lives in.  `pending_reclaim_old_head` and `pending_reclaim_new_head` are set
  and cleared together and kept as a pair.
* A weak compare-exchange may fail spuriously: the label of the step says so.
* The last fields of `State` are history: no branch reads them.  `broken`
  records a failed assertion, a value constructed over another, the resumption
  of a coroutine that is not suspended, and a null pointer that is followed.
-/

namespace CoroUtil.MpscUnbounded

open CoroUtil.General CoroUtil.Blocks

/-- A producer or closer task. -/
abbrev Tid := Nat

/-- The configuration and the word size. -/
structure Config extends Layout where
  consumerCanSuspend : Bool

/-- `element::flags`. -/
inductive Flags
  | null
  | data
  | closed
  | consumer (frame : Nat)
  deriving DecidableEq

instance : Zero Flags := ⟨.null⟩

/-- What `post` and `post_bulk` are called with. -/
inductive Put (V : Type)
  | post (v : V)
  | bulk (items : Nat → V) (count : Nat)

namespace Put

variable {V : Type}

def count : Put V → Nat
  | post _ => 1
  | bulk _ count => count

def item : Put V → Nat → V
  | post v, _ => v
  | bulk items _, k => items k

end Put

/-- Who asks for the block of a ticket. -/
inductive Job (V : Type)
  | put (w : Put V)
  | close

/-- The program counter of a task that posts and closes.  `idx` is the first
index of its ticket, and `k` counts the items that `post_bulk` has written. -/
inductive Pc (V : Type)
  | idle
  -- get_write_ticket, get_write_ticket_bulk
  | fetchTicket (w : Put V)
  | loadClosed (w : Put V) (idx : Nat)
  | spinReady (w : Put V) (idx : Nat)
  | loadClosedAt (w : Put V) (idx : Nat)
  -- get_mpsc_write_start_block
  | loadHint (j : Job V) (idx : Nat)
  | hintOffset (j : Job V) (idx b : Nat)
  | loadWriteBlock (j : Job V) (idx : Nat)
  | assertWriteBlock (j : Job V) (idx b : Nat)
  -- find_block
  | assertObserved (w : Put V) (idx observed : Nat)
  | find (j : Job V) (idx observed : Nat) (f : Find)
  | findEnd (w : Put V) (idx observed b : Nat) (f : Find)
  -- advance_write_block_hint_at_least
  | hintCurrent (w : Put V) (idx b current target : Nat)
  | hintTarget (w : Put V) (idx b current target offset : Nat)
  | hintCas (w : Put V) (idx b current target : Nat)
  -- write_element, notify_consumer, the loop of post_bulk
  | emplace (w : Put V) (idx k b : Nat)
  | publish (w : Put V) (idx k b : Nat)
  | resumeConsumer (w : Put V) (idx k b frame : Nat)
  | nextBlock (w : Put V) (idx k b : Nat)
  -- close_get_waiting_consumer, close
  | closeCas
  | closeTicket
  | storeClosedAt (idx : Nat)
  | storeReady (idx : Nat)
  | exchangeClosed (idx b : Nat)
  | elemNull (idx frame : Nat)
  | closeResume (idx frame : Nat)

/-- The two ways to ask for a value. -/
inductive Call
  | pull
  | tryPull
  deriving DecidableEq

/-- The program counter of the consumer.  `empty()` may be called while a scope
is alive; `scope` is its index and block. -/
inductive ConsumerPc
  | idle
  -- get_read_ticket
  | assertRead (k : Call)
  | find (k : Call) (idx : Nat) (f : Find)
  -- aw_pull_impl::await_ready, try_pull
  | poll (k : Call) (idx b : Nat)
  -- aw_pull_impl::await_suspend
  | tryWait (idx b : Nat)
  | storeClosed (idx b : Nat)
  | suspended (idx b : Nat) (elemNull : Bool)
  | resumed (idx b : Nat) (elemNull : Bool)
  -- a live scope
  | holding (idx b : Nat)
  -- try_finish_pending_reclaim: the first of its calls and the last one
  | reclaim (b : Nat) (r : Reclaim) (last : Bool)
  -- try_start_reclaim
  | assertHead (b : Nat)
  | oldOffset (b : Nat)
  | storeWriteBlock (b : Nat)
  | startHint (b : Nat)
  | startCurrent (b current : Nat)
  | startTarget (b current offset : Nat)
  | startCas (b current : Nat)
  | loadCutoff (b : Nat)
  -- empty
  | emptyFind (scope : Option (Nat × Nat)) (f : Find)
  | emptyPoll (scope : Option (Nat × Nat)) (b : Nat)
  deriving DecidableEq

/-- What a `post()` or `post_bulk()` returned. -/
structure Post (V : Type) where
  task : Tid
  ticket : Nat
  put : Put V
  ok : Bool

/-- What a `pull()` or `try_pull()` returned.  EMPTY comes with the number of
posts that had returned when the call began. -/
inductive Pull (V : Type)
  | ok (idx : Nat) (v : V)
  | empty (posts : Nat)
  | closed

structure State (V : Type) where
  heap : Heap Flags V
  writeOffset : Nat
  closed : Bool
  writeBlockHint : Nat
  writeBlock : Nat
  writeClosedAt : Nat
  closedReady : Bool
  readOffset : Nat
  readBlock : Nat
  /-- `pending_reclaim_old_head` and `pending_reclaim_new_head`. -/
  pendingReclaim : Option (Nat × Nat)
  pendingReclaimCutoff : Nat
  headBlock : Nat
  tailBlock : Nat
  task : Tid → Pc V
  consumer : ConsumerPc
  /-- The frame of the latest `pull()`. -/
  frame : Nat
  -- history
  constructed : List (Nat × V)
  posts : List (Post V)
  pulls : List (Pull V)
  empties : List Bool
  closes : Nat
  /-- How many posts had returned when the latest pull began. -/
  began : Nat
  broken : Bool

def State.init {V : Type} : State V where
  heap := ⟨fun _ => .new 0, 1⟩
  writeOffset := 0
  closed := false
  writeBlockHint := 0
  writeBlock := 0
  writeClosedAt := 0
  closedReady := false
  readOffset := 0
  readBlock := 0
  pendingReclaim := none
  pendingReclaimCutoff := 0
  headBlock := 0
  tailBlock := 0
  task := fun _ => .idle
  consumer := .idle
  frame := 0
  constructed := []
  posts := []
  pulls := []
  empties := []
  closes := 0
  began := 0
  broken := false

namespace State

variable {V : Type} (o : Offsets) (cfg : Config) (s : State V)

def setTask (p : Tid) (pc : Pc V) : State V := { s with task := Function.update s.task p pc }

def setConsumer (pc : ConsumerPc) : State V := { s with consumer := pc }

/-- `assert(b)`. -/
def check (b : Bool) : State V := { s with broken := s.broken || !b }

/-- `Block->offset`. -/
def offset (b : Nat) : Nat := (s.heap.block b).offset

/-- The element of block `b` that an index selects. -/
def elem (b idx : Nat) : Element Flags V := s.heap.elem b (cfg.slot idx)

def setElem (b idx : Nat) (e : Element Flags V) : State V :=
  { s with heap := s.heap.setElem b (cfg.slot idx) e }

def setFlags (b idx : Nat) (f : Flags) : State V :=
  s.setElem cfg b idx { s.elem cfg b idx with flags := f }

/-- The call with ticket `idx` returns `ok` to task `p`. -/
def returnPost (p : Tid) (w : Put V) (idx : Nat) (ok : Bool) : State V :=
  { s with
    task := Function.update s.task p .idle
    posts := s.posts ++ [⟨p, idx, w, ok⟩] }

/-- `close()` returns to task `p`. -/
def returnClose (p : Tid) : State V :=
  { s with task := Function.update s.task p .idle, closes := s.closes + 1 }

/-- `pull()` or `try_pull()` returns without a value. -/
def returnPull (r : Pull V) : State V := { s with consumer := .idle, pulls := s.pulls ++ [r] }

/-- The scope over the element at `idx` is handed to the consumer. -/
def handOut (idx b : Nat) : State V :=
  match (s.elem cfg b idx).data with
  | some v => { s with consumer := .holding idx b, pulls := s.pulls ++ [.ok idx v] }
  | none => ({ s with consumer := .holding idx b }).check false

/-- `ContinuationPolicy::resume` of the consumer that waits in `frame`. -/
def resumeConsumer (frame : Nat) : State V :=
  match s.consumer with
  | .suspended idx b n =>
    if frame = s.frame then s.setConsumer (.resumed idx b n) else s.check false
  | _ => s.check false

/-- `get_mpsc_write_start_block` has chosen `b`. -/
def afterStart (p : Tid) (j : Job V) (idx b : Nat) : State V :=
  match j with
  | .put w => s.setTask p (.assertObserved w idx b)
  | .close => s.setTask p (.find .close idx b (.load b))

/-- `find_block` has found the block `b` of `idx`. -/
def afterFind (p : Tid) (j : Job V) (idx observed b : Nat) : State V :=
  match j with
  | .put (.post v) => s.setTask p (.hintCurrent (.post v) idx b observed b)
  | .put (.bulk items count) => s.setTask p (.findEnd (.bulk items count) idx observed b (.load b))
  | .close => s.setTask p (.exchangeClosed idx b)

/-- The loop of `post_bulk` with `k` items written. -/
def afterItem (p : Tid) (w : Put V) (idx k b : Nat) : State V :=
  if cfg.reg o (idx + k) = cfg.reg o (idx + w.count) then s.returnPost p w idx true
  else s.setTask p (.emplace w idx k b)

/-- `post` and the loop of `post_bulk` once item `k` is published. -/
def afterWrite (p : Tid) (w : Put V) (idx k b : Nat) : State V :=
  match w with
  | .post v => s.returnPost p (.post v) idx true
  | .bulk items count =>
    if cfg.slot (cfg.reg o (idx + (k + 1))) = 0 then
      s.setTask p (.nextBlock (.bulk items count) idx (k + 1) b)
    else s.afterItem o cfg p (.bulk items count) idx (k + 1) b

/-- `post`, `post_bulk` and `close`. -/
def taskStep (p : Tid) (spurious : Bool) : Option (State V) :=
  match s.task p with
  | .idle => none
  | .fetchTicket w =>
    some ({ s with writeOffset := cfg.reg o (s.writeOffset + w.count) }.setTask p
      (.loadClosed w s.writeOffset))
  | .loadClosed w idx =>
    some (s.setTask p (if s.closed then .spinReady w idx else .loadHint (.put w) idx))
  | .spinReady w idx =>
    some (s.setTask p (if s.closedReady then .loadClosedAt w idx else .spinReady w idx))
  | .loadClosedAt w idx =>
    if cfg.less o s.writeClosedAt (cfg.reg o (1 + idx)) then some (s.returnPost p w idx false)
    else some (s.setTask p (.loadHint (.put w) idx))
  | .loadHint j idx => some (s.setTask p (.hintOffset j idx s.writeBlockHint))
  | .hintOffset j idx b =>
    if cfg.less o (s.offset b) (cfg.reg o (1 + idx)) then some (s.afterStart p j idx b)
    else some (s.setTask p (.loadWriteBlock j idx))
  | .loadWriteBlock j idx => some (s.setTask p (.assertWriteBlock j idx s.writeBlock))
  | .assertWriteBlock j idx b =>
    some ((s.check (cfg.less o (s.offset b) (cfg.reg o (1 + idx)))).afterStart p j idx b)
  | .assertObserved w idx b =>
    some ((s.check (cfg.less o (s.offset b) (cfg.reg o (1 + idx)))).setTask p
      (.find (.put w) idx b (.load b)))
  | .find j idx observed f =>
    let (heap, ok, f) := f.step o cfg.toLayout idx s.heap
    let s := { s with heap }.check ok
    match f with
    | .found b => some (s.afterFind p j idx observed b)
    | f => some (s.setTask p (.find j idx observed f))
  | .findEnd w idx observed b f =>
    let last := cfg.reg o (idx + w.count - 1)
    let (heap, ok, f) := f.step o cfg.toLayout last s.heap
    let s := { s with heap }.check ok
    match f with
    | .found target => some (s.setTask p (.hintCurrent w idx b observed target))
    | f => some (s.setTask p (.findEnd w idx observed b f))
  | .hintCurrent w idx b current target =>
    some (s.setTask p (.hintTarget w idx b current target (s.offset current)))
  | .hintTarget w idx b current target offset =>
    some (s.setTask p (if cfg.less o offset (s.offset target) then .hintCas w idx b current target
      else .emplace w idx 0 b))
  | .hintCas w idx b current target =>
    if spurious = false ∧ s.writeBlockHint = current then
      some ({ s with writeBlockHint := target }.setTask p (.emplace w idx 0 b))
    else some (s.setTask p (.hintCurrent w idx b s.writeBlockHint target))
  | .emplace w idx k b =>
    let i := cfg.reg o (idx + k)
    some ({ (s.setElem cfg b i { s.elem cfg b i with data := some (w.item k) }).check
      (s.elem cfg b i).data.isNone with constructed := s.constructed ++ [(i, w.item k)] }.setTask p
      (.publish w idx k b))
  | .publish w idx k b =>
    let i := cfg.reg o (idx + k)
    let s' := s.setFlags cfg b i .data
    if cfg.consumerCanSuspend then
      match (s.elem cfg b i).flags with
      | .null => some (s'.afterWrite o cfg p w idx k b)
      | .consumer frame => some (s'.setTask p (.resumeConsumer w idx k b frame))
      | _ => some ((s'.check false).afterWrite o cfg p w idx k b)
    else some (s'.afterWrite o cfg p w idx k b)
  | .resumeConsumer w idx k b frame =>
    some ((s.resumeConsumer frame).afterWrite o cfg p w idx k b)
  | .nextBlock w idx k b =>
    match (s.heap.block b).next with
    | some n => some (s.afterItem o cfg p w idx k n)
    | none =>
      let s := s.check (!cfg.less o (cfg.reg o (idx + k)) (cfg.reg o (idx + w.count)))
      if cfg.reg o (idx + k) = cfg.reg o (idx + w.count) then some (s.returnPost p w idx true)
      else some ((s.check false).setTask p .idle)
  | .closeCas =>
    if s.closed then some (s.returnClose p)
    else some ({ s with closed := true }.setTask p .closeTicket)
  | .closeTicket =>
    some ({ s with writeOffset := cfg.reg o (s.writeOffset + 1) }.setTask p
      (.storeClosedAt s.writeOffset))
  | .storeClosedAt idx => some ({ s with writeClosedAt := idx }.setTask p (.storeReady idx))
  | .storeReady idx => some ({ s with closedReady := true }.setTask p (.loadHint .close idx))
  | .exchangeClosed idx b =>
    let s' := s.setFlags cfg b idx .closed
    match (s.elem cfg b idx).flags with
    | .consumer frame => some (s'.setTask p (.elemNull idx frame))
    | _ => some (s'.returnClose p)
  | .elemNull idx frame =>
    let s := s.setTask p (.closeResume idx frame)
    match s.consumer with
    | .suspended i b _ =>
      if frame = s.frame then some (s.setConsumer (.suspended i b true)) else some (s.check false)
    | _ => some (s.check false)
  | .closeResume _ frame => some ((s.resumeConsumer frame).returnClose p)

/-- The last `try_finish_pending_reclaim` of `try_reclaim_blocks`. -/
def finishLast (b : Nat) : State V :=
  match s.pendingReclaim with
  | some (old, new) =>
    if cfg.less o s.readOffset s.pendingReclaimCutoff then s.setConsumer .idle
    else { s with headBlock := new, pendingReclaim := none }.setConsumer
      (.reclaim b (.gather [] old new) true)
  | none => s.setConsumer .idle

/-- `try_start_reclaim` and the rest of `try_reclaim_blocks`. -/
def startReclaim (b : Nat) : State V :=
  match s.pendingReclaim with
  | some _ => s.finishLast o cfg b
  | none => s.setConsumer (.assertHead b)

/-- `try_reclaim_blocks`. -/
def tryReclaimBlocks (b : Nat) : State V :=
  match s.pendingReclaim with
  | some (old, new) =>
    if cfg.less o s.readOffset s.pendingReclaimCutoff then s.startReclaim o cfg b
    else { s with headBlock := new, pendingReclaim := none }.setConsumer
      (.reclaim b (.gather [] old new) false)
  | none => s.startReclaim o cfg b

/-- The scope that was alive before `empty()`. -/
def afterEmpty (scope : Option (Nat × Nat)) : State V :=
  match scope with
  | some (idx, b) => s.setConsumer (.holding idx b)
  | none => s.setConsumer .idle

/-- `aw_pull_impl::await_ready`, `await_suspend` and `await_resume`, `try_pull`,
`try_reclaim_blocks` and `empty`. -/
def consumerStep (spurious : Bool) : Option (State V) :=
  match s.consumer with
  | .idle => none
  | .assertRead k =>
    some ((s.check (cfg.less o (s.offset s.readBlock) (cfg.reg o (1 + s.readOffset)))).setConsumer
      (.find k s.readOffset (.load s.readBlock)))
  | .find k idx f =>
    let (heap, ok, f) := f.step o cfg.toLayout idx s.heap
    let s := { s with heap }.check ok
    match f with
    | .found b => some (s.setConsumer (.poll k idx b))
    | f => some (s.setConsumer (.find k idx f))
  | .poll k idx b =>
    match k, (s.elem cfg b idx).flags with
    | _, .data => some (s.handOut cfg idx b)
    | .pull, _ => some (s.setConsumer (.tryWait idx b))
    | .tryPull, .closed => some (s.returnPull .closed)
    | .tryPull, _ => some (s.returnPull (.empty s.began))
  | .tryWait idx b =>
    let s' := s.setFlags cfg b idx (.consumer s.frame)
    match (s.elem cfg b idx).flags with
    | .null => some (s'.setConsumer (.suspended idx b false))
    | .closed => some (s'.setConsumer (.storeClosed idx b))
    | _ => some (s'.handOut cfg idx b)
  | .storeClosed idx b => some ((s.setFlags cfg b idx .closed).returnPull .closed)
  | .suspended _ _ _ => none
  | .resumed idx b elemNull =>
    if elemNull then some (s.returnPull .closed) else some (s.handOut cfg idx b)
  | .holding _ _ => none
  | .reclaim b r last =>
    let (heap, tailBlock, ok, r) := r.step o cfg.toLayout s.heap s.tailBlock
    let s := { s with heap, tailBlock }.check ok
    match r with
    | .done => some (if last then s.setConsumer .idle else s.startReclaim o cfg b)
    | r => some (s.setConsumer (.reclaim b r last))
  | .assertHead b =>
    some ((s.check (decide (s.offset b = cfg.base s.readOffset))).setConsumer (.oldOffset b))
  | .oldOffset b =>
    if cfg.less o (s.offset s.headBlock) (cfg.base s.readOffset) then
      some (s.setConsumer (.storeWriteBlock b))
    else some (s.finishLast o cfg b)
  | .storeWriteBlock b => some ({ s with writeBlock := b }.setConsumer (.startHint b))
  | .startHint b => some (s.setConsumer (.startCurrent b s.writeBlockHint))
  | .startCurrent b current => some (s.setConsumer (.startTarget b current (s.offset current)))
  | .startTarget b current offset =>
    some (s.setConsumer (if cfg.less o offset (s.offset b) then .startCas b current
      else .loadCutoff b))
  | .startCas b current =>
    if spurious = false ∧ s.writeBlockHint = current then
      some ({ s with writeBlockHint := b }.setConsumer (.loadCutoff b))
    else some (s.setConsumer (.startCurrent b s.writeBlockHint))
  | .loadCutoff b =>
    some ({ s with
      pendingReclaimCutoff := s.writeOffset
      pendingReclaim := some (s.headBlock, b) }.finishLast o cfg b)
  | .emptyFind scope f =>
    let (heap, ok, f) := f.step o cfg.toLayout s.readOffset s.heap
    let s := { s with heap }.check ok
    match f with
    | .found b => some (s.setConsumer (.emptyPoll scope b))
    | f => some (s.setConsumer (.emptyFind scope f))
  | .emptyPoll scope b =>
    let f := (s.elem cfg b s.readOffset).flags
    some ({ s with
      empties := s.empties ++ [decide (f ≠ Flags.data ∧ f ≠ Flags.closed)] }.afterEmpty scope)

/-- The consumer's scope is destroyed: `finish_read`. -/
def release : Option (State V) :=
  match s.consumer with
  | .holding idx b =>
    let s := { (s.setElem cfg b idx { s.elem cfg b idx with data := none }).check
      (s.elem cfg b idx).data.isSome with readOffset := cfg.reg o (idx + 1) }
    if cfg.slot idx = 0 then some ({ s with readBlock := b }.tryReclaimBlocks o cfg b)
    else some (s.setConsumer .idle)
  | _ => none

/-- The consumer calls `empty()`. -/
def callEmpty : Option (State V) :=
  match s.consumer with
  | .idle => some (s.setConsumer (.emptyFind none (.load s.readBlock)))
  | .holding idx b => some (s.setConsumer (.emptyFind (some (idx, b)) (.load s.readBlock)))
  | _ => none

end State

/-- The moves of the tasks and of the consumer. -/
inductive Act (V : Type)
  /-- Task `p` calls `post(v)`. -/
  | post (p : Tid) (v : V)
  /-- Task `p` calls `post_bulk(Items, Count)`. -/
  | bulk (p : Tid) (items : Nat → V) (count : Nat)
  /-- Task `p` calls `close()`. -/
  | close (p : Tid)
  /-- Task `p` takes its next step. -/
  | task (p : Tid) (spurious : Bool)
  /-- The consumer calls `pull()` or `try_pull()`. -/
  | pull (k : Call)
  /-- The consumer calls `empty()`. -/
  | empty
  /-- The consumer takes its next step. -/
  | consumer (spurious : Bool)
  /-- The consumer destroys its scope. -/
  | release

/-- One step of the queue and its users.  A `Count` is a `size_t`. -/
def step {V : Type} (o : Offsets) (cfg : Config) (s : State V) : Act V → Option (State V)
  | .post p v =>
    match s.task p with
    | .idle => some (s.setTask p (.fetchTicket (.post v)))
    | _ => none
  | .bulk p items count =>
    match s.task p with
    | .idle =>
      if count < 2 ^ cfg.bits then
        some (if count = 0 then s else s.setTask p (.fetchTicket (.bulk items count)))
      else none
    | _ => none
  | .close p =>
    match s.task p with
    | .idle => some (s.setTask p .closeCas)
    | _ => none
  | .task p spurious => s.taskStep o cfg p spurious
  | .pull k =>
    match s.consumer with
    | .idle =>
      match k with
      | .pull =>
        if cfg.consumerCanSuspend then
          some ({ s with frame := s.frame + 1, began := s.posts.length }.setConsumer (.assertRead k))
        else none
      | .tryPull => some ({ s with began := s.posts.length }.setConsumer (.assertRead k))
    | _ => none
  | .empty => s.callEmpty
  | .consumer spurious => s.consumerStep o cfg spurious
  | .release => s.release o cfg

/-- The queue as a transition system. -/
def system (V : Type) (o : Offsets) (cfg : Config) : System (State V) (Act V) :=
  .ofStep .init (step o cfg)

end CoroUtil.MpscUnbounded
