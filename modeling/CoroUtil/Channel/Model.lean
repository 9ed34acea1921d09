import CoroUtil.Blocks.Model
import CoroUtil.General.System

/-!
# `channel`

The unbounded multi-producer multi-consumer queue and its tokens, one atomic
load, store or read-modify-write at a time.  `Pc` is the program counter of the
task that uses a token, and `State.tokenStep` runs its next atomic operation,
together with the private computation that follows it.

* `Offsets` says what the offsets and the counters are; `.wrapping` is what the code
  has.
* A `hazard_ptr` is named by the order of allocation, so `hazard_ptr_list`, which
  the constructor sets and nothing changes, is number 0.  Its
  `next_protect_write` and `next_protect_read` are only used by the task that owns
  it: these accesses are private.
* `blocks_lock.try_lock()` may fail spuriously: the label of the step says so.
* A `consumer_base*` is named by the token and the number of the call on it whose
  frame it lives in.
* The last fields of `State` are history: no branch reads them.  `broken`
  records a failed assertion, a value constructed over another, the resumption
  of a coroutine that is not suspended, and a null pointer that is followed,
  where the task stays.
-/

namespace CoroUtil.Channel

open CoroUtil.General CoroUtil.Blocks

/-- A `chan_tok` object. -/
abbrev Tid := Nat

/-- The configuration and the word size.  An element has a word of flags, so an
array of `BlockSize` elements that is an object has at most
`2 ^ (PLATFORM_BITS - 4)`. -/
structure Config extends Layout where
  platform : bits = 32 ∨ bits = 64
  log_le : log + 4 ≤ bits

/-- `InactiveHazptrOffset`. -/
def Config.inactive (cfg : Config) : Nat := 2 ^ (cfg.bits - 2)

/-- `hazard_ptr_list`. -/
def hazardPtrList : Nat := 0

/-- `element::flags`. -/
inductive Flags
  | null
  | data
  | both
  | consumer (t : Tid) (frame : Nat)
  deriving DecidableEq

instance : Zero Flags := ⟨.null⟩

/-- `closed`: 0, `WRITE_CLOSING_BIT`, and that with `WRITE_CLOSED_BIT`. -/
inductive Closed
  | no
  | closing
  | closed
  deriving DecidableEq

/-- `hazard_ptr`. -/
structure HazardPtr where
  owned : Bool
  next : Nat
  activeOffset : Nat
  writeBlock : Option Nat
  readBlock : Option Nat
  nextProtectWrite : Nat
  nextProtectRead : Nat

/-- `hazard_ptr()` with what its allocation sets. -/
def HazardPtr.new (cfg : Config) (owned : Bool) (next : Nat) : HazardPtr :=
  ⟨owned, next, cfg.inactive, none, none, 0, 0⟩

/-- What `post` and `post_bulk` are called with. -/
inductive Put (V : Type)
  | post (v : V)
  | bulk (items : Nat → V) (count : Nat)

namespace Put

variable {V : Type}

def count : Put V → Nat
  | post _ => 1
  | bulk _ count => count

def item : Put V → Nat → V
  | post v, _ => v
  | bulk items _, k => items k

/-- The index that the call leaves in `active_offset`: `Idx`, or `EndIdx`. -/
def left (idx : Nat) : Put V → Nat
  | post _ => idx
  | bulk _ count => idx + count

end Put

/-- The two ways to ask for a value. -/
inductive Read
  | pull
  | tryPull
  deriving DecidableEq

/-- An operation on a token. -/
inductive Call (V : Type)
  | put (w : Put V)
  | read (k : Read)

/-- Where `get_hazard_ptr` is: `rc` is `reclaimCount`, `p` is `ptr`. -/
inductive Acquire
  | loadCount
  -- get_hazard_ptr_impl
  | next (rc p : Nat)
  | owned (rc p n : Nat)
  | take (rc p n : Nat)
  | append (rc p n new : Nat)
  -- init_haz_ptr
  | headOffset (rc p : Nat)
  | headBlock (rc p off : Nat)
  | initActive (rc p off head : Nat)
  | initRead (rc p head : Nat)
  | initWrite (rc p head : Nat)
  -- the check of the split lock
  | count (rc p : Nat)
  | check (rc p : Nat)
  deriving DecidableEq

/-- Where `post` and `post_bulk` are.  `act` is `actOff`, `idx` the first index of
the ticket, and `k` counts the items that `post_bulk` has written. -/
inductive PutPc
  -- get_write_ticket, get_write_ticket_bulk
  | protect
  | fetchTicket (act : Nat)
  | loadBlock (act idx : Nat)
  | blockOffset (act idx b : Nat)
  | loadClosed (idx b boff : Nat)
  | spinClosed (idx b boff : Nat)
  | loadClosedAt (idx b boff : Nat)
  | reject (idx : Nat)
  | find (idx boff : Nat) (f : Find)
  | findEnd (idx boff b : Nat) (f : Find)
  | storeBlock (idx boff b target : Nat)
  | protectOffset (idx b target : Nat)
  -- write_element, the loop of post_bulk
  | emplace (idx k b : Nat)
  | publish (idx k b : Nat)
  | resumeConsumer (idx k b : Nat) (t : Tid) (frame : Nat)
  | nextBlock (idx k b : Nat)
  | release (idx : Nat)
  deriving DecidableEq

/-- What `try_advance_head` and its caller keep in variables: `OldHead`, its
offset, `ProtectIdx` and `hazptrCount`. -/
structure Scan where
  old : Nat
  oldOff : Nat
  protect : Nat
  count : Nat
  deriving DecidableEq

/-- The block pointer that `try_advance_hazptr_block` is called for. -/
inductive Side
  | write
  | read
  deriving DecidableEq

/-- Where `try_reclaim_blocks` is; `new` is `newHead`, `curr` and `n` are the
variables of `for_each_owned_hazptr`. -/
inductive TryReclaim
  | loadHead (protect : Nat)
  | loadCount (protect old : Nat)
  | oldOffset (protect old count : Nat)
  -- try_advance_head: the lowest offset that is protected
  | minNext (x : Scan) (curr : Nat)
  | minOwned (x : Scan) (curr n : Nat)
  | minActive (x : Scan) (curr n : Nat)
  -- its block; `again` says that the head is reduced
  | walk (x : Scan) (new : Nat) (again : Bool)
  | walkNext (x : Scan) (new : Nat) (again : Bool)
  -- try_advance_hazptr_block
  | advNext (x : Scan) (new curr : Nat)
  | advOwned (x : Scan) (new curr n : Nat)
  | advBlock (x : Scan) (new curr n : Nat) (side : Side)
  | advOffset (x : Scan) (new curr n : Nat) (side : Side) (b : Nat)
  | advNewOffset (x : Scan) (new curr n : Nat) (side : Side) (b boff : Nat)
  | advCas (x : Scan) (new curr n : Nat) (side : Side) (b : Nat)
  | advFailed (x : Scan) (new curr n : Nat) (side : Side) (b : Nat)
  | advActive (x : Scan) (new curr n : Nat) (side : Side)
  | reduce (x : Scan) (new : Nat)
  | assertRead (x : Scan) (new : Nat)
  | assertWrite (x : Scan) (new : Nat)
  -- the check of the split lock
  | storeHead (x : Scan) (new : Nat)
  | count (x : Scan) (new : Nat)
  | check (x : Scan) (new : Nat)
  | rollback (x : Scan)
  | newOffset (x : Scan) (new : Nat)
  | storeOffset (x : Scan) (new off : Nat)
  -- reclaim_blocks
  | move (r : Reclaim)
  | done
  deriving DecidableEq

/-- What an operation on a token returned.  `idx` is the index that it claimed or
observed and `v` what the element had; `woken` says that the `pull()` was suspended
and resumed by `close()`. -/
inductive Result (V : Type)
  | post (w : Put V) (idx : Nat) (ok : Bool)
  | ok (k : Read) (idx : Nat) (v : Option V)
  | empty (idx : Nat)
  | closed (k : Read) (idx : Nat) (woken : Bool)

/-- Where `pull` and `try_pull` are.  `woff` is what `try_pull` has loaded of
`write_offset`; it is `none` in a `pull`. -/
inductive ReadPc
  -- get_read_ticket
  | protect
  | claim (act : Nat)
  | loadBlock (act idx : Nat) (woff : Option Nat)
  | blockOffset (act idx : Nat) (woff : Option Nat) (b : Nat)
  | loadClosed (act idx b boff : Nat)
  | spinClosed (act idx b boff : Nat)
  | loadClosedAt (act idx b boff : Nat)
  | closedFind (idx : Nat) (f : Find)
  | setNotWaiting (idx b : Nat)
  | find (act idx : Nat) (woff : Option Nat) (boff : Nat) (f : Find)
  -- the loop of try_pull
  | loadRead (act : Nat)
  | loadWrite (act idx : Nat)
  | probe (act idx woff boff b : Nat)
  | cas (act idx woff boff b : Nat)
  | reload (act idx : Nat)
  | tryClosed (idx : Nat)
  | trySpin (idx : Nat)
  | tryClosedAt (idx : Nat)
  -- the exits without a value
  | leaveEmpty (idx : Nat)
  | leaveClosed (idx : Nat)
  -- an index has been claimed
  | storeBlock (idx : Nat) (woff : Option Nat) (boff b : Nat)
  | tryLock (idx : Nat) (woff : Option Nat) (b : Nat)
  | loadProtect (idx b : Nat)
  | reclaim (idx b : Nat) (r : TryReclaim)
  | unlock (idx b : Nat)
  -- aw_pull_impl
  | poll (idx b : Nat)
  | tryWait (idx b : Nat)
  | suspended (idx b : Nat) (ok : Bool)
  | resumed (idx b : Nat) (ok : Bool)
  -- a live scope, and its release
  | holding (idx b : Nat)
  | release (idx : Nat)
  deriving DecidableEq

/-- Where `close` is; `idx` is the variable of `wake_waiting_consumers` and `fin`
its `EndIdx`. -/
inductive ClosePc
  | lock
  | check
  | loadOffset
  | provisional (woff : Nat)
  | closing
  | ticket
  | closedAt (woff : Nat)
  | closed (woff : Nat)
  | loadRead (woff : Nat)
  -- wake_waiting_consumers
  | loadHead (idx fin : Nat)
  | find (idx fin : Nat) (f : Find)
  | spin (idx fin b : Nat)
  | notOk (idx fin b : Nat) (t : Tid) (frame : Nat)
  | resumeConsumer (idx fin b : Nat) (t : Tid) (frame : Nat)
  | unlock
  deriving DecidableEq

/-- Where `release_ownership` is. -/
inductive FreePc
  | writeBlock
  | readBlock
  | owned
  deriving DecidableEq

/-- What the task of a token is doing; `z` is the `hazard_ptr` it uses. -/
inductive Pc (V : Type)
  | idle
  | acquire (c : Call V) (a : Acquire)
  | put (z : Nat) (w : Put V) (q : PutPc)
  | read (z : Nat) (k : Read) (q : ReadPc)
  | close (q : ClosePc)
  | free (z : Nat) (q : FreePc)

/-- `chan_tok`: `live` says that its `chan` is this channel. -/
structure Token (V : Type) where
  live : Bool
  haz : Option Nat
  pc : Pc V
  /-- The number of the latest call, which names the frame of a `pull()`. -/
  frame : Nat

structure State (V : Type) where
  heap : Heap Flags V
  closed : Closed
  writeClosedAt : Nat
  hazPtrCounter : Nat
  hazard : Nat → HazardPtr
  /-- How many `hazard_ptr`s have been allocated. -/
  hazards : Nat
  writeOffset : Nat
  readOffset : Nat
  /-- Who holds `blocks_lock`. -/
  blocksLock : Option Tid
  reclaimCounter : Nat
  headBlock : Nat
  headOffset : Nat
  tailBlock : Nat
  token : Tid → Token V
  -- history
  /-- The head that the latest committed reclaim has stored. -/
  committed : Nat
  constructed : List (Nat × V)
  destroyed : List (Nat × V)
  log : List (Tid × Result V)
  /-- The last result that an operation using a `hazard_ptr` returned to the token
  that owns it. -/
  last : Nat → Option (Result V)
  closes : Nat
  broken : Bool

/-- `channel()` and the token that `make_channel` returns. -/
def State.init {V : Type} (cfg : Config) : State V where
  heap := ⟨fun _ => .new 0, 1⟩
  closed := .no
  writeClosedAt := 0
  hazPtrCounter := 0
  hazard := fun _ => .new cfg false hazardPtrList
  hazards := 1
  writeOffset := 0
  readOffset := 0
  blocksLock := none
  reclaimCounter := 0
  headBlock := 0
  headOffset := 0
  tailBlock := 0
  token := fun t => ⟨decide (t = 0), none, .idle, 0⟩
  committed := 0
  constructed := []
  destroyed := []
  log := []
  last := fun _ => none
  closes := 0
  broken := false

namespace State

variable {V : Type} (o : Offsets) (cfg : Config) (s : State V) (t : Tid)

def setToken (k : Token V) : State V := { s with token := Function.update s.token t k }

def setPc (pc : Pc V) : State V := s.setToken t { s.token t with pc }

def setHazard (z : Nat) (x : HazardPtr) : State V :=
  { s with hazard := Function.update s.hazard z x }

/-- `assert(b)`. -/
def check (b : Bool) : State V := { s with broken := s.broken || !b }

/-- `Block->offset`. -/
def offset (b : Nat) : Nat := (s.heap.block b).offset

/-- The element of block `b` that an index selects. -/
def elem (b idx : Nat) : Element Flags V := s.heap.elem b (cfg.slot idx)

def setElem (b idx : Nat) (e : Element Flags V) : State V :=
  { s with heap := s.heap.setElem b (cfg.slot idx) e }

def setFlags (b idx : Nat) (f : Flags) : State V :=
  s.setElem cfg b idx { s.elem cfg b idx with flags := f }

/-- `active_offset.store(off)`. -/
def setActive (z off : Nat) : State V := s.setHazard z { s.hazard z with activeOffset := off }

def getBlock (z : Nat) : Side → Option Nat
  | .write => (s.hazard z).writeBlock
  | .read => (s.hazard z).readBlock

/-- `write_block.store(b)` or `read_block.store(b)`. -/
def setBlock (z : Nat) (b : Option Nat) : Side → State V
  | .write => s.setHazard z { s.hazard z with writeBlock := b }
  | .read => s.setHazard z { s.hazard z with readBlock := b }

/-- An operation on token `t` returns `r`. -/
def note (z : Nat) (r : Result V) : State V :=
  { s with log := s.log ++ [(t, r)], last := Function.update s.last z (some r) }

/-- `active_offset.store(off + InactiveHazptrOffset)`, and the operation returns. -/
def leave (z off : Nat) : State V :=
  (s.setActive z (cfg.reg o (off + cfg.inactive))).setPc t .idle

/-- `ContinuationPolicy::resume` of the consumer that waits in a frame of token `u`. -/
def resumeConsumer (u : Tid) (frame : Nat) : State V :=
  match (s.token u).pc with
  | .read z k (.suspended idx b ok) =>
    if frame = (s.token u).frame then s.setPc u (.read z k (.resumed idx b ok)) else s.check false
  | _ => s.check false

/-- `Cons->ok = false`. -/
def consumerNotOk (u : Tid) (frame : Nat) : State V :=
  match (s.token u).pc with
  | .read z k (.suspended idx b _) =>
    if frame = (s.token u).frame then s.setPc u (.read z k (.suspended idx b false))
    else s.check false
  | _ => s.check false

/-- The call of an operation that has the hazard pointer. -/
def enter (z : Nat) : Call V → State V
  | .put w => s.setPc t (.put z w .protect)
  | .read k => s.setPc t (.read z k .protect)

def setAcquire (c : Call V) (a : Acquire) : State V := s.setPc t (.acquire c a)

/-- The rest of the loop of `get_hazard_ptr_impl` after a hazard pointer that has
an owner. -/
def passHazard (c : Call V) (rc p n : Nat) : State V :=
  if n = hazardPtrList then
    { s.setHazard s.hazards (.new cfg true n) with hazards := s.hazards + 1 }.setAcquire t c
      (.append rc p n s.hazards)
  else s.setAcquire t c (.next rc n)

/-- `get_hazard_ptr`. -/
def acquireStep (c : Call V) : Acquire → State V
  | .loadCount => s.setAcquire t c (.next s.reclaimCounter hazardPtrList)
  | .next rc p => s.setAcquire t c (.owned rc p (s.hazard p).next)
  | .owned rc p n =>
    if (s.hazard p).owned then s.passHazard cfg t c rc p n else s.setAcquire t c (.take rc p n)
  | .take rc p n =>
    if (s.hazard p).owned then s.passHazard cfg t c rc p n
    else (s.setHazard p { s.hazard p with owned := true }).setAcquire t c (.headOffset rc p)
  | .append rc p n new =>
    let next := (s.hazard p).next
    if next = n then
      (s.setHazard p { s.hazard p with next := new }).setAcquire t c (.headOffset rc new)
    else
      (s.setHazard new { s.hazard new with next }).setAcquire t c (.append rc p next new)
  | .headOffset rc p => s.setAcquire t c (.headBlock rc p s.headOffset)
  | .headBlock rc p off => s.setAcquire t c (.initActive rc p off s.headBlock)
  | .initActive rc p off head =>
    (s.setHazard p { s.hazard p with
      nextProtectWrite := off
      nextProtectRead := off
      activeOffset := cfg.reg o (off + cfg.inactive) }).setAcquire t c (.initRead rc p head)
  | .initRead rc p head =>
    (s.setBlock p (some head) .read).setAcquire t c (.initWrite rc p head)
  | .initWrite rc p head => (s.setBlock p (some head) .write).setAcquire t c (.count rc p)
  | .count rc p =>
    { s with hazPtrCounter := cfg.reg o (s.hazPtrCounter + 1) }.setAcquire t c (.check rc p)
  | .check rc p =>
    if s.reclaimCounter = rc then
      ({ s with last := Function.update s.last p none }.setToken t
        { s.token t with haz := some p }).enter t p c
    else s.setAcquire t c (.headOffset s.reclaimCounter p)

def setPut (z : Nat) (w : Put V) (q : PutPc) : State V := s.setPc t (.put z w q)

/-- The loop of `post_bulk` with `k` items written. -/
def afterItem (z : Nat) (w : Put V) (idx k b : Nat) : State V :=
  if cfg.reg o (idx + k) = cfg.reg o (idx + w.count) then s.setPut t z w (.release idx)
  else s.setPut t z w (.emplace idx k b)

/-- `post` and the loop of `post_bulk` once item `k` is published. -/
def afterWrite (z : Nat) (w : Put V) (idx k b : Nat) : State V :=
  match w with
  | .post v => s.setPut t z (.post v) (.release idx)
  | .bulk items count =>
    if cfg.slot (cfg.reg o (idx + (k + 1))) = 0 then
      s.setPut t z (.bulk items count) (.nextBlock idx (k + 1) b)
    else s.afterItem o cfg t z (.bulk items count) idx (k + 1) b

/-- `post` and `post_bulk`. -/
def putStep (z : Nat) (w : Put V) : PutPc → State V
  | .protect =>
    let act := (s.hazard z).nextProtectWrite
    (s.setActive z act).setPut t z w (.fetchTicket act)
  | .fetchTicket act =>
    { s with writeOffset := cfg.reg o (s.writeOffset + w.count) }.setPut t z w
      (.loadBlock act s.writeOffset)
  | .loadBlock act idx =>
    match (s.hazard z).writeBlock with
    | some b => s.setPut t z w (.blockOffset act idx b)
    | none => s.check false
  | .blockOffset act idx b =>
    (s.check (cfg.less o act (cfg.reg o (1 + idx)) &&
      cfg.less o (s.offset b) (cfg.reg o (1 + idx)))).setPut t z w (.loadClosed idx b (s.offset b))
  | .loadClosed idx b boff =>
    match s.closed with
    | .no => s.setPut t z w (.find idx boff (.load b))
    | .closing => s.setPut t z w (.spinClosed idx b boff)
    | .closed => s.setPut t z w (.loadClosedAt idx b boff)
  | .spinClosed idx b boff =>
    match s.closed with
    | .closed => s.setPut t z w (.loadClosedAt idx b boff)
    | _ => s.setPut t z w (.spinClosed idx b boff)
  | .loadClosedAt idx b boff =>
    if cfg.less o s.writeClosedAt (cfg.reg o (1 + idx)) then s.setPut t z w (.reject idx)
    else s.setPut t z w (.find idx boff (.load b))
  | .reject idx => (s.note t z (.post w idx false)).leave o cfg t z (w.left idx)
  | .find idx boff f =>
    let (heap, ok, f) := f.step o cfg.toLayout idx s.heap
    let s := { s with heap }.check ok
    match f, w with
    | .found b, .bulk _ count =>
      if count = 0 then s.setPut t z w (.storeBlock idx boff b b)
      else s.setPut t z w (.findEnd idx boff b (.load b))
    | .found b, .post _ => s.setPut t z w (.storeBlock idx boff b b)
    | f, _ => s.setPut t z w (.find idx boff f)
  | .findEnd idx boff b f =>
    let last := cfg.reg o (idx + w.count - 1)
    let (heap, ok, f) := f.step o cfg.toLayout last s.heap
    let s := { s with heap }.check ok
    match f with
    | .found target => s.setPut t z w (.storeBlock idx boff b target)
    | f => s.setPut t z w (.findEnd idx boff b f)
  | .storeBlock idx boff b target =>
    let s := s.setBlock z (some target) .write
    match w with
    | .post _ =>
      (s.setHazard z { s.hazard z with nextProtectWrite := boff }).setPut t z w (.emplace idx 0 b)
    | .bulk _ _ => s.setPut t z w (.protectOffset idx b target)
  | .protectOffset idx b target =>
    (s.setHazard z { s.hazard z with nextProtectWrite := s.offset target }).afterItem o cfg t z w
      idx 0 b
  | .emplace idx k b =>
    let i := cfg.reg o (idx + k)
    { (s.setElem cfg b i { s.elem cfg b i with data := some (w.item k) }).check
      (s.elem cfg b i).data.isNone with constructed := s.constructed ++ [(i, w.item k)] }.setPut t z
      w (.publish idx k b)
  | .publish idx k b =>
    let i := cfg.reg o (idx + k)
    match (s.elem cfg b i).flags with
    | .null => (s.setFlags cfg b i .data).afterWrite o cfg t z w idx k b
    | .consumer u frame => s.setPut t z w (.resumeConsumer idx k b u frame)
    | _ => (s.check false).afterWrite o cfg t z w idx k b
  | .resumeConsumer idx k b u frame =>
    (s.resumeConsumer u frame).afterWrite o cfg t z w idx k b
  | .nextBlock idx k b =>
    match (s.heap.block b).next with
    | some n => s.afterItem o cfg t z w idx k n
    | none =>
      let s := s.check (!cfg.less o (cfg.reg o (idx + k)) (cfg.reg o (idx + w.count)))
      if cfg.reg o (idx + k) = cfg.reg o (idx + w.count) then s.setPut t z w (.release idx)
      else s.check false
  | .release idx => (s.note t z (.post w idx true)).leave o cfg t z (w.left idx)

/-- `keep_min(Dst, Src)` on the variable `ProtectIdx`. -/
def keepMin (x : Scan) (src : Nat) : Scan :=
  if cfg.less o src x.protect then { x with protect := src } else x

/-- The predicate of both calls of `for_each_owned_hazptr`. -/
def scans (x : Scan) : Bool := cfg.less o x.oldOff x.protect

/-- `try_advance_head` once the lowest protected offset is known. -/
def endMin (x : Scan) : TryReclaim :=
  if cfg.less o x.protect (cfg.reg o (1 + x.oldOff)) then .done else .walk x x.old false

/-- The first `for_each_owned_hazptr`, called for `z`, is through with a node. -/
def afterMin (z : Nat) (x : Scan) (n : Nat) : TryReclaim :=
  if n = z then endMin o cfg x else if scans o cfg x then .minNext x n else endMin o cfg x

/-- The second `for_each_owned_hazptr` is through with a node. -/
def afterAdv (z : Nat) (x : Scan) (new n : Nat) : TryReclaim :=
  if n = z then .reduce x new else if scans o cfg x then .advNext x new n else .reduce x new

/-- The calls of `try_advance_hazptr_block` for a node. -/
def afterSide (z : Nat) (x : Scan) (new curr n : Nat) : Side → TryReclaim
  | .write => .advBlock x new curr n .read
  | .read => afterAdv o cfg z x new n

/-- `try_advance_head` returns. -/
def afterHead (x : Scan) (new : Nat) : TryReclaim :=
  if new = x.old then .done else .storeHead x new

/-- `try_reclaim_blocks` for the hazard pointer `z`. -/
def reclaimStep (z : Nat) : TryReclaim → State V × TryReclaim
  | .loadHead protect => (s, .loadCount protect s.headBlock)
  | .loadCount protect old => (s, .oldOffset (cfg.base protect) old s.hazPtrCounter)
  | .oldOffset protect old count =>
    let x : Scan := ⟨old, s.offset old, protect, count⟩
    (s, if scans o cfg x then .minNext x z else endMin o cfg x)
  | .minNext x curr => (s, .minOwned x curr (s.hazard curr).next)
  | .minOwned x curr n =>
    (s, if (s.hazard curr).owned then .minActive x curr n else afterMin o cfg z x n)
  | .minActive x curr n =>
    (s, afterMin o cfg z (keepMin o cfg x (s.hazard curr).activeOffset) n)
  | .walk x new again =>
    (s, if cfg.less o (s.offset new) x.protect then .walkNext x new again
      else if again then .assertRead x new
      else if scans o cfg x then .advNext x new z
      else .reduce x new)
  | .walkNext x new again =>
    match (s.heap.block new).next with
    | some n => (s, .walk x n again)
    | none => (s.check false, .walkNext x new again)
  | .advNext x new curr => (s, .advOwned x new curr (s.hazard curr).next)
  | .advOwned x new curr n =>
    (s, if (s.hazard curr).owned then .advBlock x new curr n .write else afterAdv o cfg z x new n)
  | .advBlock x new curr n side =>
    (s, match s.getBlock curr side with
      | none => afterSide o cfg z x new curr n side
      | some b => .advOffset x new curr n side b)
  | .advOffset x new curr n side b => (s, .advNewOffset x new curr n side b (s.offset b))
  | .advNewOffset x new curr n side b boff =>
    (s, if cfg.less o boff (s.offset new) then .advCas x new curr n side b
      else afterSide o cfg z x new curr n side)
  | .advCas x new curr n side b =>
    if s.getBlock curr side = some b then
      (s.setBlock curr (some new) side, .advActive x new curr n side)
    else
      (s, match s.getBlock curr side with
        | none => afterSide o cfg z x new curr n side
        | some b => .advFailed x new curr n side b)
  | .advFailed x new curr n side b =>
    (s, .advActive (keepMin o cfg x (s.offset b)) new curr n side)
  | .advActive x new curr n side =>
    (s, afterSide o cfg z (keepMin o cfg x (s.hazard curr).activeOffset) new curr n side)
  | .reduce x new =>
    (s, if cfg.less o x.protect (s.offset new) then .walk x x.old true else .assertRead x new)
  | .assertRead x new =>
    (s.check (cfg.less o (s.offset new) (cfg.reg o (1 + s.readOffset))), .assertWrite x new)
  | .assertWrite x new =>
    (s.check (cfg.less o (s.offset new) (cfg.reg o (1 + s.writeOffset))), afterHead x new)
  | .storeHead x new => ({ s with headBlock := new }, .count x new)
  | .count x new => ({ s with reclaimCounter := cfg.reg o (s.reclaimCounter + 1) }, .check x new)
  | .check x new =>
    if x.count = s.hazPtrCounter then ({ s with committed := new }, .newOffset x new)
    else (s, .rollback x)
  | .rollback x => ({ s with headBlock := x.old }, .done)
  | .newOffset x new => (s, .storeOffset x new (s.offset new))
  | .storeOffset x new off => ({ s with headOffset := off }, .move (.gather [] x.old new))
  | .move r =>
    let (heap, tailBlock, ok, r) := r.step o cfg.toLayout s.heap s.tailBlock
    ({ s with heap, tailBlock }.check ok, match r with
      | .done => .done
      | r => .move r)
  | .done => (s, .done)

def setRead (z : Nat) (k : Read) (q : ReadPc) : State V := s.setPc t (.read z k q)

/-- The scope over the element at `idx` is handed to the token. -/
def handOut (z : Nat) (k : Read) (idx b : Nat) : State V :=
  ((s.check (s.elem cfg b idx).data.isSome).note t z (.ok k idx (s.elem cfg b idx).data)).setRead t
    z k (.holding idx b)

/-- `get_read_ticket` returns the element to `pull`, or `try_pull` returns a scope
over it. -/
def afterTake (z : Nat) (k : Read) (idx b : Nat) : State V :=
  match k with
  | .pull => s.setRead t z .pull (.poll idx b)
  | .tryPull => s.handOut cfg t z .tryPull idx b

/-- `pull` and `try_pull`, and the release of a scope. -/
def readStep (spurious : Bool) (z : Nat) (k : Read) : ReadPc → Option (State V)
  | .protect =>
    let act := (s.hazard z).nextProtectRead
    some ((s.setActive z act).setRead t z k (match k with
      | .pull => .claim act
      | .tryPull => .loadRead act))
  | .claim act =>
    some ({ s with readOffset := cfg.reg o (s.readOffset + 1) }.setRead t z k
      (.loadBlock act s.readOffset none))
  | .loadBlock act idx woff =>
    match (s.hazard z).readBlock with
    | some b => some (s.setRead t z k (.blockOffset act idx woff b))
    | none => some (s.check false)
  | .blockOffset act idx woff b =>
    some ((s.check (cfg.less o act (cfg.reg o (1 + idx)) &&
      cfg.less o (s.offset b) (cfg.reg o (1 + idx)))).setRead t z k (match woff with
        | none => .loadClosed act idx b (s.offset b)
        | some woff => .find act idx (some woff) (s.offset b) (.load b)))
  | .loadClosed act idx b boff =>
    some (s.setRead t z k (match s.closed with
      | .no => .find act idx none boff (.load b)
      | .closing => .spinClosed act idx b boff
      | .closed => .loadClosedAt act idx b boff))
  | .spinClosed act idx b boff =>
    some (s.setRead t z k (match s.closed with
      | .closed => .loadClosedAt act idx b boff
      | _ => .spinClosed act idx b boff))
  | .loadClosedAt act idx b boff =>
    some (s.setRead t z k (if cfg.less o s.writeClosedAt (cfg.reg o (1 + idx)) then
      .closedFind idx (.load b) else .find act idx none boff (.load b)))
  | .closedFind idx f =>
    let (heap, ok, f) := f.step o cfg.toLayout idx s.heap
    let s := { s with heap }.check ok
    some (s.setRead t z k (match f with
      | .found b => .setNotWaiting idx b
      | f => .closedFind idx f))
  | .setNotWaiting idx b => some ((s.setFlags cfg b idx .both).setRead t z k (.leaveClosed idx))
  | .find act idx woff boff f =>
    let (heap, ok, f) := f.step o cfg.toLayout idx s.heap
    let s := { s with heap }.check ok
    some (s.setRead t z k (match f, woff with
      | .found b, none => .storeBlock idx none boff b
      | .found b, some woff => .probe act idx woff boff b
      | f, woff => .find act idx woff boff f))
  | .loadRead act => some (s.setRead t z k (.loadWrite act s.readOffset))
  | .loadWrite act idx =>
    some (s.setRead t z k (if cfg.less o s.writeOffset (cfg.reg o (idx + 1)) then .tryClosed idx
      else .loadBlock act idx (some s.writeOffset)))
  | .probe act idx woff boff b =>
    some (s.setRead t z k (match (s.elem cfg b idx).flags with
      | .data => .cas act idx woff boff b
      | _ => .reload act idx))
  | .cas act idx woff boff b =>
    if s.readOffset = idx then
      some ({ s with readOffset := cfg.reg o (idx + 1) }.setRead t z k
        (.storeBlock idx (some woff) boff b))
    else some (s.setRead t z k (.loadWrite act s.readOffset))
  | .reload act idx =>
    some (s.setRead t z k (if s.readOffset = idx then .tryClosed idx
      else .loadWrite act s.readOffset))
  | .tryClosed idx =>
    some (s.setRead t z k (match s.closed with
      | .no => .leaveEmpty idx
      | .closing => .trySpin idx
      | .closed => .tryClosedAt idx))
  | .trySpin idx =>
    some (s.setRead t z k (match s.closed with
      | .closed => .tryClosedAt idx
      | _ => .trySpin idx))
  | .tryClosedAt idx =>
    some (s.setRead t z k (if cfg.less o s.writeClosedAt (cfg.reg o (1 + idx)) then
      .leaveClosed idx else .leaveEmpty idx))
  | .leaveEmpty idx => some ((s.note t z (.empty idx)).leave o cfg t z idx)
  | .leaveClosed idx => some ((s.note t z (.closed k idx false)).leave o cfg t z idx)
  | .storeBlock idx woff boff b =>
    let s := s.setBlock z (some b) .read
    let s := s.setHazard z { s.hazard z with nextProtectRead := boff }
    if cfg.slot idx = 1 then some (s.setRead t z k (.tryLock idx woff b))
    else some (s.afterTake cfg t z k idx b)
  | .tryLock idx woff b =>
    if spurious = false ∧ s.blocksLock = none then
      some ({ s with blocksLock := some t }.setRead t z k (match woff with
        | none => .loadProtect idx b
        | some woff => .reclaim idx b (.loadHead woff)))
    else some (s.afterTake cfg t z k idx b)
  | .loadProtect idx b => some (s.setRead t z k (.reclaim idx b (.loadHead s.writeOffset)))
  | .reclaim idx b r =>
    let (s, r) := s.reclaimStep o cfg z r
    some (s.setRead t z k (match r with
      | .done => .unlock idx b
      | r => .reclaim idx b r))
  | .unlock idx b => some ({ s with blocksLock := none }.afterTake cfg t z k idx b)
  | .poll idx b =>
    match (s.elem cfg b idx).flags with
    | .data => some (s.handOut cfg t z k idx b)
    | _ => some (s.setRead t z k (.tryWait idx b))
  | .tryWait idx b =>
    match (s.elem cfg b idx).flags with
    | .null =>
      some ((s.setFlags cfg b idx (.consumer t (s.token t).frame)).setRead t z k
        (.suspended idx b true))
    | _ => some (s.handOut cfg t z k idx b)
  | .suspended _ _ _ => none
  | .resumed idx b ok =>
    if ok then some (s.handOut cfg t z k idx b)
    else some ((s.note t z (.closed k idx true)).setPc t .idle)
  | .holding _ _ => none
  | .release idx => some (s.leave o cfg t z idx)

def setClose (q : ClosePc) : State V := s.setPc t (.close q)

/-- The loop of `wake_waiting_consumers` goes on after `idx`. -/
def afterWake (idx fin b : Nat) : State V :=
  let idx := cfg.reg o (idx + 1)
  if cfg.less o idx fin then
    s.setClose t (if cfg.slot idx = 0 then .find idx fin (.load b) else .spin idx fin b)
  else s.setClose t .unlock

/-- `close`. -/
def closeStep : ClosePc → Option (State V)
  | .lock =>
    match s.blocksLock with
    | none => some ({ s with blocksLock := some t }.setClose t .check)
    | some _ => none
  | .check =>
    match s.closed with
    | .no => some (s.setClose t .loadOffset)
    | _ => some (s.setClose t .unlock)
  | .loadOffset => some (s.setClose t (.provisional s.writeOffset))
  | .provisional woff =>
    some ({ s with writeClosedAt := cfg.reg o (woff + cfg.inactive) }.setClose t .closing)
  | .closing => some ({ s with closed := .closing }.setClose t .ticket)
  | .ticket =>
    some ({ s with writeOffset := cfg.reg o (s.writeOffset + 1) }.setClose t
      (.closedAt s.writeOffset))
  | .closedAt woff => some ({ s with writeClosedAt := woff }.setClose t (.closed woff))
  | .closed woff => some ({ s with closed := .closed }.setClose t (.loadRead woff))
  | .loadRead woff =>
    some (s.setClose t (if cfg.less o woff s.readOffset then .loadHead woff s.readOffset
      else .unlock))
  | .loadHead idx fin => some (s.setClose t (.find idx fin (.load s.headBlock)))
  | .find idx fin f =>
    let (heap, ok, f) := f.step o cfg.toLayout idx s.heap
    let s := { s with heap }.check ok
    some (s.setClose t (match f with
      | .found b => .spin idx fin b
      | f => .find idx fin f))
  | .spin idx fin b =>
    match (s.elem cfg b idx).flags with
    | .null => some (s.setClose t (.spin idx fin b))
    | .both => some (s.afterWake o cfg t idx fin b)
    | .consumer u frame => some (s.setClose t (.notOk idx fin b u frame))
    | .data => some ((s.check false).setClose t .unlock)
  | .notOk idx fin b u frame =>
    some ((s.consumerNotOk u frame).setClose t (.resumeConsumer idx fin b u frame))
  | .resumeConsumer idx fin b u frame =>
    some ((s.resumeConsumer u frame).afterWake o cfg t idx fin b)
  | .unlock =>
    some ({ s with blocksLock := none, closes := s.closes + 1 }.setPc t .idle)

/-- `release_ownership`, and the token gives up its hazard pointer. -/
def freeStep (z : Nat) : FreePc → State V
  | .writeBlock => (s.setBlock z none .write).setPc t (.free z .readBlock)
  | .readBlock => (s.setBlock z none .read).setPc t (.free z .owned)
  | .owned =>
    (s.setHazard z { s.hazard z with owned := false }).setToken t
      { s.token t with haz := none, pc := .idle }

/-- The next step of the task that uses token `t`. -/
def tokenStep (spurious : Bool) : Option (State V) :=
  match (s.token t).pc with
  | .idle => none
  | .acquire c a => some (s.acquireStep o cfg t c a)
  | .put z w q => some (s.putStep o cfg t z w q)
  | .read z k q => s.readStep o cfg t spurious z k q
  | .close q => s.closeStep o cfg t q
  | .free z q => some (s.freeStep t z q)

/-- `free_hazard_ptr`; `live` says whether the token keeps its `chan`. -/
def freeHazardPtr (live : Bool) : State V :=
  match (s.token t).haz with
  | some z => s.setToken t { s.token t with live, pc := .free z .writeBlock }
  | none => s.setToken t { s.token t with live }

/-- An operation is called on token `t`. -/
def call (c : Call V) : State V :=
  match (s.token t).haz with
  | some z => s.enter t z c
  | none => s.setPc t (.acquire c .loadCount)

/-- The value that a scope holds is destroyed. -/
def destroyValue (z : Nat) (k : Read) (idx b : Nat) : State V :=
  { (s.setElem cfg b idx { s.elem cfg b idx with data := none }).check
    (s.elem cfg b idx).data.isSome with
    destroyed := s.destroyed ++ ((s.elem cfg b idx).data.map (idx, ·)).toList }.setRead t z k
    (.release idx)

end State

/-- The moves of the tasks that use the tokens. -/
inductive Act (V : Type)
  /-- `t` is made, or assigned to, as a copy of `u`. -/
  | copy (u t : Tid)
  /-- `t`, which has no hazard pointer of this channel, is made, or assigned to, by
  a move from `u`. -/
  | move (u t : Tid)
  /-- `t` is assigned to by a move from `u`, and both have this channel. -/
  | assign (u t : Tid)
  /-- `t` is destroyed, or gets another channel. -/
  | destroy (t : Tid)
  /-- `post`, `post_bulk`, `pull` or `try_pull` is called. -/
  | call (t : Tid) (c : Call V)
  | close (t : Tid)
  /-- The task that uses `t` takes its next step. -/
  | step (t : Tid) (spurious : Bool)
  /-- The scope that `t` has handed out is destroyed. -/
  | release (t : Tid)

/-- A token that can be used. -/
def State.ready {V : Type} (s : State V) (t : Tid) : Bool :=
  match (s.token t).pc with
  | .idle => (s.token t).live
  | _ => false

/-- A token object without a channel, or whose channel is another one. -/
def State.vacant {V : Type} (s : State V) (t : Tid) : Bool :=
  match (s.token t).pc with
  | .idle => !(s.token t).live
  | _ => false

/-- The arguments of a call: a `Count` is a `size_t`. -/
def Call.valid {V : Type} (cfg : Config) : Call V → Bool
  | .put (.bulk _ count) => decide (count < 2 ^ cfg.bits)
  | _ => true

/-- One step of the channel and its users. -/
def step {V : Type} (o : Offsets) (cfg : Config) (s : State V) : Act V → Option (State V)
  | .copy u t =>
    if (s.token u).live ∧ s.vacant t then
      some (s.setToken t { s.token t with live := true })
    else none
  | .move u t =>
    if s.ready u ∧ s.vacant t then
      some ((s.setToken t { s.token t with live := true, haz := (s.token u).haz }).setToken u
        { s.token u with live := false, haz := none })
    else none
  | .assign u t =>
    if s.ready u ∧ s.ready t then
      if u = t then some (s.freeHazardPtr t true)
      else if (s.token t).haz.isSome then some (s.freeHazardPtr u false)
      else
        some ((s.setToken t { s.token t with haz := (s.token u).haz }).setToken u
          { s.token u with live := false, haz := none })
    else none
  | .destroy t => if s.ready t then some (s.freeHazardPtr t false) else none
  | .call t c =>
    if s.ready t ∧ c.valid cfg then
      some ((s.setToken t { s.token t with frame := (s.token t).frame + 1 }).call t c)
    else none
  | .close t => if s.ready t then some (s.setClose t .lock) else none
  | .step t spurious => s.tokenStep o cfg t spurious
  | .release t =>
    match (s.token t).pc with
    | .read z k (.holding idx b) => some (s.destroyValue cfg t z k idx b)
    | _ => none

/-- The channel as a transition system. -/
def system (V : Type) (o : Offsets) (cfg : Config) : System (State V) (Act V) :=
  .ofStep (.init cfg) (step o cfg)

end CoroUtil.Channel
