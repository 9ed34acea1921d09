import CoroUtil.Blocks.Bare
import CoroUtil.Channel.Resting

/-!
# What the tasks do with the blocks

`Phase` is what an operation has to do with the blocks: it protects the block that it
will start from, takes its ticket, loads the pointer, walks to the block of its index,
stores the pointer and works on the block.  `Sight` is what is left of the channel when
only that is looked at: the elements, `closed` and the history are not in it, and a task
is a `Task`.
-/

namespace CoroUtil.Channel

open CoroUtil.Blocks

variable {V : Type}

/-- `side` is the block pointer of the operation, `idx` the first index of its ticket,
`last` its last one and `stop` the index behind it.  `act` is its `actOff`, and `boff`
the offset of the block that it started from. -/
inductive Phase
  | out
  | guards (side : Side) (act : Nat)
  | ticket (side : Side) (act idx : Nat)
  | loaded (side : Side) (act idx b : Nat)
  | seeks (side : Side) (act : Option Nat) (idx : Nat) (boff : Option Nat) (f : Find)
  -- post_bulk: the walk to the last block, and its store
  | ends (idx last boff b : Nat) (f : Find)
  | swaps (idx last b target : Nat)
  -- `b` is the block of `n`, or the one before it
  | has (side : Side) (idx n stop b : Nat)
  | crosses (idx n stop b : Nat)
  deriving DecidableEq

namespace Phase

/-- The block pointer that it uses. -/
def side : Phase → Option Side
  | guards side _ | ticket side _ _ | loaded side _ _ _ | seeks side _ _ _ _ | has side _ _ _ _ =>
    some side
  | ends .. | swaps .. | crosses .. => some .write
  | out => none

/-- The index that an operation has claimed or observed. -/
def idx : Phase → Option Nat
  | ticket _ _ idx | loaded _ _ idx _ | seeks _ _ idx _ _ | ends idx _ _ _ _ | swaps idx _ _ _
  | has _ idx _ _ _ | crosses idx _ _ _ => some idx
  | out | guards .. => none

/-- It is on its way from the block that it has loaded. -/
def looks : Phase → Bool
  | loaded .. | seeks .. | ends .. => true
  | out | guards .. | ticket .. | swaps .. | has .. | crosses .. => false

end Phase

/-- What the task of a token does.  In `locks`, `reclaims`, `closes`, `marks` and `walks`
it holds `blocks_lock`. -/
inductive Task
  | rest
  | acquires (a : Acquire)
  /-- An operation, which knows that `write_offset` has passed `top`. -/
  | uses (z : Nat) (p : Phase) (top : Nat)
  | locks (z idx b : Nat)
  | reclaims (z idx b : Nat) (r : TryReclaim)
  -- close
  | waits
  | closes
  | marks (idx : Nat)
  | walks (idx : Nat) (f : Find)
  | frees (z : Nat)

namespace Acquire

/-- `reclaimCount`. -/
def rc : Acquire → Option Nat
  | loadCount => none
  | next rc _ | owned rc _ _ | take rc _ _ | append rc _ _ _ | headOffset rc _ | headBlock rc _ _
  | initActive rc _ _ _ | initRead rc _ _ | initWrite rc _ _ | count rc _ | check rc _ => some rc

/-- The variable `head`. -/
def head : Acquire → Option Nat
  | initActive _ _ _ head | initRead _ _ head | initWrite _ _ head => some head
  | loadCount | next .. | owned .. | take .. | append .. | headOffset .. | headBlock .. | count ..
  | check .. => none

end Acquire

namespace Task

def role : Task → Role
  | rest => .idle
  | acquires a => .acquire a
  | uses z _ _ | locks z _ _ | reclaims z _ _ _ => .uses z
  | waits | closes | marks _ | walks .. => .close
  | frees z => .free z

/-- The hazard pointer of an operation, and its phase. -/
def doing : Task → Option (Nat × Phase)
  | uses z p _ => some (z, p)
  | locks z idx b | reclaims z idx b _ => some (z, .has .read idx idx (idx + 1) b)
  | rest | acquires _ | waits | closes | marks _ | walks .. | frees _ => none

def phase (k : Task) : Phase := (k.doing.map Prod.snd).getD .out

def locked : Task → Bool
  | locks .. | reclaims .. | closes | marks _ | walks .. => true
  | rest | acquires _ | uses .. | waits | frees _ => false

/-- The hazard pointer that `try_reclaim_blocks` is called for, the index of the operation
that has called it, and where it is. -/
def run : Task → Option (Nat × Nat × TryReclaim)
  | reclaims z idx _ r => some (z, idx, r)
  | rest | acquires _ | uses .. | locks .. | waits | closes | marks _ | walks .. | frees _ => none

/-- It keeps the hazard pointer of its token. -/
def keeps : Task → Bool
  | frees _ => false
  | rest | acquires _ | uses .. | locks .. | reclaims .. | waits | closes | marks _ | walks .. =>
    true

end Task

/-- The last index of a call. -/
def Put.last (w : Put V) (idx : Nat) : Nat := idx + (w.count - 1)

def PutPc.phase (w : Put V) : PutPc → Phase
  | protect | reject _ | release _ => .out
  | fetchTicket act => .guards .write act
  | loadBlock act idx => .ticket .write act idx
  | blockOffset act idx b => .loaded .write act idx b
  | loadClosed idx b boff | spinClosed idx b boff | loadClosedAt idx b boff =>
    .seeks .write none idx (some boff) (.load b)
  | find idx boff f => .seeks .write none idx (some boff) f
  | findEnd idx boff b f => .ends idx (idx + w.count - 1) boff b f
  | storeBlock idx boff b target => .ends idx (w.last idx) boff b (.found target)
  | protectOffset idx b target => .swaps idx (w.last idx) b target
  | emplace idx k b | publish idx k b | resumeConsumer idx k b _ _ =>
    .has .write idx (idx + k) (idx + w.count) b
  | nextBlock idx k b => .crosses idx (idx + k) (idx + w.count) b

/-- What it knows `write_offset` to have passed. -/
def PutPc.top (w : Put V) : PutPc → Nat
  | loadBlock _ idx | blockOffset _ idx _ | loadClosed idx _ _ | spinClosed idx _ _
  | loadClosedAt idx _ _ | find idx _ _ => w.last idx
  | _ => 0

def ReadPc.phase : ReadPc → Phase
  | protect | tryClosed _ | trySpin _ | tryClosedAt _ | leaveEmpty _ | leaveClosed _ | release _ =>
    .out
  | claim act | loadRead act => .guards .read act
  | loadBlock act idx _ | loadWrite act idx | reload act idx => .ticket .read act idx
  | blockOffset act idx _ b => .loaded .read act idx b
  | loadClosed act idx b boff | spinClosed act idx b boff | loadClosedAt act idx b boff =>
    .seeks .read (some act) idx (some boff) (.load b)
  | closedFind idx f => .seeks .read none idx none f
  | setNotWaiting idx b => .seeks .read none idx none (.found b)
  | find act idx _ boff f => .seeks .read (some act) idx (some boff) f
  | probe act idx _ boff b | cas act idx _ boff b =>
    .seeks .read (some act) idx (some boff) (.found b)
  | storeBlock idx _ boff b => .seeks .read none idx (some boff) (.found b)
  | tryLock idx _ b | loadProtect idx b | reclaim idx b _ | unlock idx b | poll idx b
  | tryWait idx b | suspended idx b _ | resumed idx b _ | holding idx b =>
    .has .read idx idx (idx + 1) b

def ReadPc.top : ReadPc → Nat
  | loadBlock _ _ woff | blockOffset _ _ woff _ | find _ _ woff _ _ | storeBlock _ woff _ _
  | tryLock _ woff _ => woff.getD 0
  | probe _ _ woff _ _ | cas _ _ woff _ _ => woff
  | _ => 0

/-- An index has been claimed. -/
def ReadPc.claimed : ReadPc → Bool
  | storeBlock .. | tryLock .. | loadProtect .. | reclaim .. | unlock .. | poll .. | tryWait ..
  | suspended .. | resumed .. | holding .. | release _ => true
  | _ => false

def ReadPc.task (z : Nat) : ReadPc → Task
  | loadProtect idx b | unlock idx b => .locks z idx b
  | reclaim idx b r => .reclaims z idx b r
  | q => .uses z q.phase q.top

def ClosePc.task : ClosePc → Task
  | lock => .waits
  | check | loadOffset | provisional _ | closing | ticket | unlock => .closes
  | closedAt woff | closed woff | loadRead woff | loadHead woff _ => .marks woff
  | find idx _ f => .walks idx f
  | spin idx _ b | notOk idx _ b _ _ | resumeConsumer idx _ b _ _ => .walks idx (.found b)

namespace Pc

def task : Pc V → Task
  | idle => .rest
  | acquire _ a => .acquires a
  | put z w q => .uses z (q.phase w) (q.top w)
  | read z _ q => q.task z
  | close q => q.task
  | free z _ => .frees z

theorem role_task (pc : Pc V) : pc.task.role = pc.role := by
  cases pc with
  | read z k q => cases q <;> rfl
  | close q => cases q <;> rfl
  | _ => rfl

end Pc

/-- `write_block` or `read_block`. -/
def HazardPtr.block (x : HazardPtr) : Side → Option Nat
  | .write => x.writeBlock
  | .read => x.readBlock

theorem State.getBlock_eq {s : State V} {z : Nat} {side : Side} :
    s.getBlock z side = (s.hazard z).block side := by
  cases side <;> rfl

/-- `next_protect_write` or `next_protect_read`. -/
def HazardPtr.nextProtect (x : HazardPtr) : Side → Nat
  | .write => x.nextProtectWrite
  | .read => x.nextProtectRead

structure Sight where
  heap : Heap Unit Empty
  hazPtrCounter : Nat
  hazard : Nat → HazardPtr
  hazards : Nat
  writeOffset : Nat
  readOffset : Nat
  blocksLock : Option Tid
  reclaimCounter : Nat
  headBlock : Nat
  headOffset : Nat
  tailBlock : Nat
  committed : Nat
  live : Tid → Bool
  haz : Tid → Option Nat
  task : Tid → Task

def State.sight (s : State V) : Sight where
  heap := s.heap.bare
  hazPtrCounter := s.hazPtrCounter
  hazard := s.hazard
  hazards := s.hazards
  writeOffset := s.writeOffset
  readOffset := s.readOffset
  blocksLock := s.blocksLock
  reclaimCounter := s.reclaimCounter
  headBlock := s.headBlock
  headOffset := s.headOffset
  tailBlock := s.tailBlock
  committed := s.committed
  live t := (s.token t).live
  haz t := (s.token t).haz
  task t := (s.token t).pc.task

namespace Sight

variable (S : Sight) (t : Tid) (z : Nat)

def view : View := ⟨S.live t, S.haz t, (S.task t).role⟩

def owned : Bool := (S.hazard z).owned

def next : Nat := (S.hazard z).next

/-- `write_offset` or `read_offset`. -/
def off : Side → Nat
  | .write => S.writeOffset
  | .read => S.readOffset

def offset (b : Nat) : Nat := (S.heap.block b).offset

def setHazard (x : HazardPtr) : Sight := { S with hazard := Function.update S.hazard z x }

def setActive (off : Nat) : Sight := S.setHazard z { S.hazard z with activeOffset := off }

def setBlock (b : Option Nat) : Side → Sight
  | .write => S.setHazard z { S.hazard z with writeBlock := b }
  | .read => S.setHazard z { S.hazard z with readBlock := b }

def setNext (off : Nat) : Side → Sight
  | .write => S.setHazard z { S.hazard z with nextProtectWrite := off }
  | .read => S.setHazard z { S.hazard z with nextProtectRead := off }

/-- The task of `t` goes on. -/
def goes (k : Task) : Sight := { S with task := Function.update S.task t k }

/-- The call of `try_reclaim_blocks` that goes on. -/
def run : Option (Nat × Nat × TryReclaim) := S.blocksLock.bind fun t => (S.task t).run

/-- The token has a hazard pointer that it does not give up, or it is about to be
returned to it. -/
def Has : Prop :=
  S.haz t = some z ∧ (S.task t).keeps = true ∨ S.task t = .acquires (.check S.reclaimCounter z)

end Sight

/-- `l` is the cycle of the hazard pointers. -/
def Sight.Ring (S : Sight) (l : List Nat) : Prop :=
  Channel.Ring S.view S.owned S.next S.hazards l

theorem Hazards.sight {s : State V} {l : List Nat} (h : Hazards s l) : s.sight.Ring l := by
  have hview : s.sight.view = s.view := by
    funext t
    rw [Sight.view, State.view, Token.view, ← Pc.role_task]
    rfl
  have howned : s.sight.owned = s.owned := rfl
  have hnext : s.sight.next = s.next := rfl
  rw [Sight.Ring, hview, howned, hnext]
  exact h

end CoroUtil.Channel
