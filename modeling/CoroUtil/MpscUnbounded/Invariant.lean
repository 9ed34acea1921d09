import CoroUtil.Blocks.Reclaim
import CoroUtil.MpscUnbounded.Ledger

/-!
# The invariant of `qu_mpsc_unbounded`

`Map` says which block is where, what has become of each index and what each
task holds.  `Mem` ties the blocks and the elements to it, `Knows` and
`ConsumerKnows` the program counters.  A task whose ticket starts at `idx` holds
pointers at positions from `Map.floor idx` on: from `write_block` on if it took
the ticket after the cutoff of a pending reclaim, from `head_block` on otherwise.

The offsets here are natural numbers.
-/

namespace CoroUtil.MpscUnbounded

open CoroUtil.Blocks

variable {V : Type}

structure Map (V : Type) where
  chain : Chain
  head : Nat
  write : Nat
  read : Nat
  hint : Nat
  stage : Nat → Stage V
  cut : Option Nat
  role : Tid → Role V

def Stage.flags : Stage V → Flags
  | blank | built _ => .null
  | ready _ => .data
  | mark => .closed

/-- The flags of an element that the consumer of `frame` has been suspended on. -/
def Stage.waitFlags (frame : Nat) : Stage V → Flags
  | blank | built _ => .consumer frame
  | ready _ => .data
  | mark => .closed

def Stage.data : Stage V → Option V
  | built v | ready v => some v
  | blank | mark => none

/-- What a task holds while it looks for the block of its ticket. -/
def Job.role (j : Job V) (idx : Nat) : Role V :=
  match j with
  | .put w => .put w idx 0 true
  | .close => .closer idx

/-- The index whose waiting consumer the task is about to resume. -/
def Pc.wakes : Pc V → Option Nat
  | resumeConsumer _ idx k _ _ => some (idx + k)
  | elemNull idx _ | closeResume idx _ => some idx
  | idle | fetchTicket _ | loadClosed .. | spinReady .. | loadClosedAt .. | loadHint ..
  | hintOffset .. | loadWriteBlock .. | assertWriteBlock .. | assertObserved .. | find ..
  | findEnd .. | hintCurrent .. | hintTarget .. | hintCas .. | emplace .. | publish ..
  | nextBlock .. | closeCas | closeTicket | storeClosedAt _ | storeReady _
  | exchangeClosed .. => none

/-- The consumer has been handed the value at `read_offset`. -/
def ConsumerPc.scope : ConsumerPc → Option (Nat × Nat)
  | holding idx b => some (idx, b)
  | emptyFind scope _ | emptyPoll scope _ => scope
  | idle | assertRead _ | find .. | poll .. | tryWait .. | storeClosed .. | suspended ..
  | resumed .. | reclaim .. | assertHead _ | oldOffset _ | storeWriteBlock _ | startHint _
  | startCurrent .. | startTarget .. | startCas .. | loadCutoff _ => none

/-- The values that have been handed out, with their indices. -/
def handed : List (Pull V) → List (Nat × V)
  | [] => []
  | .ok idx v :: l => (idx, v) :: handed l
  | .empty _ :: l | .closed :: l => handed l

namespace Map

variable (cfg : Config) (m : Map V) (s : State V)

def ledger : Ledger V :=
  ⟨s.writeOffset, s.readOffset, m.stage, s.closed, m.cut, m.role, s.posts⟩

def cell (n : Nat) : Element Flags V := m.chain.cell cfg.toLayout s.heap n

def setStage (n : Nat) (f : Stage V) : Map V := { m with stage := Function.update m.stage n f }

def setRole (p : Tid) (r : Role V) : Map V := { m with role := Function.update m.role p r }

/-- The first position that the holder of a ticket from `n` on may point to. -/
def floor (n : Nat) : Nat :=
  match s.pendingReclaim with
  | some _ => if s.pendingReclaimCutoff ≤ n then m.write else m.head
  | none => m.head

/-- The block of index `n` is `b`. -/
def BlockOf (n b : Nat) : Prop :=
  n / cfg.blockSize ≤ m.chain.last ∧ m.chain.block (n / cfg.blockSize) = b

/-- The block at position `k`, which is not before `lo`, is `b`. -/
def Sees (lo k b : Nat) : Prop := lo ≤ k ∧ k ≤ m.chain.last ∧ m.chain.block k = b

variable {m}

theorem stage_setStage {n i : Nat} {f : Stage V} :
    (m.setStage n f).stage i = if i = n then f else m.stage i := Function.update_apply ..

theorem role_setRole {p q : Tid} {r : Role V} :
    (m.setRole p r).role q = if q = p then r else m.role q := Function.update_apply ..

@[simp] theorem role_setRole_self {p : Tid} {r : Role V} : (m.setRole p r).role p = r :=
  Function.update_self ..

end Map

/-- An index of the block at position `k` has been given out. -/
def InUse (cfg : Config) (s : State V) (k : Nat) : Prop :=
  k = 0 ∨ k * cfg.blockSize < s.writeOffset

/-- The blocks and the elements. -/
structure Mem (cfg : Config) (s : State V) (m : Map V) : Prop where
  ok : m.chain.Ok cfg.toLayout s.heap
  first : m.chain.first ≤ m.head
  head_le : m.head ≤ m.write
  write_le : m.write ≤ m.read
  read_le : m.read ≤ m.chain.last
  head_hint : m.head ≤ m.hint
  hint_le : m.hint ≤ m.chain.last
  head : m.chain.block m.head = s.headBlock
  write : m.chain.block m.write = s.writeBlock
  read : m.chain.block m.read = s.readBlock
  hint : m.chain.block m.hint = s.writeBlockHint
  read_lt : m.read = 0 ∨ m.read * cfg.blockSize < s.readOffset
  read_near : s.readOffset ≤ (m.read + 1) * cfg.blockSize
  hint_lt : InUse cfg s m.hint
  pending : ∀ old new, s.pendingReclaim = some (old, new) → old = s.headBlock ∧ new = s.writeBlock ∧
    m.write ≤ m.hint ∧ m.write * cfg.blockSize ≤ s.pendingReclaimCutoff ∧
    s.pendingReclaimCutoff ≤ s.writeOffset
  data : ∀ n, s.readOffset ≤ n → (m.cell cfg s n).data = (m.stage n).data
  flags : ∀ n, s.readOffset < n → (m.cell cfg s n).flags = (m.stage n).flags
  drained : ∀ n, m.head ≤ n / cfg.blockSize → n < s.readOffset → (m.cell cfg s n).data = none

/-- The consumer waits for index `n` in `frame`. -/
def Waits (s : State V) (n frame : Nat) (elemNull : Bool) : Prop :=
  (∃ b, s.consumer = .suspended n b elemNull) ∧ frame = s.frame

/-- Where a task is, given what it holds. -/
def Knows (cfg : Config) (s : State V) (m : Map V) (r : Role V) : Pc V → Prop
  | .idle | .closeCas => r = .out
  | .fetchTicket w => r = .out ∧ 0 < w.count
  | .loadClosed w idx => r = .put w idx 0 false
  | .spinReady w idx => r = .put w idx 0 false ∧ s.closed = true
  | .loadClosedAt w idx => r = .put w idx 0 false ∧ s.closedReady = true
  | .loadHint j idx | .loadWriteBlock j idx => r = j.role idx ∧ m.stage idx = .blank
  | .hintOffset j idx b =>
    (r = j.role idx ∧ m.stage idx = .blank) ∧ ∃ k, m.Sees (m.floor s idx) k b ∧ InUse cfg s k
  | .assertWriteBlock j idx b =>
    (r = j.role idx ∧ m.stage idx = .blank) ∧
      ∃ k, Find.At cfg.toLayout m.chain (m.floor s idx) idx k b
  | .assertObserved w idx b =>
    (r = .put w idx 0 true ∧ m.stage idx = .blank) ∧
      ∃ k, Find.At cfg.toLayout m.chain (m.floor s idx) idx k b
  | .find j idx observed f =>
    (r = j.role idx ∧ m.stage idx = .blank) ∧
      (∃ k, Find.At cfg.toLayout m.chain (m.floor s idx) idx k observed) ∧
      f.Ok cfg.toLayout m.chain (m.floor s idx) idx
  | .findEnd w idx observed b f =>
    (r = .put w idx 0 true ∧ m.stage idx = .blank) ∧
      (∃ k, Find.At cfg.toLayout m.chain (m.floor s idx) idx k observed) ∧ m.BlockOf cfg idx b ∧
      f.Ok cfg.toLayout m.chain (m.floor s idx) (idx + w.count - 1)
  | .hintCurrent w idx b current target =>
    (r = .put w idx 0 true ∧ m.stage idx = .blank) ∧ m.BlockOf cfg idx b ∧
      m.BlockOf cfg (idx + w.count - 1) target ∧
      ∃ k, m.Sees (m.floor s idx) k current ∧ InUse cfg s k
  | .hintTarget w idx b current target offset =>
    (r = .put w idx 0 true ∧ m.stage idx = .blank) ∧ m.BlockOf cfg idx b ∧
      m.BlockOf cfg (idx + w.count - 1) target ∧
      ∃ k, m.Sees (m.floor s idx) k current ∧ InUse cfg s k ∧ offset = k * cfg.blockSize
  | .hintCas w idx b current target =>
    (r = .put w idx 0 true ∧ m.stage idx = .blank) ∧ m.BlockOf cfg idx b ∧
      m.BlockOf cfg (idx + w.count - 1) target ∧
      ∃ k, m.Sees (m.floor s idx) k current ∧ k < (idx + w.count - 1) / cfg.blockSize
  | .emplace w idx k b =>
    (r = .put w idx k true ∧ m.stage (idx + k) = .blank) ∧ k < w.count ∧
      m.BlockOf cfg (idx + k) b ∧ (idx + w.count - 1) / cfg.blockSize ≤ m.chain.last
  | .publish w idx k b =>
    (r = .put w idx k true ∧ m.stage (idx + k) = .built (w.item k)) ∧ k < w.count ∧
      m.BlockOf cfg (idx + k) b ∧ (idx + w.count - 1) / cfg.blockSize ≤ m.chain.last
  | .resumeConsumer w idx k b frame =>
    (r = .put w idx (k + 1) true ∧ (k + 1 < w.count → m.stage (idx + (k + 1)) = .blank)) ∧
      k < w.count ∧ m.BlockOf cfg (idx + k) b ∧
      (idx + w.count - 1) / cfg.blockSize ≤ m.chain.last ∧ Waits s (idx + k) frame false
  | .nextBlock w idx k b =>
    (r = .put w idx k true ∧ (k < w.count → m.stage (idx + k) = .blank)) ∧ 0 < k ∧
      cfg.slot (idx + k) = 0 ∧ m.BlockOf cfg (idx + k - 1) b ∧
      (idx + w.count - 1) / cfg.blockSize ≤ m.chain.last
  | .closeTicket => r = .winner
  | .storeClosedAt idx => r = .closer idx ∧ m.stage idx = .blank
  | .storeReady idx => (r = .closer idx ∧ m.stage idx = .blank) ∧ s.writeClosedAt = idx
  | .exchangeClosed idx b => (r = .closer idx ∧ m.stage idx = .blank) ∧ m.BlockOf cfg idx b
  | .elemNull idx frame => (r = .closer idx ∧ m.stage idx = .mark) ∧ Waits s idx frame false
  | .closeResume idx frame => (r = .closer idx ∧ m.stage idx = .mark) ∧ Waits s idx frame true

/-- No blocks are being moved. -/
structure Calm (s : State V) (m : Map V) : Prop where
  first : m.chain.first = m.head
  tail : Reclaim.Points m.chain s.tailBlock
  write : s.pendingReclaim = none → m.write = m.head

/-- The flags at `read_offset` are those of its stage. -/
def Clear (cfg : Config) (s : State V) (m : Map V) : Prop :=
  (m.cell cfg s s.readOffset).flags = (m.stage s.readOffset).flags

/-- The consumer looks at block `b` for the value at `read_offset`. -/
def Looks (cfg : Config) (s : State V) (m : Map V) (idx b : Nat) : Prop :=
  idx = s.readOffset ∧ m.BlockOf cfg idx b

/-- The consumer has a scope over the value at `read_offset`. -/
def Scope (cfg : Config) (s : State V) (m : Map V) (idx b : Nat) : Prop :=
  Looks cfg s m idx b ∧ ∃ v, m.stage idx = .ready v

/-- What the scope that is alive during `empty()` says. -/
def InScope (cfg : Config) (s : State V) (m : Map V) : Option (Nat × Nat) → Prop
  | some (idx, b) => Scope cfg s m idx b
  | none => Clear cfg s m

/-- The consumer has released the first value of block `b`. -/
def Entered (cfg : Config) (s : State V) (m : Map V) (b : Nat) : Prop :=
  m.chain.block m.read = b ∧ s.readOffset = m.read * cfg.blockSize + 1

/-- The consumer is in `try_start_reclaim` past the store to `write_block`. -/
structure Starting (cfg : Config) (s : State V) (m : Map V) (b : Nat) : Prop where
  first : m.chain.first = m.head
  tail : Reclaim.Points m.chain s.tailBlock
  write : m.write = m.read
  pending : s.pendingReclaim = none
  clear : Clear cfg s m
  entered : Entered cfg s m b

/-- `pull()` is there to be called. -/
def Call.Able (cfg : Config) (k : Call) : Prop := k = .pull → cfg.consumerCanSuspend = true

/-- Where the consumer is. -/
def ConsumerKnows (cfg : Config) (s : State V) (m : Map V) : ConsumerPc → Prop
  | .idle => Calm s m ∧ Clear cfg s m
  | .assertRead k => Calm s m ∧ Clear cfg s m ∧ k.Able cfg
  | .find k idx f =>
    Calm s m ∧ Clear cfg s m ∧ idx = s.readOffset ∧ f.Ok cfg.toLayout m.chain m.read idx ∧
      k.Able cfg
  | .poll k idx b => Calm s m ∧ Clear cfg s m ∧ Looks cfg s m idx b ∧ k.Able cfg
  | .tryWait idx b =>
    Calm s m ∧ Clear cfg s m ∧ Looks cfg s m idx b ∧ cfg.consumerCanSuspend = true
  | .storeClosed idx b => Calm s m ∧ Looks cfg s m idx b ∧ m.stage idx = .mark
  | .suspended idx b elemNull =>
    Calm s m ∧ Looks cfg s m idx b ∧
      (m.cell cfg s idx).flags = (m.stage idx).waitFlags s.frame ∧
      (elemNull = true → m.stage idx = .mark) ∧ cfg.consumerCanSuspend = true
  | .resumed idx b elemNull =>
    Calm s m ∧ Clear cfg s m ∧ Looks cfg s m idx b ∧
      if elemNull then m.stage idx = .mark else ∃ v, m.stage idx = .ready v
  | .holding idx b => Calm s m ∧ Scope cfg s m idx b
  | .reclaim b r _ =>
    Clear cfg s m ∧ r.Ok cfg.toLayout m.chain s.heap m.head s.tailBlock ∧ m.write = m.head ∧
      s.pendingReclaim = none ∧ Entered cfg s m b
  | .assertHead b | .oldOffset b | .storeWriteBlock b =>
    Calm s m ∧ Clear cfg s m ∧ s.pendingReclaim = none ∧ Entered cfg s m b
  | .startHint b => Starting cfg s m b
  | .startCurrent b current => Starting cfg s m b ∧ ∃ k, m.Sees m.head k current ∧ k ≤ m.hint
  | .startTarget b current offset =>
    Starting cfg s m b ∧ ∃ k, m.Sees m.head k current ∧ k ≤ m.hint ∧ offset = k * cfg.blockSize
  | .startCas b current => Starting cfg s m b ∧ ∃ k, m.Sees m.head k current ∧ k < m.write
  | .loadCutoff b => Starting cfg s m b ∧ m.write ≤ m.hint
  | .emptyFind scope f =>
    Calm s m ∧ f.Ok cfg.toLayout m.chain m.read s.readOffset ∧ InScope cfg s m scope
  | .emptyPoll scope b =>
    Calm s m ∧ Looks cfg s m s.readOffset b ∧ InScope cfg s m scope

/-- What the history says about the indices. -/
structure Recorded (s : State V) (m : Map V) : Prop where
  constructed : ∀ n v, (n, v) ∈ s.constructed ↔ m.stage n = .built v ∨ m.stage n = .ready v
  indices : (handed s.pulls).map Prod.fst =
    List.range (s.readOffset + if s.consumer.scope.isSome then 1 else 0)
  values : ∀ n v, (n, v) ∈ handed s.pulls → m.stage n = .ready v
  closed : Pull.closed ∈ s.pulls → m.stage s.readOffset = .mark
  last : ∀ l l', s.pulls = l ++ Pull.closed :: l' → ∀ x ∈ l', x = .closed

structure Inv (cfg : Config) (s : State V) (m : Map V) : Prop where
  ledger : (m.ledger s).Ok
  mem : Mem cfg s m
  task : ∀ p, Knows cfg s m (m.role p) (s.task p)
  consumer : ConsumerKnows cfg s m s.consumer
  ready : s.closedReady = true → m.cut = some s.writeClosedAt
  /-- A consumer that waits for a published element is being resumed. -/
  wake : ∀ n b e, s.consumer = .suspended n b e → m.stage n = .mark ∨ (∃ v, m.stage n = .ready v) →
    ∃ p, (s.task p).wakes = some n
  recorded : Recorded s m
  sound : 1 < cfg.blockSize → s.broken = false

end CoroUtil.MpscUnbounded
