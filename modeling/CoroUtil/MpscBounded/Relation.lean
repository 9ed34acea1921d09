import CoroUtil.General.Chain
import CoroUtil.MpscBounded.Places

/-!
# The queue and its slot protocol

`Rel` says which state of the protocol a state of the queue stands for.  A slot
of the protocol determines the flags word and, through `next`, the two producer
chains; a program counter determines the role of its task; a program counter
also carries what the task remembers of an earlier load.
-/

namespace CoroUtil.MpscBounded

open CoroUtil.General

variable {V : Type}

/-- `Flags & CHAIN_MASK` of a chain. -/
def ChainPtr.ofHead : Option Tid → ChainPtr
  | some p => .node p
  | none => .null

@[simp] theorem Flags.chainPtr_ofHead (a b c : Bool) (o : Option Tid) :
    (Flags.mk a b c (.ofHead o)).chainPtr = o := by
  cases o <;> rfl

@[simp] theorem Flags.hasCloseSentinel_ofHead (a b c : Bool) (o : Option Tid) :
    (Flags.mk a b c (.ofHead o)).hasCloseSentinel = false := by
  cases o <;> rfl

/-- The flags word of a slot. -/
def Slot.flags : Slot V → Flags
  | free b => ⟨false, false, b, .null⟩
  | busy _ b l _ => ⟨true, false, b, .ofHead l.head?⟩
  | full _ _ l _ => ⟨false, true, false, .ofHead l.head?⟩
  | shut => ⟨false, false, false, .closeSentinel⟩

/-- The value in a slot, with the ticket of its push. -/
def Slot.value : Slot V → Option (Nat × V)
  | busy (.task _ i (some v)) _ _ _ => some (i, v)
  | busy (.task _ _ none) _ _ _ => none
  | busy .handoff _ _ _ => none
  | full i v _ _ => some (i, v)
  | free _ | shut => none

namespace Pc

def role : Pc V → Role V
  | loadClosed v i | spinReady v i | loadClosedAt v i => .fresh i v
  | claimLoad v i | claimCas v i _ | parkLoad v i | parkCas v i _ => .passed i v
  | suspended v i => .parked i v
  | emplace v i => .writing i v
  | publishLoad v i | publishCas v i _ => .written i v
  | takeConsumer v i | resumeConsumer v i => .notify i v
  | idle | fetchTicket _ | closeCas | closeTicket | storeClosedAt _ | storeReady _ | fetchOr _
  | loadWaitIdx .. | closeArmedCas .. | closeFreeCas .. | closeTakeConsumer _ | closeResume _ =>
    .out

/-- How far `close()` is when its winner `p` is here. -/
def stage (p : Tid) : Pc V → Option Stage
  | closeTicket => some (.won p)
  | storeClosedAt c => some (.cut p c .storeAt)
  | storeReady c => some (.cut p c .storeReady)
  | fetchOr c => some (.cut p c .look)
  | loadWaitIdx c _ => some (.cut p c .readIdx)
  | closeArmedCas c _ => some (.cut p c .casArmed)
  | closeFreeCas c _ => some (.cut p c .casFree)
  | closeTakeConsumer c => some (.cut p c .take)
  | closeResume c => some (.cut p c .wake)
  | idle | fetchTicket _ | loadClosed .. | spinReady .. | loadClosedAt .. | claimLoad ..
  | claimCas .. | parkLoad .. | parkCas .. | suspended .. | emplace .. | publishLoad ..
  | publishCas .. | takeConsumer .. | resumeConsumer .. | closeCas => none

/-- What the task has seen of its slot and of the consumer. -/
def Knows (cfg : Config) (next : Tid → Option Tid) (a : Abs V) (p : Tid) : Pc V → Prop
  | loadClosedAt .. => a.stage.ready = true
  | claimCas _ _ f => f.claimable = true
  | parkCas _ _ f => f.claimable = false ∧ f.hasCloseSentinel = false ∧ next p = f.chainPtr
  | publishCas _ _ f => f.prod = true ∧ f.data = false
  | takeConsumer _ i => a.crole = .woken (some p) false ∧ cfg.slotOf i = cfg.slotOf a.reads
  | resumeConsumer _ _ => a.crole = .woken (some p) true
  | loadWaitIdx _ f | closeArmedCas _ f => f.prod = false ∧ f.data = false ∧ f.cons = true
  | closeFreeCas _ f => f.prod = false ∧ f.data = false ∧ f.cons = false
  | idle | fetchTicket _ | loadClosed .. | spinReady .. | claimLoad .. | parkLoad ..
  | suspended .. | emplace .. | publishLoad .. | closeCas | closeTicket | storeClosedAt _
  | storeReady _ | fetchOr _ | closeTakeConsumer _ | closeResume _ => True

end Pc

/-- What the consumer is doing, and what it has seen of the slot it is at. -/
def ConsumerPc.Knows (cfg : Config) (s : State V) (a : Abs V) : ConsumerPc → Prop
  | idle => a.crole = .away
  | poll k => a.crole = .away ∧ (k = .pull → cfg.consumerCanSuspend = true)
  | loadClosed k idx f | spinReady k idx f => a.crole = .away ∧
    (k = .pull → cfg.consumerCanSuspend = true) ∧ idx = a.reads ∧
      (f.hasCloseSentinel = true → a.slot (cfg.slotOf idx) = .shut)
  | loadClosedAt k idx f => a.crole = .away ∧
    (k = .pull → cfg.consumerCanSuspend = true) ∧ idx = a.reads ∧
      (f.hasCloseSentinel = true → a.slot (cfg.slotOf idx) = .shut) ∧ a.stage.ready = true
  | storeIdx => a.crole = .arming false
  | storeSelf idx =>
    a.crole = .arming false ∧ idx = a.reads ∧ (s.elem cfg idx).waitingConsumerIdx = idx
  | loadFlags idx => a.crole = .arming true ∧ idx = a.reads
  | withdrawData idx => a.crole = .arming true ∧ idx = a.reads ∧ FullAt cfg a idx
  | withdrawSentinel idx =>
    a.crole = .arming true ∧ idx = a.reads ∧ a.slot (cfg.slotOf idx) = .shut
  | sentinelReady idx =>
    a.crole = .arming false ∧ idx = a.reads ∧ a.slot (cfg.slotOf idx) = .shut
  | sentinelClosedAt idx => a.crole = .arming false ∧ idx = a.reads ∧
    a.slot (cfg.slotOf idx) = .shut ∧ a.stage.ready = true
  | armCas idx f =>
    a.crole = .arming true ∧ idx = a.reads ∧ f.data = false ∧ f.hasCloseSentinel = false ∧
      f.cons = false
  | suspended idx elemNull => idx = a.reads ∧
    (a.crole = .armed ∧ elemNull = false ∨ (∃ p t, a.crole = .woken (some p) t) ∧ elemNull = false ∨
      a.crole = .woken none elemNull)
  | resumed idx elemNull => idx = a.reads ∧ a.crole = .resumed elemNull
  | holding idx => idx = a.reads ∧ a.crole = .holding
  | drainLoad idx => idx + 1 = a.reads ∧ a.crole = .draining
  | handoffCas idx f => idx + 1 = a.reads ∧ a.crole = .draining ∧ f.data = true ∧ f.prod = false ∧
    ∃ i v l p l', a.slot (cfg.slotOf idx) = .full i v l (p :: l')
  | drainCas idx => idx + 1 = a.reads ∧ a.crole = .draining ∧
    ∃ i v l, a.slot (cfg.slotOf idx) = .full i v l []
  | drainExchange idx => idx + 1 = a.reads ∧ a.crole = .draining ∧
    ∃ i v l, a.slot (cfg.slotOf idx) = .full i v l [] ∧ l ≠ []
  | reverse idx prev curr => idx + 1 = a.reads ∧ a.crole = .handing ∧
    ∃ l done left, a.slot (cfg.slotOf idx) = .busy .handoff false l (left.reverse ++ done) ∧
      Linked s.next prev done ∧ Linked s.next curr left
  | resumeProducer idx p => idx + 1 = a.reads ∧ a.crole = .handing ∧
    ∃ l l', a.slot (cfg.slotOf idx) = .busy .handoff false l (p :: l') ∧
      Linked s.next (s.elem cfg idx).outputProducers l'

structure Rel (cfg : Config) (s : State V) (a : Abs V) : Prop where
  tickets : s.writeOffset = a.tickets
  reads : s.readOffset = a.reads
  flags : ∀ k, (s.elements k).flags = (a.slot k).flags
  input : ∀ k, Linked s.next (a.slot k).input.head? (a.slot k).input
  output : ∀ k, (a.crole = .handing → k ≠ cfg.slotOf (a.reads - 1)) →
    Linked s.next (s.elements k).outputProducers (a.slot k).output
  data : ∀ k, (s.elements k).data =
    if a.crole = .draining ∧ k = cfg.slotOf a.front then none else (a.slot k).value
  waiting : ∀ k, (s.elements k).waitingConsumer = true ↔
    a.crole.stored = true ∧ k = cfg.slotOf a.reads
  waitIdx_le : ∀ k, (s.elements k).waitingConsumerIdx ≤ a.reads
  waitIdx : a.crole.stored = true → (s.elem cfg a.reads).waitingConsumerIdx = a.reads
  role : ∀ p, a.role p = (s.task p).role
  stage : ∀ p st, (s.task p).stage p = some st → a.stage = st
  stage_won : ∀ p, a.stage = .won p → (s.task p).stage p = some (.won p)
  stage_cut : ∀ p c ph, a.stage = .cut p c ph → (s.task p).stage p = some (.cut p c ph)
  knows : ∀ p, (s.task p).Knows cfg s.next a p
  consumer : s.consumer.Knows cfg s a
  closed : s.closed = a.stage.closed
  closedReady : s.closedReady = a.stage.ready
  closedAt : ∀ c, a.stage.cutoff = some c → (∀ p, a.stage ≠ .cut p c .storeAt) → s.writeClosedAt = c
  closes : 0 < s.closes → a.stage.closed = true
  constructed : s.constructed = a.constructed
  pushes : s.pushes = a.pushes
  pulls : s.pulls = a.pulls
  sound : s.broken = false

theorem Rel.init {cfg : Config} : Rel cfg (State.init : State V) Abs.init := by
  constructor <;> intros <;>
    simp_all [State.init, Abs.init, Element.init, Flags.zero, Slot.flags, Slot.input,
      Slot.output, Slot.value, Linked, ConsumerRole.stored, Pc.role, Pc.stage, Pc.Knows,
      ConsumerPc.Knows, Stage.closed, Stage.ready, Stage.cutoff]

end CoroUtil.MpscBounded
