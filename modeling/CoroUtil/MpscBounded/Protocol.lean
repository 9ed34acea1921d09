import CoroUtil.General.Visits
import CoroUtil.MpscBounded.Model

/-!
# The slot protocol of `qu_mpsc_bounded`

What the atomic operations of `Model.lean` do to the queue, without the flag
words, the pointers and the values cached by a task.  A `Slot` is one of the
states that `element` documents, with the two producer chains as lists, so that
a combination that the documentation calls unreachable cannot be written down.
A task has a `Role`, the consumer a `ConsumerRole`, and `close()` a `Stage`.

`claimed k` collects the tickets that have been given slot `k`, and `place`
says which index of the consumer each of them stands for: the `n`-th ticket to
be given slot `k` stands for the consumer's `n`-th visit to slot `k`.
-/

namespace CoroUtil.MpscBounded

open CoroUtil.General

attribute [grind =] Function.update_apply

/-- Who owns `PROD_BIT`: a task with its ticket and what it has constructed, or
the consumer on behalf of the producer it is about to wake. -/
inductive Owner (V : Type)
  | task (p : Tid) (i : Nat) (written : Option V)
  | handoff

/-- The documented states of `element`; `input` is the chain in the flags word,
most recent first, and `output` the consumer's own chain. -/
inductive Slot (V : Type)
  | free (armed : Bool)
  | busy (owner : Owner V) (armed : Bool) (input output : List Tid)
  | full (i : Nat) (v : V) (input output : List Tid)
  | shut

namespace Slot

variable {V : Type}

/-- `CONS_BIT`. -/
@[grind =] def armed : Slot V → Bool
  | free b => b
  | busy _ b _ _ => b
  | full .. => false
  | shut => false

@[grind =] def input : Slot V → List Tid
  | free _ => []
  | busy _ _ l _ => l
  | full _ _ l _ => l
  | shut => []

@[grind =] def output : Slot V → List Tid
  | free _ => []
  | busy _ _ _ l => l
  | full _ _ _ l => l
  | shut => []

/-- The producers parked on the slot. -/
@[grind =] def waiters (x : Slot V) : List Tid := x.input ++ x.output

/-- The ticket whose round the slot is in. -/
@[grind =] def ticket : Slot V → Option Nat
  | free _ => none
  | busy (.task _ i _) _ _ _ => some i
  | busy .handoff _ _ _ => none
  | full i _ _ _ => some i
  | shut => none

/-- The rounds that have been given out and not drained. -/
@[grind =] def load (x : Slot V) : Nat := if x.ticket.isSome then 1 else 0

/-- A producer cannot claim it and has to park. -/
@[grind =] def held : Slot V → Bool
  | busy .. | full .. => true
  | free _ | shut => false

/-- The consumer can set `CONS_BIT`. -/
@[grind =] def armable : Slot V → Bool
  | free b | busy _ b _ _ => !b
  | full .. | shut => false

/-- `p` joins the input chain. -/
@[grind =] def park (p : Tid) : Slot V → Slot V
  | free b => free b
  | busy o b l₁ l₂ => busy o b (p :: l₁) l₂
  | full i v l₁ l₂ => full i v (p :: l₁) l₂
  | shut => shut

/-- `CONS_BIT` is set. -/
@[grind =] def arm : Slot V → Slot V
  | free _ => free true
  | busy o _ l₁ l₂ => busy o true l₁ l₂
  | full i v l₁ l₂ => full i v l₁ l₂
  | shut => shut

variable {x : Slot V} {p : Tid}

theorem waiters_park (h : x.held = true) : (x.park p).waiters = p :: x.waiters := by
  cases x <;> simp_all [held, park, waiters, input, output]

@[simp] theorem load_park : (x.park p).load = x.load := by
  rcases x with _ | ⟨_ | _, _, _, _⟩ | _ | _ <;> rfl

@[simp] theorem armed_park : (x.park p).armed = x.armed := by cases x <;> rfl

@[simp] theorem park_eq_shut : x.park p = .shut ↔ x = .shut := by cases x <;> simp [park]

theorem eq_busy_of_park {o : Owner V} {b : Bool} {l₁ l₂ : List Tid}
    (h : x.park p = .busy o b l₁ l₂) : ∃ l, x = .busy o b l l₂ := by
  cases x <;> simp_all [park]

theorem eq_full_of_park {i : Nat} {v : V} {l₁ l₂ : List Tid} (h : x.park p = .full i v l₁ l₂) :
    ∃ l, x = .full i v l l₂ := by
  cases x <;> simp_all [park]

@[simp] theorem ticket_park : (x.park p).ticket = x.ticket := by
  rcases x with _ | ⟨_ | _, _, _, _⟩ | _ | _ <;> rfl

@[simp] theorem waiters_arm : x.arm.waiters = x.waiters := by cases x <;> rfl

@[simp] theorem load_arm : x.arm.load = x.load := by
  rcases x with _ | ⟨_ | _, _, _, _⟩ | _ | _ <;> rfl

theorem armed_arm (h : x.armable = true) : x.arm.armed = true := by
  cases x <;> simp_all [armable, arm, armed]

@[simp] theorem arm_eq_shut : x.arm = .shut ↔ x = .shut := by cases x <;> simp [arm]

theorem eq_busy_of_arm {o : Owner V} {b : Bool} {l₁ l₂ : List Tid}
    (h : x.arm = .busy o b l₁ l₂) : ∃ b', x = .busy o b' l₁ l₂ := by
  cases x <;> simp_all [arm]

theorem eq_full_of_arm {i : Nat} {v : V} {l₁ l₂ : List Tid} (h : x.arm = .full i v l₁ l₂) :
    x = .full i v l₁ l₂ := by
  cases x <;> simp_all [arm]

@[simp] theorem ticket_arm : x.arm.ticket = x.ticket := by
  rcases x with _ | ⟨_ | _, _, _, _⟩ | _ | _ <;> rfl

end Slot

/-- What a task is doing. -/
inductive Role (V : Type)
  | out
  /-- It has a ticket and has not checked `closed`. -/
  | fresh (i : Nat) (v : V)
  /-- It has passed the check and is trying to claim the slot or to park. -/
  | passed (i : Nat) (v : V)
  | parked (i : Nat) (v : V)
  /-- It owns `PROD_BIT`. -/
  | writing (i : Nat) (v : V)
  | written (i : Nat) (v : V)
  /-- It has published and is waking the consumer. -/
  | notify (i : Nat) (v : V)

namespace Role

variable {V : Type}

/-- The ticket of the push that the task is in. -/
@[grind =] def ticket : Role V → Option Nat
  | out => none
  | fresh i _ | passed i _ | parked i _ | writing i _ | written i _ | notify i _ => some i

/-- The ticket, while the push has been given no slot. -/
@[grind =] def waiting : Role V → Option Nat
  | fresh i _ | passed i _ | parked i _ => some i
  | out | writing .. | written .. | notify .. => none

/-- The ticket, while the push is past the closed check without a slot. -/
@[grind =] def admitted : Role V → Option Nat
  | passed i _ | parked i _ => some i
  | out | fresh .. | writing .. | written .. | notify .. => none

/-- The ticket, once the push has been given a slot. -/
@[grind =] def placed : Role V → Option Nat
  | writing i _ | written i _ | notify i _ => some i
  | out | fresh .. | passed .. | parked .. => none

/-- What the push has constructed. -/
@[grind =] def built : Role V → Option (Nat × V)
  | written i v | notify i v => some (i, v)
  | out | fresh .. | passed .. | parked .. | writing .. => none

/-- No slot knows of the task. -/
@[grind =] def unseen : Role V → Bool
  | out | fresh .. | passed .. => true
  | parked .. | writing .. | written .. | notify .. => false

theorem placed_of_unseen {r : Role V} (h : r.unseen = true) : r.placed = none := by
  cases r <;> simp_all [unseen, placed]

theorem ticket_of_waiting {r : Role V} {i : Nat} (h : r.waiting = some i) : r.ticket = some i := by
  cases r <;> simp_all [waiting, ticket]

theorem ticket_of_admitted {r : Role V} {i : Nat} (h : r.admitted = some i) :
    r.ticket = some i := by
  cases r <;> simp_all [admitted, ticket]

theorem ticket_of_built {r : Role V} {e : Nat × V} (h : r.built = some e) :
    r.ticket = some e.1 := by
  cases r <;> simp_all [built, ticket] <;> rw [← h]

theorem ticket_of_unseen {r : Role V} (h : r.unseen = true) : r.ticket = r.waiting := by
  cases r <;> simp_all [unseen, ticket, waiting]

end Role

/-- What the consumer is doing. -/
inductive ConsumerRole
  /-- Between calls, or polling. -/
  | away
  /-- In `await_suspend` past the closed check; `stored` once `waiting_consumer` is set. -/
  | arming (stored : Bool)
  /-- Suspended with `CONS_BIT` set. -/
  | armed
  /-- Suspended, with `CONS_BIT` cleared by the push of a task or by `close()`;
  `taken` once `waiting_consumer` has been taken. -/
  | woken (p : Option Tid) (taken : Bool)
  | resumed (closed : Bool)
  /-- It holds a scope. -/
  | holding
  /-- It has destroyed the value and not yet left the slot. -/
  | draining
  /-- It is about to wake the producer it has given the slot to. -/
  | handing
  deriving DecidableEq

namespace ConsumerRole

/-- `waiting_consumer` of the slot at `read_offset` is set. -/
@[grind =] def stored : ConsumerRole → Bool
  | arming b => b
  | armed => true
  | woken _ taken => !taken
  | away | resumed _ | holding | draining | handing => false

/-- The value of the slot it is at has been handed out. -/
@[grind =] def took : ConsumerRole → Bool
  | holding | draining => true
  | away | arming _ | armed | woken .. | resumed _ | handing => false

/-- Neither `CONS_BIT` nor a value of the slot it is at belongs to it. -/
@[grind =] def idle : ConsumerRole → Bool
  | away | arming _ | resumed _ => true
  | armed | woken .. | holding | draining | handing => false

/-- It may suspend without looking at `closed` again. -/
@[grind =] def stale : ConsumerRole → Bool
  | arming _ | armed => true
  | away | woken .. | resumed _ | holding | draining | handing => false

/-- It is in a suspended `pull()` or about to be. -/
@[grind =] def suspending : ConsumerRole → Bool
  | arming _ | armed | woken .. | resumed _ => true
  | away | holding | draining | handing => false

theorem suspending_of_stale {r : ConsumerRole} (h : r.stale = true) : r.suspending = true := by
  cases r <;> simp_all [stale, suspending]

end ConsumerRole

/-- How far the closer is after it has taken the cutoff. -/
inductive ClosePhase
  | storeAt
  | storeReady
  | look
  | readIdx
  | casArmed
  | casFree
  | take
  | wake
  deriving DecidableEq

/-- How far `close()` is; `p` is the caller that won the compare-exchange. -/
inductive Stage
  | opened
  | won (p : Tid)
  | cut (p : Tid) (c : Nat) (phase : ClosePhase)
  | done (c : Nat)

namespace Stage

@[grind =] def closed : Stage → Bool
  | opened => false
  | won _ | cut .. | done _ => true

@[grind =] def cutoff : Stage → Option Nat
  | opened | won _ => none
  | cut _ c _ => some c
  | done c => some c

@[grind =] def ready : Stage → Bool
  | opened | won _ => false
  | cut _ _ ph => ph != .storeAt && ph != .storeReady
  | done _ => true

/-- The closer has put the sentinel on an armed slot and is waking the consumer. -/
@[grind =] def waking : Stage → Bool
  | opened | won _ => false
  | cut _ _ ph => ph == .take || ph == .wake
  | done _ => false

end Stage

structure Abs (V : Type) where
  tickets : Nat
  reads : Nat
  slot : Nat → Slot V
  claimed : Nat → Finset Nat
  place : Nat → Nat
  role : Tid → Role V
  crole : ConsumerRole
  stage : Stage
  constructed : List (Nat × V)
  pushes : List (Push V)
  pulls : List (Pull V)

def Abs.init {V : Type} : Abs V where
  tickets := 0
  reads := 0
  slot := fun _ => .free false
  claimed := fun _ => ∅
  place := id
  role := fun _ => .out
  crole := .away
  stage := .opened
  constructed := []
  pushes := []
  pulls := []

namespace Abs

variable {V : Type} (cfg : Config) (a : Abs V)

/-- The index whose slot the consumer has not yet left. -/
@[grind =] def front : Nat := if a.crole = .draining then a.reads - 1 else a.reads

@[reducible] def setRole (p : Tid) (r : Role V) : Abs V := { a with role := Function.update a.role p r }

@[reducible] def setSlot (k : Nat) (x : Slot V) : Abs V := { a with slot := Function.update a.slot k x }

/-- Ticket `i` is given slot `k`. -/
@[reducible] noncomputable def claim (k i : Nat) : Abs V :=
  { a with
    claimed := Function.update a.claimed k (insert i (a.claimed k))
    place := Function.update a.place i (visit cfg.slotOf k (a.claimed k).card) }

/-- The push of `v` with ticket `i` returns `ok` to task `p`. -/
@[reducible] def returnPush (p : Tid) (v : V) (i : Nat) (ok : Bool) : Abs V :=
  { a with
    role := Function.update a.role p .out
    pushes := a.pushes ++ [⟨p, i, v, ok⟩] }

end Abs

/-- The moves of the protocol. -/
inductive Move {V : Type} (cfg : Config) : Abs V → Abs V → Prop
  | ticket {a : Abs V} {p : Tid} (v : V) (h : a.role p = .out) :
      Move cfg a ({ a with tickets := a.tickets + 1 }.setRole p (.fresh a.tickets v))
  | pass {a : Abs V} {p : Tid} {i : Nat} {v : V} (h : a.role p = .fresh i v)
      (hc : ∀ c, a.stage.cutoff = some c → i < c) : Move cfg a (a.setRole p (.passed i v))
  | reject {a : Abs V} {p : Tid} {i c : Nat} {v : V} (h : a.role p = .fresh i v)
      (hs : a.stage.cutoff = some c) (hc : c ≤ i) : Move cfg a (a.returnPush p v i false)
  | rejectShut {a : Abs V} {p : Tid} {i : Nat} {v : V} (h : a.role p = .passed i v)
      (hs : a.slot (cfg.slotOf i) = .shut) : Move cfg a (a.returnPush p v i false)
  | claim {a : Abs V} {p : Tid} {i : Nat} {v : V} {b : Bool} (h : a.role p = .passed i v)
      (hs : a.slot (cfg.slotOf i) = .free b) :
      Move cfg a (((a.claim cfg (cfg.slotOf i) i).setSlot (cfg.slotOf i)
        (.busy (.task p i none) b [] [])).setRole p (.writing i v))
  | park {a : Abs V} {p : Tid} {i : Nat} {v : V} (h : a.role p = .passed i v)
      (hs : (a.slot (cfg.slotOf i)).held = true) :
      Move cfg a ((a.setSlot (cfg.slotOf i) ((a.slot (cfg.slotOf i)).park p)).setRole p
        (.parked i v))
  | emplace {a : Abs V} {p : Tid} {i : Nat} {v : V} {b : Bool} {l₁ l₂ : List Tid}
      (h : a.role p = .writing i v)
      (hs : a.slot (cfg.slotOf i) = .busy (.task p i none) b l₁ l₂) :
      Move cfg a ({ a with constructed := a.constructed ++ [(i, v)] }.setSlot (cfg.slotOf i)
        (.busy (.task p i (some v)) b l₁ l₂) |>.setRole p (.written i v))
  | publish {a : Abs V} {p : Tid} {i : Nat} {v : V} {l₁ l₂ : List Tid}
      (h : a.role p = .written i v)
      (hs : a.slot (cfg.slotOf i) = .busy (.task p i (some v)) false l₁ l₂) :
      Move cfg a ((a.setSlot (cfg.slotOf i) (.full i v l₁ l₂)).returnPush p v i true)
  | publishArmed {a : Abs V} {p : Tid} {i : Nat} {v : V} {l₁ l₂ : List Tid}
      (h : a.role p = .written i v)
      (hs : a.slot (cfg.slotOf i) = .busy (.task p i (some v)) true l₁ l₂) :
      Move cfg a ({ a with crole := .woken (some p) false }.setSlot (cfg.slotOf i)
        (.full i v l₁ l₂) |>.setRole p (.notify i v))
  | takeConsumer {a : Abs V} {p : Tid} (h : a.crole = .woken (some p) false) :
      Move cfg a { a with crole := .woken (some p) true }
  | wakeConsumer {a : Abs V} {p : Tid} {i : Nat} {v : V} (h : a.role p = .notify i v)
      (hc : a.crole = .woken (some p) true) :
      Move cfg a ({ a with crole := .resumed false }.returnPush p v i true)
  -- the consumer
  | beginArming {a : Abs V} (h : a.crole = .away) (hcfg : cfg.consumerCanSuspend = true)
      (hc : ∀ c, a.stage.cutoff = some c → a.reads < c) :
      Move cfg a { a with crole := .arming false }
  | storeSelf {a : Abs V} (h : a.crole = .arming false) : Move cfg a { a with crole := .arming true }
  | arm {a : Abs V} (h : a.crole = .arming true)
      (hs : (a.slot (cfg.slotOf a.reads)).armable = true) :
      Move cfg a ({ a with crole := .armed }.setSlot (cfg.slotOf a.reads)
        (a.slot (cfg.slotOf a.reads)).arm)
  | take {a : Abs V} {i : Nat} {v : V} {l₁ l₂ : List Tid}
      (h : a.crole = .away ∨ a.crole = .arming true ∨ a.crole = .resumed false)
      (hs : a.slot (cfg.slotOf a.reads) = .full i v l₁ l₂) :
      Move cfg a { a with crole := .holding, pulls := a.pulls ++ [.ok i v] }
  | reportClosed {a : Abs V} {c : Nat}
      (h : a.crole = .away ∨ a.crole = .arming false ∨ a.crole = .resumed true)
      (hs : a.stage.cutoff = some c) (hc : c ≤ a.reads) :
      Move cfg a { a with crole := .away, pulls := a.pulls ++ [.closed] }
  | reportEmpty {a : Abs V} (h : a.crole = .away) :
      Move cfg a { a with pulls := a.pulls ++ [.empty] }
  | withdraw {a : Abs V} (h : a.crole = .arming true) (hs : a.slot (cfg.slotOf a.reads) = .shut) :
      Move cfg a { a with crole := .arming false }
  | skip {a : Abs V} {c : Nat} (h : a.crole = .away ∨ a.crole = .arming false)
      (hs : a.slot (cfg.slotOf a.reads) = .shut) (hst : a.stage.cutoff = some c) (hc : a.reads < c) :
      Move cfg a { a with reads := a.reads + 1 }
  | release {a : Abs V} (h : a.crole = .holding) :
      Move cfg a { a with crole := .draining, reads := a.reads + 1 }
  | drainFree {a : Abs V} {i : Nat} {v : V} (h : a.crole = .draining)
      (hs : a.slot (cfg.slotOf a.front) = .full i v [] []) :
      Move cfg a ({ a with crole := .away }.setSlot (cfg.slotOf a.front) (.free false))
  | drainOutput {a : Abs V} {i : Nat} {v : V} {p : Tid} {l₁ l₂ : List Tid} (h : a.crole = .draining)
      (hs : a.slot (cfg.slotOf a.front) = .full i v l₁ (p :: l₂)) :
      Move cfg a ({ a with crole := .handing }.setSlot (cfg.slotOf a.front)
        (.busy .handoff false l₁ (p :: l₂)))
  | drainInput {a : Abs V} {i : Nat} {v : V} {l₁ : List Tid} (h : a.crole = .draining)
      (hs : a.slot (cfg.slotOf a.front) = .full i v l₁ []) (hl : l₁ ≠ []) :
      Move cfg a ({ a with crole := .handing }.setSlot (cfg.slotOf a.front)
        (.busy .handoff false [] l₁.reverse))
  | wakeProducer {a : Abs V} {p : Tid} {i : Nat} {v : V} {l₁ l₂ : List Tid}
      (h : a.crole = .handing) (hp : a.role p = .parked i v)
      (hs : a.slot (cfg.slotOf i) = .busy .handoff false l₁ (p :: l₂)) :
      Move cfg a ({ a.claim cfg (cfg.slotOf i) i with crole := .away }.setSlot (cfg.slotOf i)
        (.busy (.task p i none) false l₁ l₂) |>.setRole p (.writing i v))
  -- the closer
  | win {a : Abs V} {p : Tid} (h : a.stage = .opened) : Move cfg a { a with stage := .won p }
  | cut {a : Abs V} {p : Tid} (h : a.stage = .won p) :
      Move cfg a { a with tickets := a.tickets + 1, stage := .cut p a.tickets .storeAt }
  | storeAt {a : Abs V} {p : Tid} {c : Nat} (h : a.stage = .cut p c .storeAt) :
      Move cfg a { a with stage := .cut p c .storeReady }
  | storeReady {a : Abs V} {p : Tid} {c : Nat} (h : a.stage = .cut p c .storeReady) :
      Move cfg a { a with stage := .cut p c .look }
  | leaveAlone {a : Abs V} {p : Tid} {c : Nat} (h : a.stage = .cut p c .look)
      (hcfg : cfg.consumerCanSuspend = false) : Move cfg a { a with stage := .done c }
  | lookBusy {a : Abs V} {p : Tid} {c : Nat} {ph : ClosePhase} (h : a.stage = .cut p c ph)
      (hph : ph = .look ∨ ph = .casArmed ∨ ph = .casFree)
      (hs : (a.slot (cfg.slotOf c)).held = true) : Move cfg a { a with stage := .done c }
  | lookArmed {a : Abs V} {p : Tid} {c : Nat} {ph : ClosePhase} (h : a.stage = .cut p c ph)
      (hph : ph = .look ∨ ph = .casArmed ∨ ph = .casFree)
      (hs : a.slot (cfg.slotOf c) = .free true) : Move cfg a { a with stage := .cut p c .readIdx }
  | lookFree {a : Abs V} {p : Tid} {c : Nat} {ph : ClosePhase} (h : a.stage = .cut p c ph)
      (hph : ph = .look ∨ ph = .casArmed ∨ ph = .casFree)
      (hs : a.slot (cfg.slotOf c) = .free false) : Move cfg a { a with stage := .cut p c .casFree }
  | idxBelow {a : Abs V} {p : Tid} {c : Nat} (h : a.stage = .cut p c .readIdx)
      (hc : a.crole = .armed → a.reads < c) : Move cfg a { a with stage := .done c }
  | idxReached {a : Abs V} {p : Tid} {c : Nat} (h : a.stage = .cut p c .readIdx) (hc : c ≤ a.reads) :
      Move cfg a { a with stage := .cut p c .casArmed }
  | shutArmed {a : Abs V} {p : Tid} {c : Nat} (h : a.stage = .cut p c .casArmed)
      (hs : a.slot (cfg.slotOf c) = .free true) :
      Move cfg a ({ a with stage := .cut p c .take, crole := .woken none false }.setSlot
        (cfg.slotOf c) .shut)
  | shutFree {a : Abs V} {p : Tid} {c : Nat} (h : a.stage = .cut p c .casFree)
      (hs : a.slot (cfg.slotOf c) = .free false) :
      Move cfg a ({ a with stage := .done c }.setSlot (cfg.slotOf c) .shut)
  | closeTake {a : Abs V} {p : Tid} {c : Nat} (h : a.stage = .cut p c .take) :
      Move cfg a { a with stage := .cut p c .wake, crole := .woken none true }
  | closeWake {a : Abs V} {p : Tid} {c : Nat} (h : a.stage = .cut p c .wake) :
      Move cfg a { a with stage := .done c, crole := .resumed true }

end CoroUtil.MpscBounded
