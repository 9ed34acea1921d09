import Mathlib.Logic.Function.Basic

/-!
# Gates

A gate lets calls in until it is closed.  A call takes tickets from a counter and
then looks whether the gate is closed; if it is, the call waits until the cutoff
has been published and is turned away when `rejects` says so of the cutoff and its
first ticket.  The caller that closes the gate takes a ticket for the cutoff
afterwards, and publishes it.

The counter and the cutoff live in registers, which hold `reg n` of a count `n`.  A
`Trace` is kept beside a run: how many tickets have been taken, which of them is the
cutoff, and for every call whether it is late, which means that a `close()` had
returned when it began.

* `Step`: what a step of a party does to the registers and to its place in the
  protocol.
* `Inv.step`: what every step keeps; `Call.Settled` is what it says of a call that
  has returned.
* `Turned.step`: what holds in addition while late calls only take tickets that the
  cutoff rejects.
-/

namespace CoroUtil.General

structure Gate where
  /-- What a register holds of a count. -/
  reg : Nat → Nat
  reg_add : ∀ a n, reg (reg a + n) = reg (a + n)
  /-- The closed test, of the cutoff and a ticket. -/
  rejects : Nat → Nat → Bool
  /-- A call that the gate has let in may fail. -/
  mayFail : Bool

namespace Gate

/-- Where a party is.  A ticket and a cutoff are register contents. -/
inductive Phase
  | out
  | begun (n : Nat)
  | looks (r : Nat)
  | waits (r : Nat)
  | tests (r : Nat)
  | inside (r : Nat)
  | tries
  | won
  | stores (c : Nat)
  | readies (c : Nat)
  | leaves
  deriving DecidableEq

/-- The ticket of a call. -/
def Phase.ticket : Phase → Option Nat
  | looks r | waits r | tests r | inside r => some r
  | out | begun _ | tries | won | stores _ | readies _ | leaves => none

/-- What the parties have published, where they are, how many `close()` calls have
returned, and what the other calls have returned to whom. -/
structure View where
  count : Nat
  closed : Bool
  ready : Bool
  cutoff : Nat
  phase : Nat → Phase
  closes : Nat
  results : List (Nat × Bool)

def View.set (v : View) (p : Nat) (ph : Phase) : View :=
  { v with phase := Function.update v.phase p ph }

/-- What a step of party `p` does. -/
inductive Step (G : Gate) (p : Nat) (v : View) : View → Prop
  | fetch {n : Nat} (h : v.phase p = .begun n) :
    Step G p v ({ v with count := G.reg (v.count + n) }.set p (.looks v.count))
  | pass {r : Nat} (h : v.phase p = .looks r) (hc : v.closed = false) :
    Step G p v (v.set p (.inside r))
  | halt {r : Nat} (h : v.phase p = .looks r) (hc : v.closed = true) : Step G p v (v.set p (.waits r))
  | ready {r : Nat} (h : v.phase p = .waits r) (hr : v.ready = true) : Step G p v (v.set p (.tests r))
  | enter {r : Nat} (h : v.phase p = .tests r) (hr : G.rejects v.cutoff r = false) :
    Step G p v (v.set p (.inside r))
  | reject {r : Nat} (h : v.phase p = .tests r) (hr : G.rejects v.cutoff r = true) :
    Step G p v ({ v with results := v.results ++ [(p, false)] }.set p .out)
  | done {r : Nat} {ok : Bool} (h : v.phase p = .inside r) (hok : ok = true ∨ G.mayFail = true) :
    Step G p v ({ v with results := v.results ++ [(p, ok)] }.set p .out)
  | drop {r : Nat} (h : v.phase p = .inside r) : Step G p v (v.set p .out)
  | win (h : v.phase p = .tries) (hc : v.closed = false) :
    Step G p v ({ v with closed := true }.set p .won)
  | lose (h : v.phase p = .tries) (hc : v.closed = true) :
    Step G p v ({ v with closes := v.closes + 1 }.set p .out)
  | cut (h : v.phase p = .won) :
    Step G p v ({ v with count := G.reg (v.count + 1) }.set p (.stores v.count))
  | store {c : Nat} (h : v.phase p = .stores c) :
    Step G p v ({ v with cutoff := c }.set p (.readies c))
  | publish {c : Nat} (h : v.phase p = .readies c) :
    Step G p v ({ v with ready := true }.set p .leaves)
  | leave (h : v.phase p = .leaves) : Step G p v ({ v with closes := v.closes + 1 }.set p .out)
  | stay (h : (∃ r, v.phase p = .waits r ∨ v.phase p = .inside r) ∨ v.phase p = .leaves) :
    Step G p v v

/-- Where a call takes a party. -/
def Phase.Begins (ph : Phase) : Prop := ph = .out ∨ ph = .tries ∨ ∃ n, ph = .begun n

/-- A call that has returned: a `close()` had returned when it began, the `close()`
that closed the gate had, its first ticket, and its result. -/
structure Call where
  late : Bool
  after : Bool
  ticket : Nat
  ok : Bool

structure Trace where
  tickets : Nat
  sentinel : Option Nat
  /-- The `close()` that closed the gate has returned. -/
  shut : Bool
  late : Nat → Bool
  after : Nat → Bool
  ticket : Nat → Nat
  returned : List Call

/-- Who moves. -/
inductive Move
  | begin (p : Nat)
  | step (p : Nat)
  | other

namespace Trace

def init : Trace := ⟨0, none, false, fun _ => false, fun _ => false, fun _ => 0, []⟩

/-- The calls that have returned. -/
def record (t : Trace) (l : List (Nat × Bool)) : Trace :=
  { t with returned := t.returned ++ l.map fun x => ⟨t.late x.1, t.after x.1, t.ticket x.1, x.2⟩ }

/-- A party begins a call. -/
def start (t : Trace) (v : View) (p : Nat) : Trace :=
  { t with
    late := Function.update t.late p (decide (0 < v.closes))
    after := Function.update t.after p t.shut }

/-- Party `p` takes `n` tickets. -/
def take (t : Trace) (p n : Nat) : Trace :=
  { t with tickets := t.tickets + n, ticket := Function.update t.ticket p t.tickets }

def move (t : Trace) (v v' : View) : Move → Trace
  | .begin p => t.start v p
  | .step p =>
    match v.phase p with
    | .begun n => t.take p n
    | .won => { t with tickets := t.tickets + 1, sentinel := some t.tickets }
    | .leaves => { t with shut := t.shut || decide (v'.phase p = .out) }
    | _ => t
  | .other => t

/-- The trace after a move from `v` to `v'`. -/
def next (t : Trace) (v v' : View) (m : Move) : Trace :=
  (t.move v v' m).record (v'.results.drop v.results.length)

end Trace

variable {G : Gate} {v v' : View} {t t' : Trace} {p q r c n : Nat} {ph : Phase}

@[simp] theorem View.set_self : (v.set p ph).phase p = ph := Function.update_self ..

theorem View.set_other (h : q ≠ p) : (v.set p ph).phase q = v.phase q :=
  Function.update_of_ne h ..

theorem View.set_eq (h : v.phase p = ph) : v.set p ph = v := by
  rw [View.set, ← h, Function.update_eq_self]

theorem Trace.start_late : (t.start v p).late p = decide (0 < v.closes) := Function.update_self ..

theorem Trace.start_after : (t.start v p).after p = t.shut := Function.update_self ..

theorem Trace.start_other (h : q ≠ p) :
    (t.start v p).late q = t.late q ∧ (t.start v p).after q = t.after q :=
  ⟨Function.update_of_ne h .., Function.update_of_ne h ..⟩

/-! ## What is known of a party -/

structure Ticketed (G : Gate) (v : View) (t : Trace) (p r : Nat) : Prop where
  reg : r = G.reg (t.ticket p)
  late : t.late p = true → v.closed = true
  after : t.after p = true → ∃ c, t.sentinel = some c ∧ c < t.ticket p

def Knows (G : Gate) (v : View) (t : Trace) (p : Nat) : Phase → Prop
  | .out | .tries => True
  | .begun _ => (t.late p = true → v.closed = true) ∧ (t.after p = true → t.sentinel ≠ none)
  | .looks r | .waits r => Ticketed G v t p r
  | .tests r => Ticketed G v t p r ∧ v.ready = true
  | .inside r => Ticketed G v t p r ∧
      (t.late p = true → ∃ c, t.sentinel = some c ∧ G.rejects (G.reg c) r = false)
  | .won => t.sentinel = none
  | .stores c => ∃ k, t.sentinel = some k ∧ c = G.reg k
  | .readies _ => ∃ k, t.sentinel = some k ∧ v.cutoff = G.reg k
  | .leaves => t.sentinel ≠ none

/-- What is promised of a call that has returned. -/
structure Call.Settled (G : Gate) (t : Trace) (x : Call) : Prop where
  late : x.after = true → x.late = true
  after : x.after = true → ∃ c, t.sentinel = some c ∧ c < x.ticket
  ok : x.late = true → ∃ c, t.sentinel = some c ∧
    (G.rejects (G.reg c) (G.reg x.ticket) = true → x.ok = false) ∧
    (G.rejects (G.reg c) (G.reg x.ticket) = false → x.ok = true ∨ G.mayFail = true)

structure Inv (G : Gate) (v : View) (t : Trace) : Prop where
  count : v.count = G.reg t.tickets
  opened : v.closed = false → t.sentinel = none ∧ ∀ p, v.phase p ≠ .won
  one : ∀ p q, v.phase p = .won → v.phase q = .won → p = q
  below : ∀ c, t.sentinel = some c → c < t.tickets
  ready : v.ready = true → ∃ k, t.sentinel = some k ∧ v.cutoff = G.reg k
  closes : 0 < v.closes → v.closed = true
  shut : t.shut = true → t.sentinel ≠ none ∧ 0 < v.closes
  after : ∀ p, t.after p = true → t.late p = true
  party : ∀ p, Knows G v t p (v.phase p)
  returned : ∀ x ∈ t.returned, x.Settled G t

theorem Inv.init (hcount : v.count = G.reg 0) (hready : v.ready = false)
    (hphase : ∀ p, v.phase p = .out) (hcloses : v.closes = 0) : Inv G v .init where
  count := hcount
  opened _ := ⟨rfl, fun p hp => by cases (hphase p).symm.trans hp⟩
  one p q hp := by cases (hphase p).symm.trans hp
  below c hc := by cases hc
  ready h := by cases hready.symm.trans h
  closes h := absurd h (by omega)
  shut h := by cases h
  after p h := by cases h
  party p := by
    rw [hphase p]
    trivial
  returned x hx := by cases hx

/-- What has been published stays, and nobody's call begins. -/
structure Grows (G : Gate) (v v' : View) (t t' : Trace) : Prop where
  closed : v.closed = true → v'.closed = true
  ready : v.ready = true → v'.ready = true
  sentinel : ∀ c, t.sentinel = some c → t'.sentinel = some c
  cutoff : ∀ k, t.sentinel = some k → v.cutoff = G.reg k → v'.cutoff = G.reg k
  late : t'.late = t.late
  after : t'.after = t.after

theorem Grows.set (h : Grows G v v' t t') : Grows G v (v'.set p ph) t t' :=
  ⟨h.closed, h.ready, h.sentinel, h.cutoff, h.late, h.after⟩

theorem Grows.ne_none (h : Grows G v v' t t') (hs : t.sentinel ≠ none) : t'.sentinel ≠ none := by
  obtain ⟨c, hc⟩ := Option.ne_none_iff_exists'.mp hs
  rw [h.sentinel c hc]
  exact Option.some_ne_none c

theorem Ticketed.mono (hk : Ticketed G v t p r) (h : Grows G v v' t t')
    (ht : t'.ticket p = t.ticket p) : Ticketed G v' t' p r where
  reg := by rw [ht]; exact hk.reg
  late hl := h.closed (hk.late (h.late ▸ hl))
  after ha := by
    obtain ⟨c, hc, hlt⟩ := hk.after (h.after ▸ ha)
    exact ⟨c, h.sentinel c hc, by rw [ht]; exact hlt⟩

theorem Knows.mono (hk : Knows G v t p ph) (h : Grows G v v' t t')
    (ht : ph.ticket ≠ none → t'.ticket p = t.ticket p)
    (hw : ph = .won → t'.sentinel = none) : Knows G v' t' p ph := by
  cases ph with
  | out | tries => trivial
  | begun n =>
    exact ⟨fun hl => h.closed (hk.1 (h.late ▸ hl)), fun ha => h.ne_none (hk.2 (h.after ▸ ha))⟩
  | looks r | waits r => exact Ticketed.mono hk h (ht (Option.some_ne_none r))
  | tests r => exact ⟨hk.1.mono h (ht (Option.some_ne_none r)), h.ready hk.2⟩
  | inside r =>
    refine ⟨hk.1.mono h (ht (Option.some_ne_none r)), fun hl => ?_⟩
    obtain ⟨c, hc, hr⟩ := hk.2 (h.late ▸ hl)
    exact ⟨c, h.sentinel c hc, hr⟩
  | won => exact hw rfl
  | stores c =>
    obtain ⟨k, hs, hc⟩ := hk
    exact ⟨k, h.sentinel k hs, hc⟩
  | readies c =>
    obtain ⟨k, hs, hc⟩ := hk
    exact ⟨k, h.sentinel k hs, h.cutoff k hs hc⟩
  | leaves => exact h.ne_none hk

/-- What a party knows does not depend on where the others are. -/
theorem Knows.set {ph' : Phase} (hk : Knows G v t q ph') : Knows G (v.set p ph) t q ph' := by
  refine hk.mono (Grows.set ⟨id, id, fun _ => id, fun _ _ => id, rfl, rfl⟩) (fun _ => rfl) ?_
  rintro rfl
  exact hk

theorem Call.Settled.mono {x : Call} (hx : x.Settled G t) (h : Grows G v v' t t') :
    x.Settled G t' where
  late := hx.late
  after ha := by
    obtain ⟨c, hc, hlt⟩ := hx.after ha
    exact ⟨c, h.sentinel c hc, hlt⟩
  ok hl := by
    obtain ⟨c, hc, hok⟩ := hx.ok hl
    exact ⟨c, h.sentinel c hc, hok⟩

/-! ## The moves -/

namespace Inv

theorem won (h : Inv G v t) (hp : v.phase p = .won) : t.sentinel = none := by
  have hk := h.party p
  rwa [hp] at hk

/-- Party `p` moves on to a place of which it knows what it has to. -/
theorem turn (h : Inv G v t) (hph : ph ≠ .won) (hk : Knows G v t p ph) :
    Inv G (v.set p ph) t := by
  have hwon : ∀ q, (v.set p ph).phase q = .won → v.phase q = .won := fun q hq => by
    by_cases hqp : q = p
    · rw [hqp, View.set_self] at hq
      exact absurd hq hph
    · rwa [View.set_other hqp] at hq
  exact
    { count := h.count
      opened := fun hc => ⟨(h.opened hc).1, fun q hq => (h.opened hc).2 q (hwon q hq)⟩
      one := fun q q' hq hq' => h.one q q' (hwon q hq) (hwon q' hq')
      below := h.below
      ready := h.ready
      closes := h.closes
      shut := h.shut
      after := h.after
      party := fun q => by
        by_cases hqp : q = p
        · rw [hqp, View.set_self]
          exact hk.set
        · rw [View.set_other hqp]
          exact (h.party q).set
      returned := h.returned }

theorem fetch (h : Inv G v t) (hp : v.phase p = .begun n) :
    Inv G ({ v with count := G.reg (v.count + n) }.set p (.looks v.count)) (t.take p n) := by
  have hgrow : Grows G v { v with count := G.reg (v.count + n) } t (t.take p n) :=
    ⟨id, id, fun _ => id, fun _ _ => id, rfl, rfl⟩
  have hticket : (t.take p n).ticket p = t.tickets := Function.update_self ..
  have hk := h.party p
  rw [hp] at hk
  have hmid : Inv G { v with count := G.reg (v.count + n) } (t.take p n) :=
    { count := by
        change G.reg (v.count + n) = G.reg (t.tickets + n)
        rw [h.count, G.reg_add]
      opened := h.opened
      one := h.one
      below := fun c hc => Nat.lt_of_lt_of_le (h.below c hc) (Nat.le_add_right ..)
      ready := h.ready
      closes := h.closes
      shut := h.shut
      after := h.after
      party := fun q => by
        refine (h.party q).mono hgrow (fun hq => ?_) fun hw => ?_
        · have hqp : q ≠ p := fun heq => by
            rw [heq] at hq
            exact hq (by rw [show View.phase { v with count := G.reg (v.count + n) } p = v.phase p
              from rfl, hp]; rfl)
          exact Function.update_of_ne hqp ..
        · exact h.won hw
      returned := fun x hx => (h.returned x hx).mono hgrow }
  refine hmid.turn Phase.noConfusion
    ⟨hticket ▸ h.count, hk.1, fun ha => ?_⟩
  obtain ⟨c, hc⟩ := Option.ne_none_iff_exists'.mp (hk.2 ha)
  exact ⟨c, hc, hticket ▸ h.below c hc⟩

theorem start (h : Inv G v t) (hp : v.phase p = .out) : Inv G v (t.start v p) where
  count := h.count
  opened := h.opened
  one := h.one
  below := h.below
  ready := h.ready
  closes := h.closes
  shut := h.shut
  after q ha := by
    by_cases hqp : q = p
    · subst hqp
      rw [Trace.start_after] at ha
      rw [Trace.start_late]
      exact decide_eq_true (h.shut ha).2
    · rw [(Trace.start_other hqp).2] at ha
      rw [(Trace.start_other hqp).1]
      exact h.after q ha
  party q := by
    by_cases hqp : q = p
    · rw [hqp, hp]
      trivial
    · have hl : (t.start v p).late q = t.late q := (Trace.start_other hqp).1
      have ha : (t.start v p).after q = t.after q := (Trace.start_other hqp).2
      have hk := h.party q
      cases hph : v.phase q <;> rw [hph] at hk
      all_goals
        first
        | exact hk
        | exact ⟨fun hx => hk.1 (hl ▸ hx), fun hx => hk.2 (ha ▸ hx)⟩
        | exact ⟨hk.reg, fun hx => hk.late (hl ▸ hx), fun hx => hk.after (ha ▸ hx)⟩
        | exact ⟨⟨hk.1.reg, fun hx => hk.1.late (hl ▸ hx), fun hx => hk.1.after (ha ▸ hx)⟩, hk.2⟩
        | exact ⟨⟨hk.1.reg, fun hx => hk.1.late (hl ▸ hx), fun hx => hk.1.after (ha ▸ hx)⟩,
            fun hx => hk.2 (hl ▸ hx)⟩
  returned x hx := by
    have hs := h.returned x hx
    exact ⟨hs.late, hs.after, hs.ok⟩

theorem begin (h : Inv G v t) (hp : v.phase p = .out) (hph : ph.Begins) :
    Inv G (v.set p ph) (t.start v p) := by
  refine (h.start hp).turn ?_ ?_
  · rcases hph with rfl | rfl | ⟨n, rfl⟩ <;> exact Phase.noConfusion
  · rcases hph with rfl | rfl | ⟨n, rfl⟩
    · trivial
    · trivial
    · refine ⟨fun hl => ?_, fun ha => ?_⟩
      · rw [Trace.start_late] at hl
        exact h.closes (of_decide_eq_true hl)
      · rw [Trace.start_after] at ha
        exact (h.shut ha).1

theorem win (h : Inv G v t) (hc : v.closed = false) :
    Inv G ({ v with closed := true }.set p .won) t := by
  obtain ⟨hs, hnone⟩ := h.opened hc
  have hgrow : Grows G v { v with closed := true } t t :=
    ⟨fun _ => rfl, id, fun _ => id, fun _ _ => id, rfl, rfl⟩
  have hwon : ∀ q, ({ v with closed := true }.set p .won).phase q = .won → q = p := fun q hq => by
    by_contra hqp
    rw [View.set_other hqp] at hq
    exact hnone q hq
  exact
    { count := h.count
      opened := fun hc => by cases hc
      one := fun q q' hq hq' => (hwon q hq).trans (hwon q' hq').symm
      below := h.below
      ready := h.ready
      closes := fun _ => rfl
      shut := h.shut
      after := h.after
      party := fun q => by
        by_cases hqp : q = p
        · rw [hqp, View.set_self]
          exact hs
        · rw [View.set_other hqp]
          exact (h.party q).mono hgrow.set (fun _ => rfl) fun _ => hs
      returned := h.returned }

theorem cut (h : Inv G v t) (hp : v.phase p = .won) :
    Inv G ({ v with count := G.reg (v.count + 1) }.set p (.stores v.count))
      { t with tickets := t.tickets + 1, sentinel := some t.tickets } := by
  have hs := h.won hp
  have hgrow : Grows G v { v with count := G.reg (v.count + 1) } t
      { t with tickets := t.tickets + 1, sentinel := some t.tickets } :=
    ⟨id, id, fun c hc => (by cases hs.symm.trans hc), fun _ _ => id, rfl, rfl⟩
  have hwon : ∀ q, q ≠ p → v.phase q ≠ .won := fun q hqp hq => hqp (h.one q p hq hp)
  have hwon' : ∀ q, ({ v with count := G.reg (v.count + 1) }.set p (.stores v.count)).phase q ≠ .won :=
    fun q hq => by
      by_cases hqp : q = p
      · rw [hqp, View.set_self] at hq
        cases hq
      · rw [View.set_other hqp] at hq
        exact hwon q hqp hq
  exact
    { count := by
        change G.reg (v.count + 1) = G.reg (t.tickets + 1)
        rw [h.count, G.reg_add]
      opened := fun hc => absurd hp ((h.opened hc).2 p)
      one := fun q q' hq => absurd hq (hwon' q)
      below := fun c hc => by
        cases hc
        exact Nat.lt_succ_self _
      ready := fun hr => by
        obtain ⟨k, hk, -⟩ := h.ready hr
        cases hs.symm.trans hk
      closes := h.closes
      shut := fun hx => absurd hs (h.shut hx).1
      after := h.after
      party := fun q => by
        by_cases hqp : q = p
        · rw [hqp, View.set_self]
          exact ⟨t.tickets, rfl, h.count⟩
        · rw [View.set_other hqp]
          exact (h.party q).mono hgrow.set (fun _ => rfl) fun hw => absurd hw (hwon q hqp)
      returned := fun x hx => (h.returned x hx).mono hgrow }

theorem store (h : Inv G v t) (hp : v.phase p = .stores c) :
    Inv G ({ v with cutoff := c }.set p (.readies c)) t := by
  have hk := h.party p
  rw [hp] at hk
  obtain ⟨k, hs, rfl⟩ := hk
  have hgrow : Grows G v { v with cutoff := G.reg k } t t :=
    ⟨id, id, fun _ => id, fun k' hk' _ => by cases hs.symm.trans hk'; rfl, rfl, rfl⟩
  have hmid : Inv G { v with cutoff := G.reg k } t :=
    { h with
      ready := fun _ => ⟨k, hs, rfl⟩
      party := fun q => (h.party q).mono hgrow (fun _ => rfl) h.won
      returned := fun x hx => (h.returned x hx).mono hgrow }
  exact hmid.turn Phase.noConfusion ⟨k, hs, rfl⟩

theorem publish (h : Inv G v t) (hp : v.phase p = .readies c) :
    Inv G ({ v with ready := true }.set p .leaves) t := by
  have hk := h.party p
  rw [hp] at hk
  obtain ⟨k, hs, hc⟩ := hk
  have hgrow : Grows G v { v with ready := true } t t :=
    ⟨id, fun _ => rfl, fun _ => id, fun _ _ => id, rfl, rfl⟩
  have hmid : Inv G { v with ready := true } t :=
    { h with
      ready := fun _ => ⟨k, hs, hc⟩
      party := fun q => (h.party q).mono hgrow (fun _ => rfl) h.won
      returned := fun x hx => (h.returned x hx).mono hgrow }
  refine hmid.turn Phase.noConfusion ?_
  change t.sentinel ≠ none
  rw [hs]
  exact Option.some_ne_none k

/-- A `close()` returns. -/
theorem close (h : Inv G v t) (hc : v.closed = true) {b : Bool}
    (hb : b = true → t.sentinel ≠ none) :
    Inv G ({ v with closes := v.closes + 1 }.set p .out) { t with shut := t.shut || b } := by
  have hmid : Inv G { v with closes := v.closes + 1 } { t with shut := t.shut || b } :=
    { h with
      closes := fun _ => hc
      shut := fun hx => by
        refine ⟨?_, Nat.succ_pos _⟩
        rcases Bool.or_eq_true _ _ ▸ hx with hx | hx
        · exact (h.shut hx).1
        · exact hb hx
      party := fun q => (h.party q).mono ⟨id, id, fun _ => id, fun _ _ => id, rfl, rfl⟩
        (fun _ => rfl) h.won
      returned := fun x hx => ⟨(h.returned x hx).late, (h.returned x hx).after,
        (h.returned x hx).ok⟩ }
  exact hmid.turn Phase.noConfusion trivial

/-- A call returns. -/
theorem finish (h : Inv G v t) {ok : Bool} (hk : Ticketed G v t p r)
    (hok : t.late p = true → ∃ c, t.sentinel = some c ∧
      (G.rejects (G.reg c) r = true → ok = false) ∧
      (G.rejects (G.reg c) r = false → ok = true ∨ G.mayFail = true)) :
    Inv G ({ v with results := v.results ++ [(p, ok)] }.set p .out) (t.record [(p, ok)]) := by
  have hmid : Inv G { v with results := v.results ++ [(p, ok)] } (t.record [(p, ok)]) :=
    { h with
      party := fun q => (h.party q).mono ⟨id, id, fun _ => id, fun _ _ => id, rfl, rfl⟩
        (fun _ => rfl) h.won
      returned := fun x hx => by
        rcases List.mem_append.mp hx with hx | hx
        · exact ⟨(h.returned x hx).late, (h.returned x hx).after, (h.returned x hx).ok⟩
        · obtain rfl := List.mem_singleton.mp hx
          refine ⟨h.after p, hk.after, fun hl => ?_⟩
          obtain ⟨c, hc, hyes, hno⟩ := hok hl
          rw [hk.reg] at hyes hno
          exact ⟨c, hc, hyes, hno⟩ }
  exact hmid.turn Phase.noConfusion trivial

end Inv

theorem Trace.next_quiet {m : Move} (h : v'.results = v.results) :
    t.next v v' m = t.move v v' m := by
  rw [next, h, List.drop_length, record, List.map_nil, List.append_nil]

/-- Only the start of a call changes who is late. -/
theorem Trace.next_late : (t.next v v' (.step p)).late = t.late := by
  rw [next, record, move]
  split <;> rfl

theorem Trace.next_returns {m : Move} {l : List (Nat × Bool)} (h : v'.results = v.results ++ l) :
    t.next v v' m = (t.move v v' m).record l := by
  rw [next, h, List.drop_left]

/-- The steps that leave no mark on the trace but a result. -/
def Phase.plain : Phase → Bool
  | begun _ | won | leaves => false
  | out | looks _ | waits _ | tests _ | inside _ | tries | stores _ | readies _ => true

theorem Trace.move_plain (h : (v.phase p).plain = true) : t.move v v' (.step p) = t := by
  rw [move]
  cases hp : v.phase p <;> rw [hp] at h <;> first | rfl | cases h

/-- **A step of a party.** -/
theorem Inv.step (h : Inv G v t) (hs : Step G p v v') : Inv G v' (t.next v v' (.step p)) := by
  have hk := h.party p
  have hplain : ∀ {ph : Phase} {l : List (Nat × Bool)}, v.phase p = ph → ph.plain = true →
      v'.results = v.results ++ l → t.next v v' (.step p) = t.record l := fun hp hph hl => by
    rw [Trace.next_returns hl, Trace.move_plain (hp ▸ hph)]
  have hquiet : ∀ {ph : Phase}, v.phase p = ph → ph.plain = true → v'.results = v.results →
      t.next v v' (.step p) = t := fun hp hph hr => by
    rw [Trace.next_quiet hr, Trace.move_plain (hp ▸ hph)]
  have hmove : v'.results = v.results → t.next v v' (.step p) = t.move v v' (.step p) :=
    Trace.next_quiet
  cases hs with
  | fetch hp =>
    rw [hmove rfl, Trace.move, hp]
    exact h.fetch hp
  | @pass r hp hc =>
    rw [hquiet hp rfl rfl]
    rw [hp] at hk
    refine h.turn Phase.noConfusion ⟨hk, fun hl => ?_⟩
    cases hc.symm.trans (hk.late hl)
  | @halt r hp hc =>
    rw [hquiet hp rfl rfl]
    rw [hp] at hk
    exact h.turn Phase.noConfusion hk
  | @ready r hp hr =>
    rw [hquiet hp rfl rfl]
    rw [hp] at hk
    exact h.turn Phase.noConfusion ⟨hk, hr⟩
  | @enter r hp hr =>
    rw [hquiet hp rfl rfl]
    rw [hp] at hk
    obtain ⟨c, hc, heq⟩ := h.ready hk.2
    exact h.turn Phase.noConfusion ⟨hk.1, fun _ => ⟨c, hc, heq ▸ hr⟩⟩
  | @reject r hp hr =>
    rw [hplain hp rfl rfl]
    rw [hp] at hk
    obtain ⟨c, hc, heq⟩ := h.ready hk.2
    refine h.finish hk.1 fun _ => ⟨c, hc, fun _ => rfl, fun hno => ?_⟩
    cases hno.symm.trans (heq ▸ hr)
  | @done r ok hp hok =>
    rw [hplain hp rfl rfl]
    rw [hp] at hk
    refine h.finish hk.1 fun hl => ?_
    obtain ⟨c, hc, hno⟩ := hk.2 hl
    exact ⟨c, hc, fun hyes => (by cases hyes.symm.trans hno), fun _ => hok⟩
  | drop hp =>
    rw [hquiet hp rfl rfl]
    exact h.turn Phase.noConfusion trivial
  | win hp hc =>
    rw [hquiet hp rfl rfl]
    exact h.win hc
  | lose hp hc =>
    rw [hquiet hp rfl rfl]
    have hclose := h.close (p := p) (b := false) hc Bool.noConfusion
    rwa [Bool.or_false] at hclose
  | cut hp =>
    rw [hmove rfl, Trace.move, hp]
    exact h.cut hp
  | store hp =>
    rw [hquiet hp rfl rfl]
    exact h.store hp
  | publish hp =>
    rw [hquiet hp rfl rfl]
    exact h.publish hp
  | leave hp =>
    rw [hmove rfl, Trace.move, hp, View.set_self]
    rw [hp] at hk
    have hc : v.closed = true := by
      by_contra hne
      exact hk (h.opened (Bool.not_eq_true _ ▸ hne)).1
    exact h.close (b := true) hc fun _ => hk
  | stay hp =>
    rcases hp with ⟨r, hp | hp⟩ | hp
    · rwa [hquiet hp rfl rfl]
    · rwa [hquiet hp rfl rfl]
    · rw [hmove rfl, Trace.move, hp]
      dsimp only
      rw [decide_eq_false Phase.noConfusion, Bool.or_false]
      exact h

theorem Inv.other (h : Inv G v t) : Inv G v (t.next v v .other) := by
  rw [Trace.next_quiet rfl]
  exact h

theorem Inv.starts (h : Inv G v t) (hp : v.phase p = .out) (hph : ph.Begins) :
    Inv G (v.set p ph) (t.next v (v.set p ph) (.begin p)) := by
  have hnext : t.next v (v.set p ph) (.begin p) = t.start v p := Trace.next_quiet rfl
  rw [hnext]
  exact h.begin hp hph

/-! ## Late calls that are turned away -/

/-- If party `p` takes the ticket of a late call now, the cutoff rejects it. -/
def Timely (G : Gate) (v : View) (t : Trace) (p : Nat) : Prop :=
  ∀ n, v.phase p = .begun n → t.late p = true →
    ∃ c, t.sentinel = some c ∧ G.rejects (G.reg c) (G.reg t.tickets) = true

structure Turned (G : Gate) (v : View) (t : Trace) : Prop where
  party : ∀ p r, (v.phase p).ticket = some r → t.late p = true →
    ∃ c, t.sentinel = some c ∧ G.rejects (G.reg c) r = true
  returned : ∀ x ∈ t.returned, x.late = true → x.ok = false

namespace Turned

theorem init (hphase : ∀ p, v.phase p = .out) : Turned G v .init where
  party p r hr := by
    rw [hphase p] at hr
    cases hr
  returned x hx := by cases hx

/-- A late call is not let in. -/
theorem not_inside (hT : Turned G v t) (h : Inv G v t) (hp : v.phase p = .inside r) :
    t.late p = false := by
  by_contra hne
  have hl : t.late p = true := Bool.not_eq_false _ ▸ hne
  have hk := h.party p
  rw [hp] at hk
  obtain ⟨c, hc, hno⟩ := hk.2 hl
  obtain ⟨c', hc', hyes⟩ := hT.party p r (by rw [hp]; rfl) hl
  cases hc.symm.trans hc'
  cases hno.symm.trans hyes

/-- Party `p` has taken no ticket. -/
theorem turn (hT : Turned G v t) (hph : ph.ticket = none ∨ ph.ticket = (v.phase p).ticket) :
    Turned G (v.set p ph) t where
  party q r hr hl := by
    by_cases hqp : q = p
    · subst hqp
      rw [View.set_self] at hr
      rcases hph with hnone | hsame
      · cases hnone.symm.trans hr
      · exact hT.party q r (hsame ▸ hr) hl
    · rw [View.set_other hqp] at hr
      exact hT.party q r hr hl
  returned := hT.returned

theorem step (hT : Turned G v t) (h : Inv G v t) (hs : Step G p v v') (ht : Timely G v t p) :
    Turned G v' (t.next v v' (.step p)) := by
  have hplain : ∀ {ph : Phase} {l : List (Nat × Bool)}, v.phase p = ph → ph.plain = true →
      v'.results = v.results ++ l → t.next v v' (.step p) = t.record l := fun hp hph hl => by
    rw [Trace.next_returns hl, Trace.move_plain (hp ▸ hph)]
  have hquiet : ∀ {ph : Phase}, v.phase p = ph → ph.plain = true → v'.results = v.results →
      t.next v v' (.step p) = t := fun hp hph hr => by
    rw [Trace.next_quiet hr, Trace.move_plain (hp ▸ hph)]
  have hmove : v'.results = v.results → t.next v v' (.step p) = t.move v v' (.step p) :=
    Trace.next_quiet
  have hreturn : ∀ {ok : Bool}, (t.late p = true → ok = false) →
      Turned G ({ v with results := v.results ++ [(p, ok)] }.set p .out) (t.record [(p, ok)]) :=
    fun hok =>
      { party := (hT.turn (.inl rfl)).party
        returned := fun x hx => by
          rcases List.mem_append.mp hx with hx | hx
          · exact hT.returned x hx
          · obtain rfl := List.mem_singleton.mp hx
            exact hok }
  cases hs with
  | @fetch n hp =>
    rw [hmove rfl, Trace.move, hp]
    refine ⟨fun q r hr hl => ?_, hT.returned⟩
    by_cases hqp : q = p
    · subst hqp
      rw [View.set_self] at hr
      cases hr
      obtain ⟨c, hc, hyes⟩ := ht n hp hl
      exact ⟨c, hc, h.count ▸ hyes⟩
    · rw [View.set_other hqp] at hr
      exact hT.party q r hr hl
  | pass hp | halt hp | ready hp | enter hp =>
    rw [hquiet hp rfl rfl]
    exact hT.turn (.inr (by rw [hp]; rfl))
  | reject hp =>
    rw [hplain hp rfl rfl]
    exact hreturn fun _ => rfl
  | done hp =>
    rw [hplain hp rfl rfl]
    refine hreturn fun hl => ?_
    cases (hT.not_inside h hp).symm.trans hl
  | drop hp =>
    rw [hquiet hp rfl rfl]
    exact hT.turn (.inl rfl)
  | win hp | lose hp | store hp | publish hp =>
    rw [hquiet hp rfl rfl]
    exact ⟨(hT.turn (.inl rfl)).party, hT.returned⟩
  | cut hp =>
    rw [hmove rfl, Trace.move, hp]
    refine ⟨fun q r hr hl => ?_, hT.returned⟩
    obtain ⟨c, hc, -⟩ := (hT.turn (p := p) (.inl rfl)).party q r hr hl
    cases (h.won hp).symm.trans hc
  | leave hp =>
    rw [hmove rfl, Trace.move, hp]
    exact ⟨(hT.turn (.inl rfl)).party, hT.returned⟩
  | stay hp =>
    rcases hp with ⟨r, hp | hp⟩ | hp
    · rwa [hquiet hp rfl rfl]
    · rwa [hquiet hp rfl rfl]
    · rw [hmove rfl, Trace.move, hp]
      exact ⟨hT.party, hT.returned⟩

theorem starts (hT : Turned G v t) (hph : ph.Begins) :
    Turned G (v.set p ph) (t.next v (v.set p ph) (.begin p)) := by
  have hnext : t.next v (v.set p ph) (.begin p) = t.start v p := Trace.next_quiet rfl
  rw [hnext]
  refine ⟨fun q r hr hl => ?_, hT.returned⟩
  by_cases hqp : q = p
  · rw [hqp, View.set_self] at hr
    rcases hph with rfl | rfl | ⟨n, rfl⟩ <;> cases hr
  · rw [View.set_other hqp] at hr
    exact hT.party q r hr ((Trace.start_other hqp).1 ▸ hl)

end Turned

end Gate

end CoroUtil.General
