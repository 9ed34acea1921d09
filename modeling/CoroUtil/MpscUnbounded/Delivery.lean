import Mathlib.Data.List.Pairwise
import CoroUtil.MpscUnbounded.Tickets

/-!
# Delivery in ticket order

`TicketOrder` says what the consumer of the queue is promised: the values of the
accepted calls in the order of their tickets, CLOSED behind the last of them, and
a wakeup.  `ticket_order` is that every run has it that takes fewer tickets than
half the range of a register.
-/

namespace CoroUtil.MpscUnbounded

open CoroUtil.Blocks CoroUtil.General

variable {V : Type}

/-- The call of a task that has passed the closed test, and its ticket. -/
def Pc.accepted : Pc V → Option (Put V × Nat)
  | loadHint (.put w) idx | hintOffset (.put w) idx _ | loadWriteBlock (.put w) idx
  | assertWriteBlock (.put w) idx _ | assertObserved w idx _ | find (.put w) idx _ _
  | findEnd w idx _ _ _ | hintCurrent w idx _ _ _ | hintTarget w idx _ _ _ _
  | hintCas w idx _ _ _ | emplace w idx _ _ | publish w idx _ _ | resumeConsumer w idx _ _ _
  | nextBlock w idx _ _ => some (w, idx)
  | idle | fetchTicket _ | loadClosed .. | spinReady .. | loadClosedAt .. | loadHint .close _
  | hintOffset .close _ _ | loadWriteBlock .close _ | assertWriteBlock .close _ _
  | find .close _ _ _ | closeCas | closeTicket | storeClosedAt _ | storeReady _
  | exchangeClosed .. | elemNull .. | closeResume .. => none

/-- A call that has been accepted: it has returned true, or it is going to. -/
inductive State.Accepted (s : State V) : Put V → Nat → Prop
  | post {x : Post V} (hx : x ∈ s.posts) (hok : x.ok = true) : s.Accepted x.put x.ticket
  | task {p : Tid} {w : Put V} {idx : Nat} (hp : (s.task p).accepted = some (w, idx)) :
    s.Accepted w idx

/-- The call with ticket `idx` puts `v` at index `n`. -/
def Put.At (w : Put V) (idx n : Nat) (v : V) : Prop := ∃ i < w.count, n = idx + i ∧ v = w.item i

/-- `c` is the ticket of the sentinel. -/
def State.Sentinel (s : State V) (c : Nat) : Prop :=
  (∃ p, s.task p = .storeClosedAt c ∨ s.task p = .storeReady c) ∨
    s.closedReady = true ∧ s.writeClosedAt = c

/-- No task has a step to take. -/
def State.AtRest (o : Offsets) (cfg : Config) (s : State V) : Prop :=
  ∀ p spurious, s.taskStep o cfg p spurious = none

structure TicketOrder (o : Offsets) (cfg : Config) (s : State V) : Prop where
  /-- The values are handed out in the order of their indices, none left out. -/
  order : (handed s.pulls).map Prod.fst = List.range (handed s.pulls).length
  /-- Each of them is the value that an accepted call has put at its index. -/
  value : ∀ n v, (n, v) ∈ handed s.pulls → ∃ w idx, s.Accepted w idx ∧ w.At idx n v
  /-- No index has two values, and no two calls an index in common. -/
  unique : ∀ w idx n v, s.Accepted w idx → w.At idx n v →
    ∀ w' idx' v', s.Accepted w' idx' → w'.At idx' n v' → idx' = idx ∧ w' = w ∧ v' = v
  apart : s.posts.Pairwise fun x y => ∀ n, x.Covers n → ¬y.Covers n
  /-- A call that is rejected constructs nothing. -/
  constructed : ∀ n v, (n, v) ∈ s.constructed → ∃ w idx, s.Accepted w idx ∧ w.At idx n v
  /-- A call is accepted exactly when its ticket is below the sentinel's. -/
  cutoff : ∀ x ∈ s.posts, x.ok = true ↔ ∀ c, s.Sentinel c → x.ticket < c
  below : ∀ w idx, s.Accepted w idx → ∀ c, s.Sentinel c → idx + w.count ≤ c
  /-- CLOSED comes when every accepted value has been handed out, and for good. -/
  drained : Pull.closed ∈ s.pulls → ∀ w idx n v, s.Accepted w idx → w.At idx n v →
    (n, v) ∈ handed s.pulls
  last : ∀ l l', s.pulls = l ++ Pull.closed :: l' → ∀ x ∈ l', x = .closed
  /-- A consumer that sleeps while no task can take a step has been told everything. -/
  asleep : s.AtRest o cfg → ∀ idx b e, s.consumer = .suspended idx b e →
    s.closes = 0 ∧ ∀ w idx n v, s.Accepted w idx → w.At idx n v → (n, v) ∈ handed s.pulls

variable {cfg : Config} {s s' : State V} {m : Map V} {p : Tid} {w : Put V} {a : Act V}
  {n idx k : Nat} {v : V} {o : Offsets}

/-! ## `close()` in progress -/

/-- The closer has not published its ticket. -/
def Pc.closing : Pc V → Bool
  | closeTicket | storeClosedAt _ | storeReady _ => true
  | _ => false

structure Closing (s : State V) : Prop where
  ready : s.closed = true → s.closedReady = true ∨ ∃ p, (s.task p).closing = true
  closes : 0 < s.closes → s.closed = true

theorem Closing.init : Closing (.init : State V) where
  ready h := by cases h
  closes h := absurd h (Nat.lt_irrefl _)

theorem State.closing_step {spurious : Bool} (h : s.taskStep o cfg p spurious = some s')
    (hc : (s.task p).closing = true) :
    s'.closedReady = true ∨ (s'.task p).closing = true := by
  have hself : ∀ {t : State V} {pc : Pc V}, (t.setTask p pc).task p = pc :=
    fun {_ _} => Function.update_self ..
  cases hpc : s.task p <;> rw [hpc] at hc <;> try cases hc
  all_goals
    rw [State.taskStep, hpc] at h
    cases h
  case closeTicket | storeClosedAt idx =>
    refine .inr ?_
    rw [hself]
    rfl
  case storeReady idx => exact .inl rfl

/-- The tasks' steps keep what the closers have published. -/
theorem Signals.step_mono {x : Signals} {pc : Pc V} :
    (x.closed = true → (x.step o cfg pc).closed = true) ∧
      (x.closedReady = true → (x.step o cfg pc).closedReady = true) := by
  cases pc <;> exact ⟨fun h => by first | exact h | rfl, fun h => by first | exact h | rfl⟩

theorem Closing.step (h : Closing s) (hi : Inv cfg s m) (hs : step .natural cfg s a = some s') :
    Closing s' := by
  rcases step_cases hs with ⟨p, spurious, rfl, ht⟩ | ⟨-, ⟨p, pc, hpc, -, rfl⟩ | hp⟩
  · have hseen := State.taskStep_seen ht
    have hclosed : s'.closed = (s.signals.step .natural cfg (s.task p)).closed :=
      congrArg Signals.closed hseen.signals
    have hready : s'.closedReady = (s.signals.step .natural cfg (s.task p)).closedReady :=
      congrArg Signals.closedReady hseen.signals
    have hmono : s.closed = true → s'.closed = true :=
      fun hc => hclosed.trans ((Signals.step_mono (x := s.signals)).1 hc)
    refine ⟨fun hc => ?_, fun hpos => ?_⟩
    · by_cases hold : s.closed = true
      · rcases h.ready hold with hr | ⟨q, hq⟩
        · exact .inl (hready.trans ((Signals.step_mono (x := s.signals)).2 hr))
        · by_cases hqp : q = p
          · subst hqp
            exact (State.closing_step ht hq).imp_right fun hc => ⟨q, hc⟩
          · exact .inr ⟨q, by rw [hseen.other q hqp]; exact hq⟩
      · -- only the winner of the compare-exchange closes the queue
        rw [hclosed] at hc
        cases hpc : s.task p <;> rw [hpc] at hc <;> try exact absurd hc hold
        refine .inr ⟨p, ?_⟩
        rw [State.taskStep, hpc] at ht
        dsimp only at ht
        rw [if_neg hold] at ht
        cases ht
        rw [show (State.setTask _ p _).task p = .closeTicket from Function.update_self ..]
        rfl
    · rcases hseen.closes with heq | ⟨-, hret⟩
      · exact hmono (h.closes (heq ▸ hpos))
      · refine hmono ?_
        have hk := hi.task p
        cases hpc : s.task p <;> rw [hpc] at hret hk <;> try exact hret.elim
        · exact hret
        · exact (hi.ledger.cut _ (hi.ledger.closer p _ hk.1.1)).2.1
        · exact (hi.ledger.cut _ (hi.ledger.closer p _ hk.1.1)).2.1
  · refine ⟨fun hc => (h.ready hc).imp_right ?_, h.closes⟩
    rintro ⟨q, hq⟩
    have hqp : q ≠ p := fun heq => by
      rw [heq, hpc] at hq
      cases hq
    have hsame : (s.setTask p pc).task q = s.task q := Function.update_of_ne hqp ..
    exact ⟨q, hsame ▸ hq⟩
  · have hclosed : s'.closed = s.closed := congrArg (fun x => x.signals.closed) hp
    have hready : s'.closedReady = s.closedReady := congrArg (fun x => x.signals.closedReady) hp
    have htask : s'.task = s.task := congrArg Producers.task hp
    have hcloses : s'.closes = s.closes := congrArg Producers.closes hp
    exact ⟨by rw [hclosed, hready, htask]; exact h.ready, by rw [hclosed, hcloses]; exact h.closes⟩

theorem reachable_closing (h : (system V .natural cfg).Reachable s) :
    (∃ m, Inv cfg s m) ∧ Closing s := by
  refine System.Reach.invariant (I := fun s => (∃ m, Inv cfg s m) ∧ Closing s) ?_ ?_ h
  · rintro s rfl
    exact ⟨⟨_, .init⟩, .init⟩
  · rintro s a s' ⟨⟨m, hm⟩, hc⟩ - hs
    exact ⟨hm.step hs, hc.step hm hs⟩

/-- The sentinel has the ticket that the ledger calls the cutoff. -/
theorem Closing.cut_iff (h : Closing s) (hi : Inv cfg s m) : m.cut = some n ↔ s.Sentinel n := by
  constructor
  · intro hcut
    rcases h.ready (hi.ledger.cut n hcut).2.1 with hr | ⟨p, hp⟩
    · refine .inr ⟨hr, ?_⟩
      exact Option.some.inj ((hi.ready hr).symm.trans hcut)
    · have hk := hi.task p
      cases hpc : s.task p <;> rw [hpc] at hp hk <;> try cases hp
      · cases hcut.symm.trans (hi.ledger.winner p hk).2.1
      · cases hcut.symm.trans (hi.ledger.closer p _ hk.1)
        exact .inl ⟨p, .inl hpc⟩
      · cases hcut.symm.trans (hi.ledger.closer p _ hk.1.1)
        exact .inl ⟨p, .inr hpc⟩
  · rintro (⟨p, hpc | hpc⟩ | ⟨hr, rfl⟩)
    · have hk := hi.task p
      rw [hpc] at hk
      exact hi.ledger.closer p n hk.1
    · have hk := hi.task p
      rw [hpc] at hk
      exact hi.ledger.closer p n hk.1.1
    · exact hi.ready hr

/-! ## Accepted calls -/

theorem Knows.role_of_accepted {r : Role V} {pc : Pc V} (h : Knows cfg s m r pc)
    (hp : pc.accepted = some (w, idx)) : ∃ k, r = .put w idx k true := by
  cases pc with
  | loadHint j i | loadWriteBlock j i =>
    cases j <;> cases hp
    exact ⟨0, h.1⟩
  | hintOffset j i b | assertWriteBlock j i b | find j i b f =>
    cases j <;> cases hp
    exact ⟨0, h.1.1⟩
  | assertObserved w i b | findEnd w i b f c | hintCurrent w i b c d | hintTarget w i b c d e
  | hintCas w i b c d | emplace w i k b | publish w i k b | resumeConsumer w i k b f
  | nextBlock w i k b =>
    cases hp
    exact ⟨_, h.1.1⟩
  | _ => cases hp

theorem Knows.accepted_of_role {pc : Pc V} (h : Knows cfg s m (.put w idx k true) pc) :
    pc.accepted = some (w, idx) := by
  cases pc with
  | idle | closeCas | closeTicket | loadClosed => cases h
  | fetchTicket | spinReady | loadClosedAt | storeClosedAt => cases h.1
  | storeReady | exchangeClosed | elemNull | closeResume => cases h.1.1
  | loadHint j i | loadWriteBlock j i =>
    cases j <;> cases h.1
    rfl
  | hintOffset j i b | assertWriteBlock j i b | find j i b f =>
    cases j <;> cases h.1.1
    rfl
  | _ =>
    cases h.1.1
    rfl

/-- An accepted call in progress is in the ledger. -/
theorem Inv.put_of_accepted (h : Inv cfg s m) (hp : (s.task p).accepted = some (w, idx)) :
    ∃ k, m.role p = .put w idx k true ∧ (m.ledger s).PutOk w idx k true := by
  obtain ⟨k, hr⟩ := (h.task p).role_of_accepted hp
  exact ⟨k, hr, h.ledger.put p w idx k true hr⟩

theorem Inv.accepted_of_put (h : Inv cfg s m) (hr : m.role p = .put w idx k true) :
    (s.task p).accepted = some (w, idx) := by
  have hk := h.task p
  rw [hr] at hk
  exact hk.accepted_of_role

/-- What has been published at an index of an accepted call is its item. -/
theorem State.Accepted.ready (ha : s.Accepted w idx) (h : Inv cfg s m) {u : V}
    (hv : w.At idx n v) (hu : m.stage n = .ready u) : u = v := by
  obtain ⟨i, hi, rfl, rfl⟩ := hv
  cases ha with
  | post hx hok =>
    have hst := ((h.ledger.post _ hx).accepted hok).1 i hi
    cases hst.symm.trans hu
    rfl
  | task hp =>
    obtain ⟨k, -, hput⟩ := h.put_of_accepted hp
    rcases Nat.lt_trichotomy i k with hlt | rfl | hgt
    · cases (hput.done i hlt).symm.trans hu
      rfl
    · exact absurd hu (hput.stage_next hi u)
    · cases (hput.todo i hgt hi).symm.trans hu

/-- Whatever has been constructed belongs to an accepted call. -/
theorem Inv.accepted (h : Inv cfg s m) (hv : m.stage n = .built v ∨ m.stage n = .ready v) :
    ∃ w idx, s.Accepted w idx ∧ w.At idx n v := by
  have hblank : m.stage n ≠ .blank := by
    rintro hb
    rcases hv with hv | hv <;> cases hb.symm.trans hv
  have hlt : n < s.writeOffset := by
    by_contra hge
    exact hblank (h.ledger.unused n (Nat.not_lt.mp hge))
  have hcut : m.cut ≠ some n := fun hc => by
    rcases (h.ledger.cut n hc).2.2 with hm | ⟨hb, -⟩
    · rcases hv with hv | hv <;> cases hm.symm.trans hv
    · exact hblank hb
  rcases h.ledger.cover n hlt with ⟨x, hx, hle, hn⟩ | ⟨p, hp⟩ | hc
  · obtain ⟨i, rfl⟩ : ∃ i, n = x.ticket + i := ⟨n - x.ticket, by omega⟩
    have hi : i < x.put.count := by omega
    have hok : x.ok = true := by
      by_contra hne
      exact hblank (((h.ledger.post x hx).rejected (Bool.not_eq_true _ ▸ hne)).1 i hi)
    have hst := ((h.ledger.post x hx).accepted hok).1 i hi
    refine ⟨x.put, x.ticket, .post hx hok, i, hi, rfl, ?_⟩
    rcases hv with hv | hv <;> cases hst.symm.trans hv
    rfl
  · have hp : (m.role p).Covers n := hp
    cases hr : m.role p with
    | put w idx k acc =>
      rw [hr] at hp
      obtain ⟨hle, hn⟩ := hp
      obtain ⟨i, rfl⟩ : ∃ i, n = idx + i := ⟨n - idx, by omega⟩
      have hi : i < w.count := by omega
      have hput := h.ledger.put p w idx k acc hr
      have hacc : acc = true := by
        by_contra hne
        exact hblank (hput.fresh (Bool.not_eq_true _ ▸ hne) i hi)
      subst hacc
      refine ⟨w, idx, .task (h.accepted_of_put hr), i, hi, rfl, ?_⟩
      rcases Nat.lt_trichotomy i k with hlt | rfl | hgt
      · have hst := hput.done i hlt
        rcases hv with hv | hv <;> cases hst.symm.trans hv
        rfl
      · rcases hput.next hi with hb | hst
        · exact absurd hb hblank
        · rcases hv with hv | hv <;> cases hst.symm.trans hv
          rfl
      · exact absurd (hput.todo i hgt hi) hblank
    | closer c =>
      rw [hr] at hp
      have hp : n = c := hp
      exact absurd (hp ▸ h.ledger.closer p c hr) hcut
    | out | winner =>
      rw [hr] at hp
      exact hp.elim
  · exact absurd hc hcut

/-- What the consumer has passed it has been handed. -/
theorem Inv.handed (h : Inv cfg s m) (hlt : n < s.readOffset) (hv : m.stage n = .ready v) :
    (n, v) ∈ handed s.pulls := by
  have hmem : n ∈ (MpscUnbounded.handed s.pulls).map Prod.fst := by
    rw [h.recorded.indices, List.mem_range]
    omega
  obtain ⟨⟨n', u⟩, hu, rfl⟩ := List.mem_map.mp hmem
  cases (h.recorded.values n' u hu).symm.trans hv
  exact hu

theorem State.Accepted.handed (ha : s.Accepted w idx) (h : Inv cfg s m) (hv : w.At idx n v)
    (hlt : n < s.readOffset) : (n, v) ∈ handed s.pulls := by
  obtain ⟨u, hu⟩ := h.ledger.released n hlt
  rw [← ha.ready h hv hu]
  exact h.handed hlt hu

theorem State.Accepted.le_cut (ha : s.Accepted w idx) (h : Inv cfg s m) {c : Nat}
    (hc : m.cut = some c) : idx + w.count ≤ c := by
  cases ha with
  | post hx hok => exact ((h.ledger.post _ hx).accepted hok).2 c hc
  | task hp =>
    obtain ⟨k, -, hput⟩ := h.put_of_accepted hp
    exact (hput.cutoff c hc).resolve_right fun hr => by cases hr.1

theorem State.Accepted.top (ha : s.Accepted w idx) (h : Inv cfg s m) :
    idx + w.count ≤ s.writeOffset := by
  cases ha with
  | post hx hok => exact (h.ledger.post _ hx).top
  | task hp =>
    obtain ⟨k, -, hput⟩ := h.put_of_accepted hp
    exact hput.top

/-- Two accepted calls with an index in common are one. -/
theorem State.Accepted.unique {w' : Put V} {idx' : Nat} {v' : V} (ha : s.Accepted w idx)
    (h : Inv cfg s m) (hv : w.At idx n v) (ha' : s.Accepted w' idx') (hv' : w'.At idx' n v') :
    idx' = idx ∧ w' = w := by
  obtain ⟨i, hi, hn, -⟩ := hv
  obtain ⟨i', hi', hn', -⟩ := hv'
  cases ha with
  | @post x hx hok =>
    have hcx : x.Covers n := ⟨by omega, by omega⟩
    cases ha' with
    | @post y hy hok' =>
      have hcy : y.Covers n := ⟨by omega, by omega⟩
      by_cases heq : x = y
      · rw [heq]
        exact ⟨rfl, rfl⟩
      · have hsymm : Std.Symm fun x y : Post V => ∀ n, x.Covers n → ¬y.Covers n :=
          ⟨fun _ _ hxy n hyn hxn => hxy n hxn hyn⟩
        exact absurd hcy (h.ledger.apart.forall hx hy heq n hcx)
    | @task p _ _ hp =>
      obtain ⟨k, hr, -⟩ := h.put_of_accepted hp
      refine absurd ?_ (h.ledger.posted x hx n hcx p)
      rw [show (m.ledger s).role p = m.role p from rfl, hr]
      exact ⟨by omega, by omega⟩
  | @task p _ _ hp =>
    obtain ⟨k, hr, -⟩ := h.put_of_accepted hp
    have hcp : (m.role p).Covers n := by
      rw [hr]
      exact ⟨by omega, by omega⟩
    cases ha' with
    | @post y hy hok' =>
      exact absurd hcp (h.ledger.posted y hy n ⟨by omega, by omega⟩ p)
    | @task q _ _ hq =>
      obtain ⟨k', hr', -⟩ := h.put_of_accepted hq
      have hcq : (m.role q).Covers n := by
        rw [hr']
        exact ⟨by omega, by omega⟩
      obtain rfl := h.ledger.owner p q n hcp hcq
      cases hp.symm.trans hq
      exact ⟨rfl, rfl⟩

/-! ## States at rest -/

/-- A task that has no step to take is between two calls. -/
theorem State.idle_of_rest {spurious : Bool} (h : s.taskStep o cfg p spurious = none) :
    s.task p = .idle := by
  cases hpc : s.task p
  case idle => rfl
  all_goals
    rw [State.taskStep, hpc] at h
    dsimp only at h
  case hintOffset | loadClosedAt | hintCas | closeCas => split at h <;> cases h
  case find j idx observed f =>
    generalize f.step o cfg.toLayout idx s.heap = x at h
    obtain ⟨heap, ok, f'⟩ := x
    cases f' <;> cases h
  case findEnd w idx observed b f =>
    generalize f.step o cfg.toLayout _ s.heap = x at h
    obtain ⟨heap, ok, f'⟩ := x
    cases f' <;> cases h
  case publish =>
    split at h
    · split at h <;> cases h
    · cases h
  case nextBlock =>
    split at h
    · cases h
    · split at h <;> cases h
  case exchangeClosed => split at h <;> cases h
  case elemNull =>
    split at h
    · split at h <;> cases h
    · cases h
  all_goals cases h

theorem Inv.role_out (h : Inv cfg s m) (hp : s.task p = .idle) : m.role p = .out := by
  have hk := h.task p
  rw [hp] at hk
  exact hk

theorem Inv.asleep (h : Inv cfg s m) (hc : Closing s) (hrest : ∀ p, s.task p = .idle) {b : Nat}
    {e : Bool} (hs : s.consumer = .suspended idx b e) :
    s.closes = 0 ∧ s.writeOffset ≤ s.readOffset := by
  have hk := h.consumer
  rw [hs] at hk
  obtain ⟨-, ⟨rfl, -⟩, -⟩ := hk
  have hwake : ∀ {P : Prop}, m.stage s.readOffset = .mark ∨ (∃ v, m.stage s.readOffset = .ready v) →
      P := fun hst => by
    obtain ⟨p, hp⟩ := h.wake _ b e hs hst
    rw [hrest p] at hp
    cases hp
  have hcut : ∀ c, m.cut = some c → s.readOffset ≤ c := fun c hc => by
    obtain ⟨-, -, hst⟩ := h.ledger.cut c hc
    refine h.ledger.read_le_of fun v hv => ?_
    rcases hst with hst | ⟨hst, -⟩ <;> cases hst.symm.trans hv
  have hle : s.writeOffset ≤ s.readOffset := by
    by_contra hlt
    rcases h.ledger.cover s.readOffset (Nat.not_le.mp hlt) with ⟨x, hx, hn⟩ | ⟨p, hp⟩ | hc
    · obtain ⟨hxle, hxlt⟩ := hn
      have hpost := h.ledger.post x hx
      cases hok : x.ok with
      | true =>
        have hst := (hpost.accepted hok).1 (s.readOffset - x.ticket) (by omega)
        rw [Nat.add_sub_cancel' hxle] at hst
        exact hwake (.inr ⟨_, hst⟩)
      | false =>
        obtain ⟨-, c, hc, hclt⟩ := hpost.rejected hok
        have hrc := hcut c hc
        omega
    · rw [show (m.ledger s).role p = m.role p from rfl, h.role_out (hrest p)] at hp
      exact hp
    · have hst := (h.ledger.cut _ hc).2.2
      rcases hst with hst | ⟨-, p, hp⟩
      · exact hwake (.inl hst)
      · rw [show (m.ledger s).role p = m.role p from rfl, h.role_out (hrest p)] at hp
        cases hp
  refine ⟨?_, hle⟩
  by_contra hne
  have hclosed := hc.closes (Nat.pos_of_ne_zero hne)
  cases hm : m.cut with
  | none =>
    obtain ⟨p, hp⟩ := h.ledger.won hclosed hm
    rw [show (m.ledger s).role p = m.role p from rfl, h.role_out (hrest p)] at hp
    cases hp
  | some c =>
    have hlt := (h.ledger.cut c hm).1
    have hrc := hcut c hm
    have hlt : c < s.writeOffset := hlt
    omega

/-- **Delivery on natural offsets.** -/
theorem Inv.ticketOrder (h : Inv cfg s m) (hc : Closing s) : TicketOrder .natural cfg s where
  order := by
    have hlen := congrArg List.length h.recorded.indices
    rw [List.length_map, List.length_range] at hlen
    rw [hlen]
    exact h.recorded.indices
  value n v hv := h.accepted (.inr (h.recorded.values n v hv))
  unique w idx n v ha hv w' idx' v' ha' hv' := by
    obtain ⟨rfl, rfl⟩ := ha.unique h hv ha' hv'
    obtain ⟨i, -, rfl, rfl⟩ := hv
    obtain ⟨i', -, hi, rfl⟩ := hv'
    exact ⟨rfl, rfl, by rw [Nat.add_left_cancel hi]⟩
  apart := h.ledger.apart
  constructed n v hv := h.accepted ((h.recorded.constructed n v).mp hv)
  cutoff x hx := by
    have hpost := h.ledger.post x hx
    have hpos := hpost.pos
    refine ⟨fun hok c hs => ?_, fun hlt => ?_⟩
    · have hle := (hpost.accepted hok).2 c ((hc.cut_iff h).mpr hs)
      omega
    · by_contra hne
      obtain ⟨-, c, hcut, hgt⟩ := hpost.rejected (Bool.not_eq_true _ ▸ hne)
      have hlt := hlt c ((hc.cut_iff h).mp hcut)
      omega
  below w idx ha c hs := ha.le_cut h ((hc.cut_iff h).mpr hs)
  drained hcl w idx n v ha hv := by
    have hcut := h.ledger.mark _ (h.recorded.closed hcl)
    have hle := ha.le_cut h hcut
    refine ha.handed h hv ?_
    obtain ⟨i, hi, rfl, -⟩ := hv
    omega
  last := h.recorded.last
  asleep hrest idx b e hs := by
    obtain ⟨hcl, hle⟩ := h.asleep hc (fun p => State.idle_of_rest (hrest p false)) hs
    refine ⟨hcl, fun w idx n v ha hv => ha.handed h hv ?_⟩
    have htop := ha.top h
    obtain ⟨i, hi, rfl, -⟩ := hv
    omega

/-! ## On registers -/

theorem Pc.accepted_wrap {pc : Pc V} : (pc.wrap cfg.toLayout).accepted =
    pc.accepted.map fun x => (x.1, word cfg.bits x.2) := by
  cases pc with
  | loadHint j i | loadWriteBlock j i | hintOffset j i b | assertWriteBlock j i b | find j i b f =>
    cases j <;> rfl
  | _ => rfl

theorem mem_handed {l : List (Pull V)} (hx : Pull.ok n v ∈ l) : (n, v) ∈ handed l := by
  induction l with
  | nil => cases hx
  | cons y l ih =>
    rcases List.mem_cons.mp hx with rfl | hx'
    · exact List.mem_cons_self
    · cases y
      · exact List.mem_cons_of_mem _ (ih hx')
      all_goals exact ih hx'

/-- The offsets have not wrapped. -/
structure Unwrapped (cfg : Config) (s : State V) (m : Map V) : Prop where
  inv : Inv cfg s m
  write : s.writeOffset < 2 ^ cfg.bits

namespace Unwrapped

variable (h : Unwrapped cfg s m)
include h

theorem word_eq (hn : n ≤ s.writeOffset) : word cfg.bits n = n :=
  word_of_lt (hn.trans_lt h.write)

theorem stage_lt (hv : m.stage n ≠ .blank) : n < s.writeOffset := by
  by_contra hge
  exact hv (h.inv.ledger.unused n (Nat.not_lt.mp hge))

theorem posts : (s.wrap cfg.toLayout).posts = s.posts := by
  refine (List.map_congr_left fun x hx => ?_).trans (List.map_id s.posts)
  have htop : x.ticket + x.put.count ≤ s.writeOffset := (h.inv.ledger.post x hx).top
  rw [Post.wrap, show cfg.toLayout.bits = cfg.bits from rfl, h.word_eq (by omega)]
  rfl

theorem constructed : (s.wrap cfg.toLayout).constructed = s.constructed := by
  refine (List.map_congr_left fun x hx => ?_).trans (List.map_id s.constructed)
  have hst := (h.inv.recorded.constructed x.1 x.2).mp hx
  have hlt := h.stage_lt (n := x.1) fun hb => by
    rcases hst with hst | hst <;> cases hb.symm.trans hst
  rw [show cfg.toLayout.bits = cfg.bits from rfl, h.word_eq hlt.le]
  rfl

theorem pulls : (s.wrap cfg.toLayout).pulls = s.pulls := by
  refine (List.map_congr_left fun x hx => ?_).trans (List.map_id s.pulls)
  cases x with
  | ok n v =>
    have hst := h.inv.recorded.values n v (mem_handed hx)
    have hlt := h.stage_lt (n := n) fun hb => by cases hb.symm.trans hst
    rw [Pull.wrap, show cfg.toLayout.bits = cfg.bits from rfl, h.word_eq hlt.le]
    rfl
  | empty k => rfl
  | closed => rfl

theorem accepted : (s.wrap cfg.toLayout).Accepted w idx ↔ s.Accepted w idx := by
  have hword : ∀ {p w idx}, (s.task p).accepted = some (w, idx) → word cfg.bits idx = idx := by
    intro p w idx hp
    obtain ⟨k, -, hput⟩ := h.inv.put_of_accepted hp
    have htop : idx + w.count ≤ s.writeOffset := hput.top
    exact h.word_eq (by omega)
  constructor
  · intro ha
    cases ha with
    | post hx hok =>
      rw [h.posts] at hx
      exact .post hx hok
    | @task p _ _ hp =>
      rw [State.task_wrap, Pc.accepted_wrap] at hp
      obtain ⟨⟨w', idx'⟩, hp', heq⟩ := Option.map_eq_some_iff.mp hp
      cases heq
      rw [hword hp']
      exact .task hp'
  · intro ha
    cases ha with
    | post hx hok => exact .post (h.posts ▸ hx) hok
    | @task p _ _ hp =>
      refine .task (p := p) ?_
      rw [State.task_wrap, Pc.accepted_wrap, hp, Option.map_some, hword hp]

theorem sentinel (hc : Closing s) : (s.wrap cfg.toLayout).Sentinel n ↔ s.Sentinel n := by
  have hword : ∀ {c}, s.Sentinel c → word cfg.bits c = c := fun hs =>
    h.word_eq (h.inv.ledger.cut _ ((hc.cut_iff h.inv).mpr hs)).1.le
  constructor
  · rintro (⟨p, hp⟩ | ⟨hr, rfl⟩)
    · have htask : (s.wrap cfg.toLayout).task p = (s.task p).wrap cfg.toLayout := rfl
      rw [htask] at hp
      cases hpc : s.task p with
      | storeClosedAt c =>
        rw [hpc] at hp
        have hs : s.Sentinel c := .inl ⟨p, .inl hpc⟩
        rcases hp with hp | hp <;> cases hp
        rw [show cfg.toLayout.bits = cfg.bits from rfl, hword hs]
        exact hs
      | storeReady c =>
        rw [hpc] at hp
        have hs : s.Sentinel c := .inl ⟨p, .inr hpc⟩
        rcases hp with hp | hp <;> cases hp
        rw [show cfg.toLayout.bits = cfg.bits from rfl, hword hs]
        exact hs
      | _ =>
        rw [hpc] at hp
        rcases hp with hp | hp <;> cases hp
    · have hs : s.Sentinel s.writeClosedAt := .inr ⟨hr, rfl⟩
      rw [show (s.wrap cfg.toLayout).writeClosedAt = word cfg.bits s.writeClosedAt from rfl,
        hword hs]
      exact hs
  · intro hs
    have hw := hword hs
    rcases hs with ⟨p, hp⟩ | ⟨hr, rfl⟩
    · refine .inl ⟨p, ?_⟩
      rw [State.task_wrap]
      rcases hp with hp | hp <;> rw [hp, Pc.wrap, show cfg.toLayout.bits = cfg.bits from rfl, hw]
      · exact .inl rfl
      · exact .inr rfl
    · exact .inr ⟨hr, hw⟩

theorem ticketOrder (hn : Near cfg s m) (hc : Closing s) :
    TicketOrder .wrapping cfg (s.wrap cfg.toLayout) := by
  have ht := h.inv.ticketOrder hc
  refine
    { order := ?_
      value := ?_
      unique := ?_
      apart := ?_
      constructed := ?_
      cutoff := ?_
      below := ?_
      drained := ?_
      last := ?_
      asleep := ?_ }
  · rw [h.pulls]
    exact ht.order
  · simp only [h.pulls, h.accepted]
    exact ht.value
  · simp only [h.accepted]
    exact ht.unique
  · rw [h.posts]
    exact ht.apart
  · simp only [h.constructed, h.accepted]
    exact ht.constructed
  · simp only [h.posts, h.sentinel hc]
    exact ht.cutoff
  · simp only [h.accepted, h.sentinel hc]
    exact ht.below
  · simp only [h.pulls, h.accepted]
    exact ht.drained
  · rw [h.pulls]
    exact ht.last
  · intro hrest idx b e hs
    simp only [h.pulls, h.accepted]
    have hrest' : s.AtRest .natural cfg := fun p spurious => by
      have hnone := hrest p spurious
      rw [hn.taskStep h.inv] at hnone
      exact Option.map_eq_none_iff.mp hnone
    have hcons : (s.wrap cfg.toLayout).consumer = s.consumer.wrap cfg.toLayout := rfl
    rw [hcons] at hs
    cases hpc : s.consumer with
    | suspended i b' e' => exact ht.asleep hrest' i b' e' hpc
    | _ =>
      rw [hpc] at hs
      cases hs

end Unwrapped

/-- **Delivery.**  With two elements a block or more every run that takes fewer
tickets than half the range of a register delivers in ticket order. -/
theorem ticket_order {x : State V × Nat} (hB : 1 < cfg.blockSize)
    (hr : (counted V .wrapping cfg).Reachable x) (hx : x.2 < 2 ^ (cfg.bits - 1)) :
    TicketOrder .wrapping cfg x.1 := by
  obtain ⟨s, hs, rfl⟩ := counted_wrapping hB hr hx
  obtain ⟨⟨m, hm⟩, hc⟩ := reachable_closing hs
  exact Unwrapped.ticketOrder ⟨hm, half_lt hx⟩ (Near.of_tickets hB hx hm) hc

/-- Task 0 has the tickets of a bulk when task 1 posts, and the consumer finds nothing until
the bulk is there.  It takes the three values and waits. -/
def stalledBulk : List (Act Nat) := List.flatten
  [[.bulk 0 (· + 10) 2, .task 0 false, .post 1 12], taskSteps 1 14, [.pull .tryPull],
   consumerSteps 3, taskSteps 0 15, [.pull .tryPull], consumerSteps 3, [.release],
   consumerSteps 2, [.pull .tryPull], consumerSteps 3, [.release, .pull .tryPull],
   consumerSteps 5, [.release], consumerSteps 18, [.pull .pull], consumerSteps 4]

/-- Task 1 resumes the consumer and task 0 posts before `close()`, and task 1 after it.  The
consumer takes the two values and CLOSED. -/
def stalledThenClose : List (Act Nat) := List.flatten
  [stalledBulk, [.post 1 13], taskSteps 1 11, consumerSteps 1, [.release, .post 0 14],
   taskSteps 0 13, [.close 2], taskSteps 2 8, [.post 1 15], taskSteps 1 4, [.pull .tryPull],
   consumerSteps 5, [.release], consumerSteps 7, [.pull .tryPull], consumerSteps 3]

theorem ticket_order_stalledThenClose :
    (∃ x, stalledBulk.foldlM (countedStep .wrapping eightBits) (.init, 0) = some x ∧
      x.1.consumer = .suspended 3 1 false ∧ handed x.1.pulls = [(0, 10), (1, 11), (2, 12)] ∧
      TicketOrder .wrapping eightBits x.1) ∧
    ∃ x, stalledThenClose.foldlM (countedStep .wrapping eightBits) (.init, 0) = some x ∧
      handed x.1.pulls = [(0, 10), (1, 11), (2, 12), (3, 13), (4, 14)] ∧
      x.1.posts.map (fun p => (p.task, p.ticket, p.ok)) =
        [(1, 2, true), (0, 0, true), (1, 3, true), (0, 4, true), (1, 6, false)] ∧
      TicketOrder .wrapping eightBits x.1 := by
  constructor
  · have hrun : (stalledBulk.foldlM (countedStep .wrapping eightBits) (.init, 0)).any (fun x =>
        x.1.consumer = .suspended 3 1 false &&
          handed x.1.pulls = [(0, 10), (1, 11), (2, 12)] && x.2 = 3) = true := by
      decide +kernel
    obtain ⟨x, hx, hand⟩ := (Option.any_eq_true _ _).mp hrun
    simp only [Bool.and_eq_true, decide_eq_true_iff] at hand
    obtain ⟨⟨hpc, hvalues⟩, htickets⟩ := hand
    exact ⟨x, hx, hpc, hvalues, ticket_order (by decide) (System.ofStep_reachable stalledBulk hx)
      (by rw [htickets]; decide)⟩
  · have hrun : (stalledThenClose.foldlM (countedStep .wrapping eightBits) (.init, 0)).any
        (fun x => handed x.1.pulls = [(0, 10), (1, 11), (2, 12), (3, 13), (4, 14)] &&
          x.1.posts.map (fun p => (p.task, p.ticket, p.ok)) =
            [(1, 2, true), (0, 0, true), (1, 3, true), (0, 4, true), (1, 6, false)] &&
          x.2 = 7) = true := by
      decide +kernel
    obtain ⟨x, hx, hand⟩ := (Option.any_eq_true _ _).mp hrun
    simp only [Bool.and_eq_true, decide_eq_true_iff] at hand
    obtain ⟨⟨hvalues, hposts⟩, htickets⟩ := hand
    exact ⟨x, hx, hvalues, hposts, ticket_order (by decide)
      (System.ofStep_reachable stalledThenClose hx) (by rw [htickets]; decide)⟩

end CoroUtil.MpscUnbounded
