import CoroUtil.MpscBounded.Delivery

/-!
# Wakeups

`no_lost_wakeup`: in a state in which nobody has a step left, the consumer waits
only for values that have not been pushed yet and a producer only for a value to
be released, and whoever is resumed was suspended.  The argument counts the
tickets of the slot the consumer waits at: each was given the slot and drained,
is held by a producer parked there, or is past the cutoff.

The count needs the comparisons of the run to come out right.
`wraparound_loses_wakeup` is a run in which one does not: a ticket that is half
the word range behind the cutoff is taken for one past it and rejected.
-/

namespace CoroUtil.MpscBounded

open CoroUtil.General

variable {V : Type} {cfg : Config} {s s' : State V} {a a' : Abs V}

section Wakeup

/-- No task has a step left to take: each is between calls or suspended. -/
def Quiescent (cfg : Config) (s : State V) : Prop :=
  (∀ p spurious, s.taskStep cfg p spurious = none) ∧
    ∀ spurious, s.consumerStep cfg spurious = none

/-- The task is about to resume the consumer. -/
def Pc.resumesConsumer : Pc V → Bool
  | resumeConsumer .. | closeResume _ => true
  | idle | fetchTicket _ | loadClosed .. | spinReady .. | loadClosedAt .. | claimLoad ..
  | claimCas .. | parkLoad .. | parkCas .. | suspended .. | emplace .. | publishLoad ..
  | publishCas .. | takeConsumer .. | closeCas | closeTicket | storeClosedAt _ | storeReady _
  | fetchOr _ | loadWaitIdx .. | closeArmedCas .. | closeFreeCas .. | closeTakeConsumer _ => false

/-- Nobody waits for a wakeup that does not come. -/
structure NoLostWakeup (cfg : Config) (s : State V) : Prop where
  /-- The consumer waits only while the queue is open, no producer waits and
  every accepted value has been handed out and released. -/
  consumer : Quiescent cfg s → ∀ idx n, s.consumer = .suspended idx n →
    s.closes = 0 ∧ (∀ p v i, s.task p ≠ .suspended v i) ∧
      (∀ x ∈ s.pushes, x.ok = true → .ok x.ticket x.value ∈ s.pulls) ∧
        ∀ k, (s.elements k).data = none
  /-- A producer waits only for a published value to be released. -/
  producer : Quiescent cfg s → ∀ p v i, s.task p = .suspended v i →
    (s.elem cfg i).flags.data = true ∧ (s.elem cfg i).data.isSome = true
  /-- At most one task is about to resume the consumer, and the consumer is suspended. -/
  resumes_consumer : ∀ p, (s.task p).resumesConsumer = true →
    (∃ idx n, s.consumer = .suspended idx n) ∧ ∀ q, (s.task q).resumesConsumer = true → q = p
  /-- The producer that the consumer is about to resume is suspended. -/
  resumes_producer : ∀ idx p, s.consumer = .resumeProducer idx p → ∃ v i, s.task p = .suspended v i
  /-- No coroutine was ever resumed that was not suspended, and no assertion failed. -/
  sound : s.broken = false

theorem State.taskStep_eq_none {p : Tid} (h : s.taskStep cfg p true = none) :
    s.task p = .idle ∨ ∃ v i, s.task p = .suspended v i := by
  cases hpc : s.task p with
  | idle => exact .inl rfl
  | suspended v i => exact .inr ⟨v, i, rfl⟩
  | _ =>
    simp only [State.taskStep, hpc] at h
    try split at h
    all_goals try split at h
    all_goals cases h

theorem State.consumerStep_eq_none (h : s.consumerStep cfg true = none) :
    s.consumer = .idle ∨ (∃ idx n, s.consumer = .suspended idx n) ∨
      ∃ idx, s.consumer = .holding idx := by
  cases hpc : s.consumer with
  | idle => exact .inl rfl
  | suspended idx n => exact .inr (.inl ⟨idx, n, rfl⟩)
  | holding idx => exact .inr (.inr ⟨idx, rfl⟩)
  | _ =>
    simp only [State.consumerStep, hpc] at h
    try split at h
    all_goals try split at h
    all_goals cases h

/-- In a state without steps no task owns a slot, no task is waking the
consumer and no `close()` is under way. -/
theorem Reached.quiescent (h : Reached cfg s a) (hq : Quiescent cfg s) :
    (∀ p, a.role p = .out ∨ ∃ v i, s.task p = .suspended v i ∧ a.role p = .parked i v) ∧
      (a.stage = .opened ∨ ∃ c, a.stage = .done c) ∧
        (∀ k, (a.slot k).held = true → ∃ i v l l', a.slot k = .full i v l l') ∧
          (a.crole = .away ∨ a.crole = .armed ∨ a.crole = .holding) := by
  have htask := fun p => State.taskStep_eq_none (hq.1 p true)
  have hrole : ∀ p, a.role p = .out ∨
      ∃ v i, s.task p = .suspended v i ∧ a.role p = .parked i v := by
    intro p
    rcases htask p with hp | ⟨v, i, hp⟩
    · exact .inl (h.rel.role_eq hp)
    · exact .inr ⟨v, i, hp, h.rel.role_eq hp⟩
  have hstage : a.stage = .opened ∨ ∃ c, a.stage = .done c := by
    have hnone : ∀ p, (s.task p).stage p = none := by
      intro p
      rcases htask p with hp | ⟨v, i, hp⟩ <;> rw [hp] <;> rfl
    cases hst : a.stage with
    | opened => exact .inl rfl
    | done c => exact .inr ⟨c, rfl⟩
    | won p => cases (hnone p).symm.trans (h.rel.stage_won p hst)
    | cut p c ph => cases (hnone p).symm.trans (h.rel.stage_cut p c ph hst)
  have hcrole : a.crole = .away ∨ a.crole = .armed ∨ a.crole = .holding := by
    have hknows := h.rel.consumer
    rcases State.consumerStep_eq_none (hq.2 true) with hc | ⟨idx, n, hc⟩ | ⟨idx, hc⟩ <;>
      rw [hc] at hknows
    · exact .inl hknows
    · obtain ⟨-, ⟨hr, -⟩ | ⟨⟨p, t, hr⟩, -⟩ | hr⟩ := hknows
      · exact .inr (.inl hr)
      · obtain ⟨-, i, v, hp⟩ := h.inv.consumer_eq hr
        rcases hrole p with hp' | ⟨w, j, -, hp'⟩ <;> cases hp.symm.trans hp'
      · obtain ⟨p, c, hst⟩ := h.inv.consumer_eq hr
        rcases hstage with hs | ⟨c', hs⟩ <;> cases hst.symm.trans hs
    · exact .inr (.inr hknows.2)
  refine ⟨hrole, hstage, ?_, hcrole⟩
  intro k hk
  cases hs : a.slot k with
  | free b => simp [hs, Slot.held] at hk
  | shut => simp [hs, Slot.held] at hk
  | full i v l l' => exact ⟨i, v, l, l', rfl⟩
  | busy o b l l' =>
    exfalso
    cases o with
    | handoff =>
      have := (h.inv.handoff_handing _ _ _ _ hs).1
      rcases hcrole with hc | hc | hc <;> cases hc.symm.trans this
    | task q i w =>
      cases w with
      | none =>
        obtain ⟨v, hp⟩ := h.inv.owner_writing _ _ _ _ _ _ hs
        rcases hrole q with hq | ⟨w, j, -, hq⟩ <;> cases hp.symm.trans hq
      | some w =>
        have hp := h.inv.owner_written _ _ _ _ _ _ _ hs
        rcases hrole q with hq | ⟨w, j, -, hq⟩ <;> cases hp.symm.trans hq

/-- A slot without waiters that is not shut was given to every ticket that is
before the cutoff. -/
theorem Inv.visits_le_claimed (hi : Inv cfg a) {k n : Nat} (hs : a.slot k ≠ .shut)
    (hn : n ≤ a.tickets) (hcut : ∀ c, a.stage.cutoff = some c → n ≤ c)
    (hwait : ∀ p i, (a.role p).waiting = some i → cfg.slotOf i ≠ k) :
    visits cfg.slotOf k n ≤ (a.claimed k).card := by
  refine visits_le_card ?_
  intro i hlt hk
  rcases hi.accounted i (hlt.trans_le hn) with hc | ⟨p, hp⟩ | ⟨c, hc, hle⟩ | hsh
  · exact hk ▸ hc
  · exact absurd hk (hwait p i hp)
  · have := hcut c hc
    omega
  · exact absurd (hk ▸ hsh) hs

theorem Reached.noLostWakeup_consumer (h : Reached cfg s a) (hq : Quiescent cfg s) {idx : Nat}
    {n : Bool} (hpc : s.consumer = .suspended idx n) :
    a.stage = .opened ∧ (∀ k, (a.slot k).load = 0) ∧ ∀ k, (a.slot k).held = false := by
  obtain ⟨hrole, hstage, hheld, hcrole⟩ := h.quiescent hq
  have hknows := h.rel.consumer
  rw [hpc] at hknows
  have hc : a.crole = .armed := by
    obtain ⟨-, ⟨hr, -⟩ | ⟨⟨p, t, hr⟩, -⟩ | hr⟩ := hknows
    · exact hr
    · rcases hcrole with hc | hc | hc <;> cases hr.symm.trans hc
    · rcases hcrole with hc | hc | hc <;> cases hr.symm.trans hc
  have hfront : a.front = a.reads := by simp [Abs.front, hc]
  have harmed : (a.slot (cfg.slotOf a.reads)).armed = true := h.inv.consumer_eq hc
  have hfree : a.slot (cfg.slotOf a.reads) = .free true := by
    cases hs : a.slot (cfg.slotOf a.reads) with
    | free b => simpa [hs, Slot.armed] using harmed
    | shut => simp [hs, Slot.armed] at harmed
    | full i v l l' => simp [hs, Slot.armed] at harmed
    | busy o b l l' =>
      obtain ⟨i, v, m, m', hf⟩ := hheld _ (by rw [hs]; rfl)
      cases hs.symm.trans hf
  have hnot : a.slot (cfg.slotOf a.reads) ≠ .shut := by simp [hfree]
  have hcount := h.inv.count _ hnot
  rw [hfront, hfree] at hcount
  have hwait : ∀ p i, (a.role p).waiting = some i → cfg.slotOf i ≠ cfg.slotOf a.reads := by
    intro p i hi hk
    rcases hrole p with hr | ⟨v, j, -, hr⟩
    · simp [hr, Role.waiting] at hi
    · obtain rfl : j = i := by simpa [hr, Role.waiting] using hi
      have := h.inv.parked_waiter p j v hr
      rw [hk, hfree] at this
      simp [Slot.waiters, Slot.input, Slot.output] at this
  -- no ticket after `reads` has been taken for the slot the consumer waits at
  have hall : ∀ m, m ≤ a.tickets → (∀ c, a.stage.cutoff = some c → m ≤ c) → m ≤ a.reads := by
    intro m hm hcut
    by_contra hlt
    have h1 := h.inv.visits_le_claimed hnot hm hcut hwait
    have h2 := visits_lt (f := cfg.slotOf) (k := cfg.slotOf a.reads) rfl (not_le.mp hlt)
    rw [hcount] at h1
    simp only [Slot.load, Slot.ticket] at h1
    simp at h1
    omega
  have hopen : a.stage = .opened := by
    refine hstage.resolve_right ?_
    rintro ⟨c, hst⟩
    have hcut : a.stage.cutoff = some c := by rw [hst]; rfl
    have hle := hall c (h.inv.cutoff_lt c hcut).le
      (fun c' hc' => (Option.some.inj (hcut.symm.trans hc')).le)
    have hshut := h.inv.stale_done c hst (by rw [hc]; rfl) hle
    have : a.reads = c := Nat.le_antisymm (h.inv.reads_cut c hcut) hle
    exact hnot (this ▸ hshut)
  have htickets : a.tickets ≤ a.reads := by
    refine hall a.tickets le_rfl ?_
    intro c hcut
    rw [hopen] at hcut
    cases hcut
  have hload : ∀ k, (a.slot k).load = 0 := by
    intro k
    by_cases hk : a.slot k = .shut
    · rw [hk]
      rfl
    · have h1 := h.inv.count k hk
      have h2 := card_le_visits (f := cfg.slotOf) (k := k) (n := a.tickets)
        (fun i hi => ⟨h.inv.claimed_lt k i hi, h.inv.claimed_slot k i hi⟩)
      have h3 := visits_mono (f := cfg.slotOf) (k := k) htickets
      rw [hfront] at h1
      omega
  refine ⟨hopen, hload, ?_⟩
  intro k
  rw [← Bool.not_eq_true]
  intro hk
  obtain ⟨i, v, l, l', hf⟩ := hheld k hk
  have := hload k
  rw [hf] at this
  cases this

/-- The task that is about to resume the consumer is the one that cleared its bit. -/
theorem Reached.waker (h : Reached cfg s a) {p : Tid} (hp : (s.task p).resumesConsumer = true) :
    a.crole = .woken (some p) true ∨
      ∃ c, a.stage = .cut p c .wake ∧ a.crole = .woken none true := by
  cases hpc : s.task p with
  | resumeConsumer v i => exact .inl (h.rel.knows_at hpc)
  | closeResume c =>
    have hst := h.rel.stage p (.cut p c .wake) (by rw [hpc]; rfl)
    exact .inr ⟨c, hst, (h.inv.wake_woken p c hst).1⟩
  | _ => simp [hpc, Pc.resumesConsumer] at hp

theorem Reached.noLostWakeup (h : Reached cfg s a) : NoLostWakeup cfg s where
  consumer := by
    intro hq idx n hpc
    obtain ⟨hopen, hload, hheld⟩ := h.noLostWakeup_consumer hq hpc
    refine ⟨?_, ?_, ?_, ?_⟩
    · by_contra hne
      have := h.rel.closes (Nat.pos_of_ne_zero hne)
      rw [hopen] at this
      cases this
    · intro p v i hp
      have hw := h.inv.parked_waiter p i v (h.rel.role_eq hp)
      have := hheld (cfg.slotOf i)
      cases hs : a.slot (cfg.slotOf i) <;>
        simp [hs, Slot.held, Slot.waiters, Slot.input, Slot.output] at this hw
    · intro x hx hok
      rw [h.rel.pushes] at hx
      rw [h.rel.pulls]
      have hmem := h.values.accepted_mem x hx hok
      rcases h.handed.handed_or_pending _ _ (h.values.claimed _ hmem) with hh | hp
      · obtain ⟨v, hv⟩ := mem_handed.mp hh
        rw [← h.values.unique (h.handed.constructed _ _ hv) hmem]
        exact hv
      · have := hload (cfg.slotOf x.ticket)
        simp [Slot.load, hp] at this
    · intro k
      rw [h.rel.data]
      split
      · rfl
      · have := hheld k
        cases hs : a.slot k <;> simp [hs, Slot.held] at this <;> rfl
  producer := by
    intro hq p v i hp
    obtain ⟨-, -, hheld, hcrole⟩ := h.quiescent hq
    have hw := h.inv.parked_waiter p i v (h.rel.role_eq hp)
    obtain ⟨j, w, l, l', hf⟩ := hheld (cfg.slotOf i) (by
      cases hs : a.slot (cfg.slotOf i) <;>
        simp [hs, Slot.held, Slot.waiters, Slot.input, Slot.output] at hw ⊢)
    refine ⟨by rw [h.rel.elem_flags, hf]; rfl, ?_⟩
    rw [h.rel.elem_data (by rcases hcrole with hc | hc | hc <;> simp [hc]), hf]
    rfl
  resumes_consumer := by
    intro p hp
    have hown := h.waker hp
    refine ⟨?_, ?_⟩
    · rcases hown with hc | ⟨-, -, hc⟩ <;> exact ⟨_, _, h.rel.suspended_of_woken hc⟩
    · intro q hq
      rcases hown with hc | ⟨c, hst, hc⟩ <;> rcases h.waker hq with hc' | ⟨c', hst', hc'⟩
      · cases hc.symm.trans hc'
        rfl
      · cases hc.symm.trans hc'
      · cases hc.symm.trans hc'
      · cases hst.symm.trans hst'
        rfl
  resumes_producer := by
    intro idx p hpc
    have hknows := h.rel.consumer
    rw [hpc] at hknows
    obtain ⟨-, -, l, l', hs, -⟩ := hknows
    obtain ⟨i, v, hp, -⟩ := h.rel.suspended_of_waiter (p := p) (k := cfg.slotOf idx) h.inv.slots
      (by simp [hs, Slot.waiters, Slot.output])
    exact ⟨v, i, hp⟩
  sound := h.rel.sound

/-- No wakeup is lost in a run whose comparisons of offsets come out right. -/
theorem no_lost_wakeup (h : (system V cfg).Reach (fun s act => s.compares cfg act = true) s) :
    NoLostWakeup cfg s := by
  obtain ⟨a, ha⟩ := reached h
  exact ha.noLostWakeup

/-- The consumer suspends. -/
def pullFirst : List (Act Nat) := .pull .pull :: List.replicate 6 (.consumer false)

/-- Task 0 pushes 7, which wakes the consumer, and task 1 pushes 8 and waits for the slot. -/
def pushToWaiting : List (Act Nat) :=
  .push 0 7 :: List.replicate 9 (.task 0 false) ++ .consumer false ::
    .push 1 8 :: List.replicate 5 (.task 1 false)

theorem no_lost_wakeup_pushToWaiting : ∃ s t,
    pullFirst.foldlM (step oneSlot) .init = some s ∧
      pushToWaiting.foldlM (step oneSlot) s = some t ∧
    Quiescent oneSlot s ∧ s.consumer = .suspended 0 false ∧ NoLostWakeup oneSlot s ∧
    Quiescent oneSlot t ∧ t.task 1 = .suspended 8 1 ∧ t.pulls = [.ok 0 7] ∧
      NoLostWakeup oneSlot t := by
  refine ⟨_, _, rfl, rfl, ⟨fun p b => ?_, fun b => rfl⟩, rfl,
    no_lost_wakeup (System.ofStep_reach pullFirst (.init rfl) rfl), ⟨fun p b => ?_, fun b => rfl⟩,
    rfl, rfl, no_lost_wakeup (System.ofStep_reach (pullFirst ++ pushToWaiting) (.init rfl) rfl)⟩
  · rfl
  · match p with
    | 0 | 1 => rfl
    | p + 2 => rfl

end Wakeup

section Wraparound

theorem oneSlot_slotOf (i : Nat) : oneSlot.slotOf i = 0 := Nat.mod_one _

theorem oneSlot_canSuspend : oneSlot.consumerCanSuspend = true := rfl

theorem elements_setElem_oneSlot (s : State V) (i : Nat) (e : Element V) :
    (s.setElem oneSlot i e).elements 0 = e := by
  simp [State.setElem, oneSlot_slotOf]

/-- Task 0 has taken ticket 0 of a queue with one slot and stalls.  The slot is
`e`, task 1 and the consumer are at `pc` and `c`, and no other task has started. -/
structure Stalled (wo ro : Nat) (e : Element Unit) (pc : Pc Unit) (c : ConsumerPc)
    (s : State Unit) : Prop where
  reachable : (system Unit oneSlot).Reachable s
  writeOffset : s.writeOffset = wo
  readOffset : s.readOffset = ro
  element : s.elements 0 = e
  closed : s.closed = false
  stalled : s.task 0 = .loadClosed () 0
  task : s.task 1 = pc
  idle : ∀ p : Nat, 1 < p → s.task p = .idle
  consumer : s.consumer = c
  closes : s.closes = 0

namespace Stalled

variable {wo ro i : Nat} {e e' : Element Unit} {f : Flags} {d : Option (Nat × Unit)} {pc : Pc Unit}
  {c : ConsumerPc} {s s' : State Unit}

theorem elem (h : Stalled wo ro e pc c s) (i : Nat) : s.elem oneSlot i = e := by
  rw [State.elem, oneSlot_slotOf, h.element]

theorem next (h : Stalled wo ro e pc c s) (act : Act Unit)
    (hs : step oneSlot s act = some s') (hc : s'.closed = s.closed)
    (ht : s'.task = Function.update s.task 1 (s'.task 1)) (hcl : s'.closes = s.closes)
    (he : s'.elements 0 = e') :
    Stalled s'.writeOffset s'.readOffset e' (s'.task 1) s'.consumer s' where
  reachable := h.reachable.step hs
  writeOffset := rfl
  readOffset := rfl
  element := he
  closed := hc.trans h.closed
  stalled := by rw [ht, Function.update_of_ne (by decide), h.stalled]
  task := rfl
  idle := by
    intro p hp
    rw [ht, Function.update_of_ne (Nat.ne_of_gt hp), h.idle p hp]
  consumer := rfl
  closes := hcl.trans h.closes

theorem setTask (h : Stalled wo ro e pc c s) (act : Act Unit) (pc' : Pc Unit)
    (hs : step oneSlot s act = some (s.setTask 1 pc')) : ∃ s', Stalled wo ro e pc' c s' := by
  have := h.next act hs rfl (by simp [State.setTask]) rfl h.element
  rw [State.setTask_self] at this
  exact ⟨_, h.writeOffset ▸ h.readOffset ▸ h.consumer ▸ this⟩

theorem setConsumer (h : Stalled wo ro e pc c s) (act : Act Unit) (c' : ConsumerPc)
    (hs : step oneSlot s act = some (s.setConsumer c')) : ∃ s', Stalled wo ro e pc c' s' := by
  have := h.next act hs rfl (by simp [State.setConsumer]) rfl h.element
  exact ⟨_, h.writeOffset ▸ h.readOffset ▸ h.task ▸ this⟩

theorem setElem (h : Stalled wo ro e pc c s) (act : Act Unit) (e' : Element Unit) (pc' : Pc Unit)
    (hs : ∃ cs, step oneSlot s act = some ({ s.setElem oneSlot i e' with
      constructed := cs }.setTask 1 pc')) : ∃ s', Stalled wo ro e' pc' c s' := by
  obtain ⟨cs, hs⟩ := hs
  have := h.next act hs rfl (by simp [State.setTask, State.setElem]) rfl
    (elements_setElem_oneSlot s i e')
  rw [State.setTask_self] at this
  exact ⟨_, h.writeOffset ▸ h.readOffset ▸ h.consumer ▸ this⟩

theorem setElemConsumer (h : Stalled wo ro e pc c s) (act : Act Unit) (i : Nat) (e' : Element Unit)
    (c' : ConsumerPc) (hs : step oneSlot s act = some ((s.setElem oneSlot i e').setConsumer c')) :
    ∃ s', Stalled wo ro e' pc c' s' := by
  have := h.next act hs rfl (by simp [State.setConsumer, State.setElem]) rfl
    (elements_setElem_oneSlot s i e')
  exact ⟨_, h.writeOffset ▸ h.readOffset ▸ h.task ▸ this⟩

theorem fetchTicket (h : Stalled wo ro e (.fetchTicket ()) c s) :
    ∃ s', Stalled (wo + 1) ro e (.loadClosed () wo) c s' := by
  have hs : step oneSlot s (.task 1 false) = some ({ s with
      writeOffset := s.writeOffset + 1 }.setTask 1 (.loadClosed () s.writeOffset)) := by
    simp only [step, State.taskStep, h.task]
  have := h.next _ hs rfl (by simp [State.setTask]) rfl h.element
  rw [State.setTask_self] at this
  exact ⟨_, h.writeOffset ▸ h.readOffset ▸ h.consumer ▸ this⟩

theorem publish (h : Stalled wo ro ⟨⟨true, false, false, .null⟩, none, false, 0, d⟩
    (.publishCas () i ⟨true, false, false, .null⟩) c s) :
    ∃ s', Stalled wo ro ⟨⟨false, true, false, .null⟩, none, false, 0, d⟩ .idle c s' := by
  have hs : step oneSlot s (.task 1 false) =
      some ((s.setFlags oneSlot i ⟨false, true, false, .null⟩).returnPush 1 () i true) := by
    have hcheck : s.check (true && !false) = s := State.check_true s rfl
    simp only [step, State.taskStep, h.task, hcheck, h.elem]
    exact if_pos (by simp)
  have := h.next _ hs rfl (by simp [State.returnPush, State.setFlags, State.setElem]) rfl
    ((elements_setElem_oneSlot s i _).trans (by rw [h.elem]))
  rw [State.returnPush_self] at this
  exact ⟨_, h.writeOffset ▸ h.readOffset ▸ h.consumer ▸ this⟩

theorem push (h : Stalled wo ro .init .idle c s) : ∃ s', Stalled (wo + 1) ro
    ⟨⟨false, true, false, .null⟩, none, false, 0, some (wo, ())⟩ .idle c s' := by
  obtain ⟨s, h⟩ := h.setTask (.push 1 ()) (.fetchTicket ()) (by simp only [step, h.task])
  obtain ⟨s, h⟩ := h.fetchTicket
  obtain ⟨s, h⟩ := h.setTask (.task 1 false) (.claimLoad () wo)
    (by simp [step, State.taskStep, h.task, h.closed])
  obtain ⟨s, h⟩ := h.setTask (.task 1 false) (.claimCas () wo .zero)
    (by simp [step, State.taskStep, h.task, h.elem, State.afterClaimLoad, Element.init, Flags.zero,
      Flags.claimable])
  obtain ⟨s, h⟩ := h.setElem (i := wo) (.task 1 false)
    ⟨⟨true, false, false, .null⟩, none, false, 0, none⟩ (.emplace () wo) (by
      refine ⟨s.constructed, ?_⟩
      simp only [step, State.taskStep, h.task, h.elem]
      rw [if_pos (by simp [Element.init]), State.setFlags, h.elem]
      rfl)
  obtain ⟨s, h⟩ := h.setElem (i := wo) (.task 1 false)
    ⟨⟨true, false, false, .null⟩, none, false, 0, some (wo, ())⟩ (.publishLoad () wo) (by
      refine ⟨s.constructed ++ [(wo, ())], ?_⟩
      simp only [step, State.taskStep, h.task, h.elem]
      rw [Option.isNone_none, State.check_true _ rfl])
  obtain ⟨s, h⟩ := h.setTask (.task 1 false) (.publishCas () wo ⟨true, false, false, .null⟩)
    (by simp only [step, State.taskStep, h.task, h.elem])
  exact h.publish

theorem pull (h : Stalled wo ro ⟨⟨false, true, false, .null⟩, none, false, 0, some (i, ())⟩ pc
    .idle s) : ∃ s', Stalled wo (ro + 1) .init pc .idle s' := by
  obtain ⟨s, h⟩ := h.setConsumer (.pull .pull) (.poll .pull) (by simp [step, h.consumer, oneSlot])
  obtain ⟨s, h⟩ : ∃ s', Stalled wo ro ⟨⟨false, true, false, .null⟩, none, false, 0, some (i, ())⟩
      pc (.holding ro) s' := by
    have hs : step oneSlot s (.consumer false) = some { s with
        consumer := .holding s.readOffset, pulls := s.pulls ++ [.ok i ()] } := by
      simp [step, State.consumerStep, h.consumer, h.elem, State.handOut]
    have := h.next _ hs rfl (by simp) rfl h.element
    exact ⟨_, h.writeOffset ▸ h.readOffset ▸ h.task ▸ this⟩
  obtain ⟨s, h⟩ : ∃ s', Stalled wo (ro + 1) ⟨⟨false, true, false, .null⟩, none, false, 0, none⟩ pc
      (.drainLoad ro) s' := by
    have hs : step oneSlot s .release = some { (s.setElem oneSlot ro
        ⟨⟨false, true, false, .null⟩, none, false, 0, none⟩).check true with
          readOffset := ro + 1, consumer := .drainLoad ro } := by
      simp [step, State.release, h.consumer, h.elem]
    have := h.next _ hs rfl (by simp [State.setElem, State.check]) rfl
      (elements_setElem_oneSlot s ro _)
    exact ⟨_, h.writeOffset ▸ h.task ▸ this⟩
  obtain ⟨s, h⟩ := h.setConsumer (.consumer false) (.drainCas ro)
    (by simp [step, State.consumerStep, h.consumer, h.elem, State.afterDrainLoad, State.check_true])
  exact h.setElemConsumer (.consumer false) ro .init .idle
    (by simp [step, State.consumerStep, h.consumer, h.elem, State.setFlags]; rfl)

/-- Ticket 0 is taken, and then `n` values go through the queue. -/
theorem rounds (n : Nat) : ∃ s, Stalled (n + 1) n .init .idle .idle s := by
  induction n with
  | zero =>
    refine ⟨_, System.ofStep_reachable [.push 0 (), .task 0 false] rfl, rfl, rfl, rfl, rfl, rfl,
      rfl, ?_, rfl, rfl⟩
    intro p hp
    exact (Function.update_of_ne (Nat.ne_of_gt (by omega)) ..).trans
      (Function.update_of_ne (Nat.ne_of_gt (by omega)) ..)
  | succ n ih =>
    obtain ⟨s, h⟩ := ih
    obtain ⟨s, h⟩ := h.push
    exact h.pull

/-- The consumer finds nothing and suspends. -/
theorem suspend (h : Stalled wo ro .init pc .idle s) : ∃ s', Stalled wo ro
    ⟨⟨false, false, true, .null⟩, none, true, ro, none⟩ pc (.suspended ro false) s' := by
  obtain ⟨s, h⟩ := h.setConsumer (.pull .pull) (.poll .pull) (by simp [step, h.consumer, oneSlot])
  obtain ⟨s, h⟩ := h.setConsumer (.consumer false) (.loadClosed .pull ro .zero)
    (by simp [step, State.consumerStep, h.consumer, h.elem, h.readOffset, Element.init, Flags.zero])
  obtain ⟨s, h⟩ := h.setConsumer (.consumer false) .storeIdx
    (by simp [step, State.consumerStep, h.consumer, h.closed, State.afterPoll])
  obtain ⟨s, h⟩ := h.setElemConsumer (.consumer false) ro ⟨.zero, none, false, ro, none⟩
    (.storeSelf ro) (by
      simp [step, State.consumerStep, h.consumer, h.elem, h.readOffset, Element.init])
  obtain ⟨s, h⟩ := h.setElemConsumer (.consumer false) ro ⟨.zero, none, true, ro, none⟩
    (.loadFlags ro) (by simp [step, State.consumerStep, h.consumer, h.elem])
  obtain ⟨s, h⟩ := h.setConsumer (.consumer false) (.armCas ro .zero) (by
    simp [step, State.consumerStep, h.consumer, h.elem, State.afterLoadFlags, Flags.zero,
      Flags.hasCloseSentinel, State.check_true])
  exact h.setElemConsumer (.consumer false) ro _ (.suspended ro false)
    (by simp [step, State.consumerStep, h.consumer, h.elem, State.setFlags, Flags.zero])

end Stalled

/-- The consumer waits at index `n`, task 1 is closing the queue and task 0 goes on. -/
structure Closing (n : Nat) (cl rd : Bool) (wo ca : Nat) (stalled closer : Pc Unit) (closes : Nat)
    (s : State Unit) : Prop where
  reachable : (system Unit oneSlot).Reachable s
  element : s.elements 0 = ⟨⟨false, false, true, .null⟩, none, true, n, none⟩
  consumer : s.consumer = .suspended n false
  closed : s.closed = cl
  closedReady : s.closedReady = rd
  writeOffset : s.writeOffset = wo
  writeClosedAt : s.writeClosedAt = ca
  stalled : s.task 0 = stalled
  closer : s.task 1 = closer
  idle : ∀ p : Nat, 1 < p → s.task p = .idle
  closes : s.closes = closes

namespace Closing

variable {n : Nat} {cl rd : Bool} {wo ca closes : Nat} {pc pc' : Pc Unit} {s s' : State Unit}

theorem next (h : Closing n cl rd wo ca pc pc' closes s) (act : Act Unit)
    (hs : step oneSlot s act = some s') (he : s'.elements = s.elements)
    (hc : s'.consumer = s.consumer) (ht : ∀ p : Nat, 1 < p → s'.task p = s.task p) :
    Closing n s'.closed s'.closedReady s'.writeOffset s'.writeClosedAt (s'.task 0) (s'.task 1)
      s'.closes s' where
  reachable := h.reachable.step hs
  element := by rw [he, h.element]
  consumer := hc.trans h.consumer
  closed := rfl
  closedReady := rfl
  writeOffset := rfl
  writeClosedAt := rfl
  stalled := rfl
  closer := rfl
  idle := fun p hp => (ht p hp).trans (h.idle p hp)
  closes := rfl

/-- A step of `close()` that does not touch the slot. -/
theorem close (h : Closing n cl rd wo ca pc pc' closes s) (act : Act Unit) (s₁ : State Unit)
    (pc'' : Pc Unit) (hs : step oneSlot s act = some (s₁.setTask 1 pc''))
    (hsame : s₁.elements = s.elements ∧ s₁.consumer = s.consumer ∧ s₁.task = s.task ∧
      s₁.closes = s.closes) {cl' rd' : Bool} {wo' ca' : Nat} (hcl : s₁.closed = cl')
    (hrd : s₁.closedReady = rd') (hwo : s₁.writeOffset = wo') (hca : s₁.writeClosedAt = ca') :
    ∃ s', Closing n cl' rd' wo' ca' pc pc'' closes s' := by
  obtain ⟨he, hc, ht, hk⟩ := hsame
  have := h.next act hs he hc
    (fun p hp => (Function.update_of_ne (Nat.ne_of_gt hp) ..).trans (congrFun ht p))
  rw [State.setTask_self, State.setTask_of_ne _ (by decide), ht, h.stalled] at this
  exact ⟨_, hcl ▸ hrd ▸ hwo ▸ hca ▸ (hk.trans h.closes) ▸ this⟩

theorem goOn (h : Closing n cl rd wo ca pc pc' closes s) (act : Act Unit) (pc'' : Pc Unit)
    (hs : step oneSlot s act = some (s.setTask 0 pc'')) :
    ∃ s', Closing n cl rd wo ca pc'' pc' closes s' := by
  have := h.next act hs rfl rfl (fun p hp => Function.update_of_ne (Nat.ne_of_gt (by omega)) ..)
  rw [State.setTask_self, State.setTask_of_ne _ (by decide)] at this
  exact ⟨_, h.closed ▸ h.closedReady ▸ h.writeOffset ▸ h.writeClosedAt ▸ h.closer ▸ h.closes ▸ this⟩

theorem elem (h : Closing n cl rd wo ca pc pc' closes s) (i : Nat) :
    s.elem oneSlot i = ⟨⟨false, false, true, .null⟩, none, true, n, none⟩ := by
  rw [State.elem, oneSlot_slotOf, h.element]

end Closing

/-- Closing a queue whose consumer waits one index below the cutoff, with the
ticket of task 0 half the word range behind: the ticket is taken for one past
the cutoff and rejected, and the consumer is left waiting for it. -/
theorem wraparound_loses_wakeup : ∃ s, (system Unit oneSlot).Reachable s ∧ Quiescent oneSlot s ∧
    s.consumer = .suspended (2 ^ 31 - 1) false ∧ s.closes = 1 := by
  obtain ⟨s, h⟩ := Stalled.rounds (2 ^ 31 - 1)
  obtain ⟨s, h⟩ := h.suspend
  obtain ⟨s, h⟩ : ∃ s, Closing (2 ^ 31 - 1) false s.closedReady (2 ^ 31) s.writeClosedAt
      (.loadClosed () 0) .idle 0 s :=
    ⟨s, h.reachable, h.element, h.consumer, h.closed, rfl, h.writeOffset, rfl, h.stalled, h.task,
      h.idle, h.closes⟩
  -- task 1 closes the queue
  obtain ⟨s, h⟩ := h.close (.close 1) s .closeCas (by simp only [step, h.closer])
    ⟨rfl, rfl, rfl, rfl⟩ h.closed rfl h.writeOffset rfl
  obtain ⟨s, h⟩ := h.close (.task 1 false) { s with closed := true } .closeTicket
    (by simp [step, State.taskStep, h.closer, h.closed]) ⟨rfl, rfl, rfl, rfl⟩ rfl rfl h.writeOffset
    rfl
  obtain ⟨s, h⟩ := h.close (.task 1 false) { s with writeOffset := 2 ^ 31 + 1 }
    (.storeClosedAt (2 ^ 31)) (by simp only [step, State.taskStep, h.closer, h.writeOffset])
    ⟨rfl, rfl, rfl, rfl⟩ h.closed rfl rfl rfl
  obtain ⟨s, h⟩ := h.close (.task 1 false) { s with writeClosedAt := 2 ^ 31 }
    (.storeReady (2 ^ 31)) (by simp only [step, State.taskStep, h.closer])
    ⟨rfl, rfl, rfl, rfl⟩ h.closed rfl h.writeOffset rfl
  obtain ⟨s, h⟩ := h.close (.task 1 false) { s with closedReady := true } (.fetchOr (2 ^ 31))
    (by simp only [step, State.taskStep, h.closer]) ⟨rfl, rfl, rfl, rfl⟩ h.closed rfl h.writeOffset
    h.writeClosedAt
  obtain ⟨s, h⟩ := h.close (.task 1 false) s (.loadWaitIdx (2 ^ 31) ⟨false, false, true, .null⟩)
    (by simp [step, State.taskStep, h.closer, h.elem, State.afterCloseLoad,
      oneSlot_canSuspend])
    ⟨rfl, rfl, rfl, rfl⟩ h.closed h.closedReady h.writeOffset h.writeClosedAt
  have hbelow : circularLessThan 32 (2 ^ 31 - 1) (2 ^ 31) = true := by decide
  have hpast : circularLessThan 32 0 (2 ^ 31) = false := by decide
  obtain ⟨s, h⟩ : ∃ s', Closing (2 ^ 31 - 1) true true (2 ^ 31 + 1) (2 ^ 31) (.loadClosed () 0)
      .idle 1 s' := by
    have hs : step oneSlot s (.task 1 false) = some (s.returnClose 1) := by
      simp only [step, State.taskStep, h.closer, h.elem]
      exact if_pos hbelow
    have := h.next _ hs rfl rfl (fun p hp => Function.update_of_ne (Nat.ne_of_gt hp) ..)
    have hcloses : (s.returnClose 1).closes = 1 := congrArg (· + 1) h.closes
    rw [State.returnClose_self, State.returnClose_of_ne (by decide), hcloses, h.stalled] at this
    exact ⟨_, h.closed ▸ h.closedReady ▸ h.writeOffset ▸ h.writeClosedAt ▸ this⟩
  -- task 0 finds the queue closed
  obtain ⟨s, h⟩ := h.goOn (.task 0 false) (.spinReady () 0)
    (by simp [step, State.taskStep, h.stalled, h.closed])
  obtain ⟨s, h⟩ := h.goOn (.task 0 false) (.loadClosedAt () 0)
    (by simp [step, State.taskStep, h.stalled, h.closedReady])
  have hs : step oneSlot s (.task 0 false) = some (s.returnPush 0 () 0 false) := by
    simp only [step, State.taskStep, h.stalled, h.writeClosedAt]
    exact if_neg (by rw [show oneSlot.bits = 32 from rfl, hpast]; simp)
  have hidle : ∀ p : Nat, (s.returnPush 0 () 0 false).task p = .idle := by
    intro p
    rcases Nat.lt_trichotomy p 1 with hp | hp | hp
    · rw [Nat.lt_one_iff.mp hp]
      exact State.returnPush_self
    · rw [hp, State.returnPush_of_ne (by decide), h.closer]
    · rw [State.returnPush_of_ne (Nat.ne_of_gt (by omega)), h.idle p hp]
  refine ⟨_, h.reachable.step hs, ⟨?_, ?_⟩, h.consumer, h.closes⟩
  · intro p spurious
    rw [State.taskStep, hidle]
  · intro spurious
    rw [State.consumerStep, show (s.returnPush 0 () 0 false).consumer = _ from h.consumer]

end Wraparound

end CoroUtil.MpscBounded
