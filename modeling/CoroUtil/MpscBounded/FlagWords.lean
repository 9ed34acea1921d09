import CoroUtil.MpscBounded.Simulation

/-!
# The flags words

`flag_words`: in every run, and however far apart the offsets are, each flags word is
one of the states that `element` documents, the sentinel stays, `PROD_BIT` has one
owner, `CONS_BIT` stands for the suspended consumer, and no assertion fails.
-/

namespace CoroUtil.MpscBounded

open CoroUtil.General

variable {V : Type} {cfg : Config} {s s' : State V} {a a' : Abs V} {k : Nat}

/-- The states of `element::flags` that its documentation lists as reachable. -/
def Flags.Documented (f : Flags) : Prop :=
  f = .zero ∨ f = ⟨false, false, true, .null⟩ ∨
  (f.prod = true ∧ f.data = false ∧ f.chain ≠ .closeSentinel) ∨
  (f.data = true ∧ f.prod = false ∧ f.cons = false ∧ f.chain ≠ .closeSentinel) ∨
  f = ⟨false, false, false, .closeSentinel⟩

/-- Who may write to a slot. -/
inductive Party
  | task (p : Tid)
  | consumer
  deriving DecidableEq

/-- `PROD_BIT` of slot `k` is set on behalf of the party: a task between its claim or
its wakeup and the end of `producer_publish`, or the consumer between the step of
`consumer_drain_and_handoff` that sets it and the wakeup. -/
def State.Owns (cfg : Config) (s : State V) (k : Nat) : Party → Prop
  | .task p =>
    match s.task p with
    | .emplace _ i | .publishLoad _ i | .publishCas _ i _ => cfg.slotOf i = k
    | _ => False
  | .consumer =>
    match s.consumer with
    | .reverse idx _ _ | .resumeProducer idx _ => cfg.slotOf idx = k
    | _ => False

/-- What the protocol of the flags words promises. -/
structure FlagWords (cfg : Config) (s : State V) : Prop where
  documented : ∀ k, (s.elements k).flags.Documented
  /-- The sentinel is final. -/
  sentinel : ∀ k, (s.elements k).flags = ⟨false, false, false, .closeSentinel⟩ →
    ∀ (acts : List (Act V)) (t : State V), acts.foldlM (step cfg) s = some t →
      (t.elements k).flags = ⟨false, false, false, .closeSentinel⟩
  owner : ∀ k, (s.elements k).flags.prod = true → ∃! x, s.Owns cfg k x
  owned : ∀ k x, s.Owns cfg k x → (s.elements k).flags.prod = true
  /-- `CONS_BIT` stands for the consumer, which is suspended on this slot. -/
  waiting : ∀ k, (s.elements k).flags.cons = true → ∃ idx, s.consumer = .suspended idx false ∧
    cfg.slotOf idx = k ∧ (s.elements k).waitingConsumer = true
  /-- The chain that `flags.exchange(PROD_BIT)` is about to take is not empty. -/
  chain : ∀ idx, s.consumer = .drainExchange idx → (s.elem cfg idx).flags.chainPtr.isSome = true
  /-- No assertion has failed. -/
  asserts : s.broken = false

theorem Slot.documented (x : Slot V) : x.flags.Documented := by
  have hhead : ∀ o : Option Tid, ChainPtr.ofHead o ≠ .closeSentinel := by
    intro o
    cases o <;> simp [ChainPtr.ofHead]
  cases x with
  | free b => cases b <;> simp [Slot.flags, Flags.Documented, Flags.zero]
  | busy o b l l' => exact .inr (.inr (.inl ⟨rfl, rfl, hhead _⟩))
  | full i v l l' => exact .inr (.inr (.inr (.inl ⟨rfl, rfl, rfl, hhead _⟩)))
  | shut => exact .inr (.inr (.inr (.inr rfl)))

theorem Slot.prod_flags {x : Slot V} : x.flags.prod = true ↔ ∃ o b l l', x = .busy o b l l' := by
  cases x <;> simp [Slot.flags]

/-- The sentinel is never taken off a slot. -/
theorem RawMove.keeps_shut (hm : RawMove cfg a a') (hs : a.slot k = .shut) :
    a'.slot k = .shut := by
  cases hm with
  | move h => cases h <;> grind [Slot.park, Slot.arm]
  | _ => exact hs

/-- In a documented word the sentinel stands alone. -/
theorem Rel.shut_of_flags (h : Rel cfg s a)
    (hf : (s.elements k).flags = ⟨false, false, false, .closeSentinel⟩) : a.slot k = .shut := by
  rw [h.flags] at hf
  exact Slot.hasCloseSentinel_flags.mp (by rw [hf]; rfl)

theorem Rel.shut_run (acts : List (Act V)) : ∀ {s t : State V} {a : Abs V}, Rel cfg s a →
    SlotInv cfg a → a.slot k = .shut → acts.foldlM (MpscBounded.step cfg) s = some t →
      (t.elements k).flags = ⟨false, false, false, .closeSentinel⟩ := by
  induction acts with
  | nil =>
    intro s t a h _ hs ht
    cases ht
    rw [h.flags, hs]
    rfl
  | cons act acts ih =>
    intro s t a h hi hs ht
    rw [List.foldlM_cons] at ht
    obtain ⟨u, hu, ht⟩ := Option.bind_eq_some_iff.mp ht
    obtain ⟨a', hr, rfl | hm⟩ := h.follows hi hu
    · exact ih hr hi hs ht
    · exact ih hr (hi.rawMove hm) (hm.keeps_shut hs) ht

/-- The task that owns a slot of the protocol. -/
theorem Rel.owns_task (h : Rel cfg s a) (hi : SlotInv cfg a) (p : Tid) :
    s.Owns cfg k (.task p) ↔ ∃ i w b l l', a.slot k = .busy (.task p i w) b l l' := by
  have hrole := h.role p
  constructor
  · intro ho
    simp only [State.Owns] at ho
    cases hpc : s.task p with
    | emplace v i =>
      rw [hpc] at ho hrole
      subst ho
      obtain ⟨b, l, l', hs⟩ := hi.writing_slot p i v hrole
      exact ⟨i, none, b, l, l', hs⟩
    | publishLoad v i | publishCas v i f =>
      rw [hpc] at ho hrole
      subst ho
      obtain ⟨b, l, l', hs⟩ := hi.written_slot p i v hrole
      exact ⟨i, some v, b, l, l', hs⟩
    | _ =>
      rw [hpc] at ho
      exact ho.elim
  · rintro ⟨i, w, b, l, l', hs⟩
    have hslot := hi.owner_slotOf k p i w b l l' hs
    simp only [State.Owns]
    cases w with
    | none =>
      obtain ⟨v, hw⟩ := hi.owner_writing k p i b l l' hs
      rw [hw] at hrole
      cases hpc : s.task p <;> rw [hpc] at hrole <;> cases hrole
      exact hslot
    | some v =>
      rw [hi.owner_written k p i v b l l' hs] at hrole
      cases hpc : s.task p <;> rw [hpc] at hrole <;> cases hrole
      · exact hslot
      · exact hslot

/-- The consumer owns the slot that it hands on. -/
theorem Rel.owns_consumer (h : Rel cfg s a) (hi : SlotInv cfg a) :
    s.Owns cfg k .consumer ↔ ∃ b l l', a.slot k = .busy .handoff b l l' := by
  have hknows := h.consumer
  constructor
  · intro ho
    simp only [State.Owns] at ho
    cases hpc : s.consumer with
    | reverse idx prev curr =>
      rw [hpc] at ho hknows
      subst ho
      obtain ⟨-, -, l, done, left, hs, -⟩ := hknows
      exact ⟨_, _, _, hs⟩
    | resumeProducer idx p =>
      rw [hpc] at ho hknows
      subst ho
      obtain ⟨-, -, l, l', hs, -⟩ := hknows
      exact ⟨_, _, _, hs⟩
    | _ =>
      rw [hpc] at ho
      exact ho.elim
  · rintro ⟨b, l, l', hs⟩
    obtain ⟨hc, hk⟩ := hi.handoff_handing k b l l' hs
    simp only [State.Owns]
    cases hpc : s.consumer with
    | reverse idx prev curr | resumeProducer idx p =>
      rw [hpc] at hknows
      rw [hk, ← hknows.1]
      rfl
    | _ =>
      rw [hpc] at hknows
      simp only [ConsumerPc.Knows, hc] at hknows
      simp at hknows

theorem Rel.owner (h : Rel cfg s a) (hi : SlotInv cfg a)
    (hprod : (s.elements k).flags.prod = true) : ∃! x, s.Owns cfg k x := by
  rw [h.flags, Slot.prod_flags] at hprod
  obtain ⟨o, b, l, l', hs⟩ := hprod
  cases o with
  | task p i w =>
    refine ⟨.task p, (h.owns_task hi p).mpr ⟨i, w, b, l, l', hs⟩, fun x hx => ?_⟩
    cases x with
    | task q =>
      obtain ⟨j, w', b', m, m', hq⟩ := (h.owns_task hi q).mp hx
      rw [hs] at hq
      cases hq
      rfl
    | consumer =>
      obtain ⟨b', m, m', hq⟩ := (h.owns_consumer hi).mp hx
      rw [hs] at hq
      cases hq
  | handoff =>
    refine ⟨.consumer, (h.owns_consumer hi).mpr ⟨b, l, l', hs⟩, fun x hx => ?_⟩
    cases x with
    | task q =>
      obtain ⟨j, w', b', m, m', hq⟩ := (h.owns_task hi q).mp hx
      rw [hs] at hq
      cases hq
    | consumer => rfl

theorem Rel.owned (h : Rel cfg s a) (hi : SlotInv cfg a) {x : Party} (ho : s.Owns cfg k x) :
    (s.elements k).flags.prod = true := by
  rw [h.flags, Slot.prod_flags]
  cases x with
  | task p =>
    obtain ⟨i, w, hs⟩ := (h.owns_task hi p).mp ho
    exact ⟨_, hs⟩
  | consumer => exact ⟨_, (h.owns_consumer hi).mp ho⟩

/-- The protocol of the flags words, in every state of every run. -/
theorem flag_words (h : (system V cfg).Reachable s) : FlagWords cfg s := by
  obtain ⟨a, hr, hi⟩ := slotted h
  exact
    { documented := fun k => by
        rw [hr.flags]
        exact (a.slot k).documented
      sentinel := fun k hf acts t ht => hr.shut_run acts hi (hr.shut_of_flags hf) ht
      owner := fun k hprod => hr.owner hi hprod
      owned := fun k x ho => hr.owned hi ho
      waiting := fun k hcons => by
        rw [hr.flags, Slot.cons_flags] at hcons
        obtain ⟨hc, rfl⟩ := hi.armed_at k hcons
        refine ⟨a.reads, hr.suspended_of_armed hc, rfl, (hr.waiting _).mpr ⟨by rw [hc]; rfl, rfl⟩⟩
      chain := fun idx hpc => by
        have hknows := hr.consumer
        rw [hpc] at hknows
        obtain ⟨-, -, i, v, l, hs, hne⟩ := hknows
        rw [hr.elem_flags, Slot.chainPtr_flags, hs]
        exact List.isSome_head?.mpr hne
      asserts := hr.sound }

/-- Task 0 has filled the slot, and task 1 is parked on it. -/
def fillAndPark : List (Act Nat) :=
  .push 0 7 :: List.replicate 7 (.task 0 false) ++ .push 1 8 :: List.replicate 5 (.task 1 false)

theorem flag_words_fillAndPark : ∃ s, fillAndPark.foldlM (step oneSlot) .init = some s ∧
    (s.elements 0).flags = ⟨false, true, false, .node 1⟩ ∧ FlagWords oneSlot s :=
  ⟨_, rfl, rfl, flag_words (System.ofStep_reachable fillAndPark rfl)⟩

end CoroUtil.MpscBounded
