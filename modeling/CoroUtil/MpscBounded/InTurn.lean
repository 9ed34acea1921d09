import CoroUtil.MpscBounded.FlagWords
import CoroUtil.MpscBounded.Order

/-!
# Parked producers take turns

`in_turn`: the producers that park on a slot are given it in the order of their
compare-exchanges, and while one is parked no other producer takes the slot.  `Parking`
notes who parked and who was given the slot; the producers in between are those of the
two chains, the consumer's first.
-/

namespace CoroUtil.MpscBounded

open CoroUtil.General

variable {V : Type} {cfg : Config} {s s' : State V} {a a' : Abs V} {k : Nat} {p q : Tid}

/-- The producers that parked on a slot and those that were given it, each with its
ticket, in order. -/
structure Parking where
  parked : Nat → List (Tid × Nat)
  handed : Nat → List (Tid × Nat)

namespace Parking

def empty : Parking := ⟨fun _ => [], fun _ => []⟩

/-- The compare-exchange of `producer_park` of task `p` succeeds. -/
def park (cfg : Config) (x : Parking) (p : Tid) (i : Nat) : Parking :=
  { x with parked := Function.update x.parked (cfg.slotOf i) (x.parked (cfg.slotOf i) ++ [(p, i)]) }

/-- The consumer resumes task `p`, on whose behalf it has set `PROD_BIT`. -/
def hand (cfg : Config) (x : Parking) (p : Tid) (i : Nat) : Parking :=
  { x with handed := Function.update x.handed (cfg.slotOf i) (x.handed (cfg.slotOf i) ++ [(p, i)]) }

def note (cfg : Config) (s : State V) (x : Parking) (act : Act V) (s' : State V) : Parking :=
  match act with
  | .task p _ =>
    match s'.task p with
    | .suspended _ i => x.park cfg p i
    | _ => x
  | .consumer _ =>
    match s.consumer with
    | .resumeProducer _ p =>
      match s.task p with
      | .suspended _ i => x.hand cfg p i
      | _ => x
    | _ => x
  | .push _ _ | .close _ | .pull _ | .release => x

end Parking

/-- The chain in the flags word, most recent first. -/
def State.InputChain (s : State V) (k : Nat) (l : List Tid) : Prop :=
  Linked s.next (s.elements k).flags.chainPtr l

/-- The consumer's chain, also while it is being reversed and after its first producer
was taken out to be resumed. -/
def State.OutputChain (cfg : Config) (s : State V) (k : Nat) (l : List Tid) : Prop :=
  match s.consumer with
  | .reverse idx prev curr =>
    if cfg.slotOf idx = k then
      ∃ done left, l = left.reverse ++ done ∧ Linked s.next prev done ∧ Linked s.next curr left
    else Linked s.next (s.elements k).outputProducers l
  | .resumeProducer idx p =>
    if cfg.slotOf idx = k then ∃ l', l = p :: l' ∧ Linked s.next (s.elements k).outputProducers l'
    else Linked s.next (s.elements k).outputProducers l
  | _ => Linked s.next (s.elements k).outputProducers l

/-- The producer with ticket `i` is suspended on slot `k`. -/
def State.ParkedOn (cfg : Config) (s : State V) (k : Nat) (p : Tid) (i : Nat) : Prop :=
  (∃ v, s.task p = .suspended v i) ∧ cfg.slotOf i = k

/-- What the producers that park on slot `k` are promised. -/
structure InTurn (cfg : Config) (s : State V) (x : Parking) (k : Nat) : Prop where
  /-- They are given the slot in the order in which they parked, and those that still
  wait are in the two chains. -/
  order : ∃ input output rest, s.InputChain k input ∧ s.OutputChain cfg k output ∧
    x.parked k = x.handed k ++ rest ∧ rest.map Prod.fst = output ++ input.reverse ∧
    (output ++ input.reverse).Nodup ∧ ∀ p i, (p, i) ∈ rest ↔ s.ParkedOn cfg k p i
  /-- While one of them waits, a producer that is given the slot is one of them. -/
  no_barging : (∃ p i, s.ParkedOn cfg k p i) → ∀ act s', step cfg s act = some s' → ∀ q,
    s'.Owns cfg k (.task q) → s.Owns cfg k (.task q) ∨ ∃ i, s.ParkedOn cfg k q i

/-! ## Who moves a task -/

/-- A task moves by its own step, or is resumed. -/
theorem step_task {act : Act V} (h : step cfg s act = some s') (p : Tid) :
    s'.task p = s.task p ∨ (∃ b, act = .task p b) ∨
    (s.task p = .idle ∧ (s'.task p).role = .out) ∨
    ∃ b idx v i, act = .consumer b ∧ s.consumer = .resumeProducer idx p ∧
      s.task p = .suspended v i ∧ s'.task p = .emplace v i := by
  have hcall : ∀ q pc, Pc.role pc = .out → s.task q = .idle → s.setTask q pc = s' →
      s'.task p = s.task p ∨ s.task p = .idle ∧ (s'.task p).role = .out := by
    rintro q pc hpc hidle rfl
    by_cases hq : p = q
    · subst hq
      exact .inr ⟨hidle, by rw [s.setTask_self, hpc]⟩
    · exact .inl (State.setTask_of_ne s hq _)
  cases act with
  | task q b =>
    by_cases hq : p = q
    · subst hq
      exact .inr (.inl ⟨b, rfl⟩)
    · exact .inl (State.taskStep_other h hq)
  | consumer b =>
    rcases State.consumerStep_task h with hs | ⟨idx, q, hpc, hs⟩
    · exact .inl (congrFun hs p)
    · rw [State.resumeProducer] at hs
      split at hs
      · next v i hq =>
        by_cases hpq : p = q
        · subst hpq
          exact .inr (.inr (.inr ⟨b, idx, v, i, rfl, hpc, hq, by rw [hs, s.setTask_self]⟩))
        · exact .inl (by rw [hs, State.setTask_of_ne s hpq])
      · exact .inl (congrFun hs p)
  | push q v =>
    simp only [step] at h
    split at h
    · next hidle => exact (hcall q _ rfl hidle (Option.some.inj h)).imp_right fun hc => .inr (.inl hc)
    · cases h
  | close q =>
    simp only [step] at h
    split at h
    · next hidle => exact (hcall q _ rfl hidle (Option.some.inj h)).imp_right fun hc => .inr (.inl hc)
    · cases h
  | pull c =>
    simp only [step] at h
    split at h
    · split at h <;> cases h
      exact .inl rfl
    · cases h
  | release =>
    simp only [step, State.release] at h
    split at h <;> cases h
    exact .inl rfl

theorem Pc.suspended_of_role {pc : Pc V} {i : Nat} {v : V} (h : pc.role = .parked i v) :
    pc = .suspended v i := by
  cases pc <;> cases h
  rfl

namespace Parking

variable {x : Parking} {act : Act V} {i : Nat} {v : V}

/-- Nothing is noted of a step that leaves the parked producers parked. -/
theorem note_same (h : step cfg s act = some s')
    (hsame : ∀ q i v, (s'.task q).role = .parked i v ↔ (s.task q).role = .parked i v) :
    note cfg s x act s' = x := by
  cases act with
  | task p b =>
    simp only [note]
    split
    · next v i hpc =>
      have hp := Pc.suspended_of_role ((hsame p i v).mp (by rw [hpc]; rfl))
      simp [step, State.taskStep, hp] at h
    · rfl
  | consumer b =>
    simp only [note]
    split
    · next idx p hc =>
      split
      · next v i hpc =>
        have hp := Pc.suspended_of_role ((hsame p i v).mpr (by rw [hpc]; rfl))
        simp only [step, State.consumerStep, hc, State.resumeProducer, hpc] at h
        cases h
        simp [State.setConsumer, State.setTask] at hp
      · rfl
    · rfl
  | _ => rfl

theorem note_park (h : step cfg s act = some s') (hp : (s.task p).role = .passed i v)
    (hp' : (s'.task p).role = .parked i v) : note cfg s x act s' = x.park cfg p i := by
  rcases step_task h p with hsame | ⟨b, rfl⟩ | ⟨-, hout⟩ | ⟨b, idx, w, j, -, -, hpc, -⟩
  · rw [hsame, hp] at hp'
    cases hp'
  · simp only [note, Pc.suspended_of_role hp']
  · rw [hout] at hp'
    cases hp'
  · rw [hpc] at hp
    cases hp

theorem note_hand (h : step cfg s act = some s') (hp : (s.task p).role = .parked i v)
    (hp' : (s'.task p).role = .writing i v) : note cfg s x act s' = x.hand cfg p i := by
  have hpc := Pc.suspended_of_role hp
  rcases step_task h p with hsame | ⟨b, rfl⟩ | ⟨hidle, -⟩ | ⟨b, idx, w, j, rfl, hc, -⟩
  · rw [hsame, hp] at hp'
    cases hp'
  · simp [step, State.taskStep, hpc] at h
  · rw [hidle] at hp
    cases hp
  · simp only [note, hc, hpc]

end Parking

/-! ## The chains -/

/-- The parked producers, in the order in which they are given the slot. -/
def Slot.turns (x : Slot V) : List Tid := x.output ++ x.input.reverse

theorem Slot.mem_turns {x : Slot V} : p ∈ x.turns ↔ p ∈ x.waiters := by
  simp [turns, waiters, or_comm]

theorem Slot.nodup_turns {x : Slot V} : x.turns.Nodup ↔ x.waiters.Nodup :=
  (List.perm_append_comm.trans ((List.reverse_perm _).append_right _)).nodup_iff

theorem Slot.turns_park {x : Slot V} (h : x.held = true) : (x.park p).turns = x.turns ++ [p] := by
  rw [turns, Slot.output_park, Slot.input_park h, List.reverse_cons, ← List.append_assoc]
  rfl

theorem Slot.turns_arm {x : Slot V} : x.arm.turns = x.turns := by cases x <;> rfl

/-- A move parks a producer behind the others, hands the slot to the first, or leaves
the parked producers as they are. -/
theorem RawMove.turns (hm : RawMove cfg a a') :
    (∃ p i v, a.role p = .passed i v ∧ a'.role = Function.update a.role p (.parked i v) ∧
      ∀ k, (a'.slot k).turns =
        if k = cfg.slotOf i then (a.slot k).turns ++ [p] else (a.slot k).turns) ∨
    (∃ p i v, a.role p = .parked i v ∧ a'.role = Function.update a.role p (.writing i v) ∧
      ∀ k, (a.slot k).turns =
        if k = cfg.slotOf i then p :: (a'.slot k).turns else (a'.slot k).turns) ∨
    (∀ q i v, a'.role q = .parked i v ↔ a.role q = .parked i v) ∧
      ∀ k, (a'.slot k).turns = (a.slot k).turns := by
  cases hm with
  | move h =>
    cases h with
    | @park p i v hr hs =>
      refine .inl ⟨p, i, v, hr, rfl, fun k => ?_⟩
      by_cases hk : k = cfg.slotOf i
      · rw [if_pos hk, hk, ← Slot.turns_park hs]
        exact congrArg Slot.turns (Function.update_self ..)
      · rw [if_neg hk]
        exact congrArg Slot.turns (Function.update_of_ne hk ..)
    | @wakeProducer p i v l₁ l₂ hr hp hs =>
      refine .inr (.inl ⟨p, i, v, hp, rfl, fun k => ?_⟩)
      by_cases hk : k = cfg.slotOf i
      · rw [if_pos hk, hk, hs]
        have hself : Function.update a.slot (cfg.slotOf i) (.busy (.task p i none) false l₁ l₂)
            (cfg.slotOf i) = .busy (.task p i none) false l₁ l₂ := Function.update_self ..
        exact congrArg (fun y : Slot V => p :: y.turns) hself.symm
      · rw [if_neg hk]
        exact (congrArg Slot.turns (Function.update_of_ne hk ..)).symm
    | arm => exact .inr (.inr ⟨by grind, by grind [Slot.turns_arm]⟩)
    | _ => exact .inr (.inr ⟨by grind, by grind [Slot.turns]⟩)
  | _ => exact .inr (.inr ⟨by grind, fun _ => rfl⟩)

/-- A slot on which producers are parked is given to one of them. -/
theorem RawMove.owner_of_waiting (hm : RawMove cfg a a') (hw : (a.slot k).waiters ≠ []) {i : Nat}
    {w : Option V} {b : Bool} {l l' : List Tid} (hs : a'.slot k = .busy (.task q i w) b l l') :
    (∃ w b l l', a.slot k = .busy (.task q i w) b l l') ∨ ∃ v, a.role q = .parked i v := by
  have hpark : ∀ {p}, (a.slot k).park p = .busy (.task q i w) b l l' →
      ∃ w b l l', a.slot k = .busy (.task q i w) b l l' := fun hp => by
    obtain ⟨l, hl⟩ := Slot.eq_busy_of_park hp
    exact ⟨_, _, _, _, hl⟩
  have harm : (a.slot k).arm = .busy (.task q i w) b l l' →
      ∃ w b l l', a.slot k = .busy (.task q i w) b l l' := fun ha => by
    obtain ⟨b, hb⟩ := Slot.eq_busy_of_arm ha
    exact ⟨_, _, _, _, hb⟩
  cases hm with
  | move h => cases h <;> grind
  | _ => exact .inl ⟨w, b, l, l', hs⟩

/-! ## The order -/

/-- The producers that parked on slot `k` and have not been given it are those of the
two chains. -/
def Queued (a : Abs V) (x : Parking) (k : Nat) : Prop :=
  ∃ rest, x.parked k = x.handed k ++ rest ∧ rest.map Prod.fst = (a.slot k).turns ∧
    ∀ e ∈ rest, ∃ v, a.role e.1 = .parked e.2 v

namespace Queued

variable {x : Parking} {i : Nat} {v : V}

theorem park (h : ∀ k, Queued a x k) (hp : a.role p = .passed i v)
    (hrole : a'.role = Function.update a.role p (.parked i v))
    (hturns : ∀ k, (a'.slot k).turns =
      if k = cfg.slotOf i then (a.slot k).turns ++ [p] else (a.slot k).turns) (k : Nat) :
    Queued a' (x.park cfg p i) k := by
  obtain ⟨rest, hx, hrest, hparked⟩ := h k
  have hother : ∀ e ∈ rest, ∃ v, a'.role e.1 = .parked e.2 v := by
    intro e he
    obtain ⟨w, hw⟩ := hparked e he
    refine ⟨w, ?_⟩
    rw [hrole, Function.update_of_ne, hw]
    intro hep
    rw [hep, hp] at hw
    cases hw
  by_cases hk : k = cfg.slotOf i
  · subst hk
    refine ⟨rest ++ [(p, i)], ?_, ?_, ?_⟩
    · simp only [Parking.park, Function.update_self]
      rw [hx, List.append_assoc]
    · rw [hturns, if_pos rfl, List.map_append, hrest]
      rfl
    · intro e he
      rcases List.mem_append.mp he with he | he
      · exact hother e he
      · rw [List.mem_singleton.mp he]
        exact ⟨v, by rw [hrole, Function.update_self]⟩
  · refine ⟨rest, ?_, ?_, hother⟩
    · simp only [Parking.park, Function.update_of_ne hk]
      exact hx
    · rw [hturns, if_neg hk, hrest]

theorem hand (h : ∀ k, Queued a x k) (hi : SlotInv cfg a) (hp : a.role p = .parked i v)
    (hrole : a'.role = Function.update a.role p (.writing i v))
    (hturns : ∀ k, (a.slot k).turns =
      if k = cfg.slotOf i then p :: (a'.slot k).turns else (a'.slot k).turns) (k : Nat) :
    Queued a' (x.hand cfg p i) k := by
  obtain ⟨rest, hx, hrest, hparked⟩ := h k
  have hother : ∀ l : List (Tid × Nat), (∀ e ∈ l, e ∈ rest) → (∀ e ∈ l, e.1 ≠ p) →
      ∀ e ∈ l, ∃ v, a'.role e.1 = .parked e.2 v := by
    intro l hl hne e he
    obtain ⟨w, hw⟩ := hparked e (hl e he)
    exact ⟨w, by rw [hrole, Function.update_of_ne (hne e he), hw]⟩
  have hfst : ∀ e ∈ rest, e.1 ∈ (a.slot k).turns := fun e he => by
    rw [← hrest]
    exact List.mem_map_of_mem he
  by_cases hk : k = cfg.slotOf i
  · subst hk
    rw [hturns, if_pos rfl] at hrest
    obtain ⟨⟨q, j⟩, rest, rfl, hq, hrest'⟩ := List.map_eq_cons_iff.mp hrest
    obtain rfl : q = p := hq
    obtain ⟨w, hw⟩ := hparked (q, j) List.mem_cons_self
    obtain ⟨rfl, -⟩ : i = j ∧ v = w := by simpa using hp.symm.trans hw
    have hnot : q ∉ (a'.slot (cfg.slotOf i)).turns := by
      have hnodup := Slot.nodup_turns.mpr (hi.waiters_nodup (cfg.slotOf i))
      rw [hturns, if_pos rfl, List.nodup_cons] at hnodup
      exact hnodup.1
    refine ⟨rest, ?_, hrest', hother rest (fun e he => List.mem_cons_of_mem _ he) ?_⟩
    · simp only [Parking.hand, Function.update_self]
      rw [hx, List.append_assoc]
      rfl
    · rintro e he rfl
      rw [← hrest'] at hnot
      exact hnot (List.mem_map_of_mem he)
  · refine ⟨rest, ?_, ?_, hother rest (fun e he => he) ?_⟩
    · simp only [Parking.hand, Function.update_of_ne hk]
      exact hx
    · rw [hrest, hturns, if_neg hk]
    · rintro e he rfl
      -- a producer is parked on one slot only
      refine hk (hi.waiter_unique (Slot.mem_turns.mp (hfst e he)) (Slot.mem_turns.mp ?_))
      rw [hturns, if_pos rfl]
      exact List.mem_cons_self

theorem same (h : ∀ k, Queued a x k)
    (hrole : ∀ q i v, a'.role q = .parked i v ↔ a.role q = .parked i v)
    (hturns : ∀ k, (a'.slot k).turns = (a.slot k).turns) (k : Nat) : Queued a' x k := by
  obtain ⟨rest, hx, hrest, hparked⟩ := h k
  refine ⟨rest, hx, hrest.trans (hturns k).symm, fun e he => ?_⟩
  obtain ⟨v, hv⟩ := hparked e he
  exact ⟨v, (hrole _ _ _).mpr hv⟩

/-- What is noted of a step is what its move does to the chains. -/
theorem step (h : ∀ k, Queued a x k) (hi : SlotInv cfg a) (hr : Rel cfg s a) (hr' : Rel cfg s' a')
    (ha : a' = a ∨ RawMove cfg a a') {act : Act V}
    (hs : MpscBounded.step cfg s act = some s') : ∀ k, Queued a' (Parking.note cfg s x act s') k := by
  have hsame : (∀ q i v, a'.role q = .parked i v ↔ a.role q = .parked i v) →
      (∀ k, (a'.slot k).turns = (a.slot k).turns) →
      ∀ k, Queued a' (Parking.note cfg s x act s') k := by
    intro hrole hturns
    rw [Parking.note_same hs fun q i v => by rw [← hr.role, ← hr'.role]; exact hrole q i v]
    exact same h hrole hturns
  rcases ha with rfl | hm
  · exact hsame (fun _ _ _ => Iff.rfl) fun _ => rfl
  rcases hm.turns with ⟨p, i, v, hp, hrole, hturns⟩ | ⟨p, i, v, hp, hrole, hturns⟩ | ⟨hrole, hturns⟩
  · have hp' : a'.role p = .parked i v := by rw [hrole, Function.update_self]
    rw [Parking.note_park hs (hr.role p ▸ hp) (hr'.role p ▸ hp')]
    exact park h hp hrole hturns
  · have hp' : a'.role p = .writing i v := by rw [hrole, Function.update_self]
    rw [Parking.note_hand hs (hr.role p ▸ hp) (hr'.role p ▸ hp')]
    exact hand h hi hp hrole hturns
  · exact hsame hrole hturns

end Queued

/-- The runs of the queue beside the notes. -/
def noted (V : Type) (cfg : Config) : System (State V × Parking) (Act V) :=
  (system V cfg).noting .empty (Parking.note cfg)

theorem queued {x : Parking} (h : (noted V cfg).Reachable (s, x)) :
    ∃ a, Rel cfg s a ∧ SlotInv cfg a ∧ ∀ k, Queued a x k := by
  refine System.Reach.invariant (I := fun y : State V × Parking =>
    ∃ a, Rel cfg y.1 a ∧ SlotInv cfg a ∧ ∀ k, Queued a y.2 k) ?_ ?_ h
  · rintro ⟨s, x⟩ ⟨rfl, rfl⟩
    exact ⟨_, .init, .init, fun k => ⟨[], rfl, rfl, fun e he => absurd he List.not_mem_nil⟩⟩
  · rintro ⟨s, x⟩ act ⟨s', x'⟩ ⟨a, hr, hi, hq⟩ - ⟨hs, hx⟩
    obtain ⟨a', hr', ha⟩ := hr.follows hi hs
    exact ⟨a', hr', hi.next ha, fun k => hx ▸ Queued.step hq hi hr hr' ha hs k⟩

theorem Rel.inputChain (h : Rel cfg s a) : s.InputChain k (a.slot k).input := by
  rw [State.InputChain, h.flags, Slot.chainPtr_flags]
  exact h.input k

theorem Rel.outputChain (h : Rel cfg s a) : s.OutputChain cfg k (a.slot k).output := by
  have hknows := h.consumer
  have hout := h.output k
  rw [State.OutputChain]
  cases hpc : s.consumer with
  | reverse idx prev curr =>
    rw [hpc] at hknows
    obtain ⟨hidx, -, l, done, left, hs, hprev, hcurr⟩ := hknows
    have hreads : a.reads - 1 = idx := by omega
    rw [hreads] at hout
    dsimp only
    split
    · next hk =>
      subst hk
      rw [hs]
      exact ⟨done, left, rfl, hprev, hcurr⟩
    · next hk => exact hout fun _ => Ne.symm hk
  | resumeProducer idx p =>
    rw [hpc] at hknows
    obtain ⟨hidx, -, l, l', hs, hl⟩ := hknows
    have hreads : a.reads - 1 = idx := by omega
    rw [hreads] at hout
    dsimp only
    split
    · next hk =>
      subst hk
      rw [hs]
      exact ⟨l', rfl, hl⟩
    · next hk => exact hout fun _ => Ne.symm hk
  | _ =>
    rw [hpc] at hknows
    refine hout fun hc => ?_
    simp only [ConsumerPc.Knows, hc] at hknows
    simp at hknows

theorem Rel.parkedOn (h : Rel cfg s a) {i : Nat} :
    s.ParkedOn cfg k p i ↔ (∃ v, a.role p = .parked i v) ∧ cfg.slotOf i = k := by
  refine and_congr_left fun _ => exists_congr fun v => ?_
  rw [h.role]
  refine ⟨fun hpc => by rw [hpc]; rfl, fun hr => Pc.suspended_of_role hr⟩

theorem Rel.order (h : Rel cfg s a) (hi : SlotInv cfg a) {x : Parking} (hq : Queued a x k) :
    ∃ input output rest, s.InputChain k input ∧ s.OutputChain cfg k output ∧
      x.parked k = x.handed k ++ rest ∧ rest.map Prod.fst = output ++ input.reverse ∧
      (output ++ input.reverse).Nodup ∧ ∀ p i, (p, i) ∈ rest ↔ s.ParkedOn cfg k p i := by
  obtain ⟨rest, hx, hrest, hparked⟩ := hq
  refine ⟨_, _, rest, h.inputChain, h.outputChain, hx, hrest,
    Slot.nodup_turns.mpr (hi.waiters_nodup k), fun p i => ?_⟩
  rw [h.parkedOn]
  constructor
  · intro he
    obtain ⟨v, hv⟩ := hparked _ he
    have hw : p ∈ (a.slot k).turns := hrest ▸ List.mem_map_of_mem he
    obtain ⟨j, w, hp, hk⟩ := hi.waiter_parked k p (Slot.mem_turns.mp hw)
    obtain ⟨rfl, -⟩ : i = j ∧ v = w := by simpa using hv.symm.trans hp
    exact ⟨⟨v, hv⟩, hk⟩
  · rintro ⟨⟨v, hv⟩, rfl⟩
    have hw := Slot.mem_turns.mpr (hi.parked_waiter p i v hv)
    rw [← hrest] at hw
    obtain ⟨⟨q, j⟩, he, rfl⟩ := List.mem_map.mp hw
    obtain ⟨w, hq⟩ := hparked _ he
    obtain ⟨rfl, -⟩ : i = j ∧ v = w := by simpa using hv.symm.trans hq
    exact he

theorem Rel.no_barging (h : Rel cfg s a) (hi : SlotInv cfg a)
    (hw : ∃ p i, s.ParkedOn cfg k p i) {act : Act V} (hs : MpscBounded.step cfg s act = some s')
    (ho : s'.Owns cfg k (.task q)) :
    s.Owns cfg k (.task q) ∨ ∃ i, s.ParkedOn cfg k q i := by
  obtain ⟨p, i, hp⟩ := hw
  obtain ⟨⟨v, hv⟩, rfl⟩ := h.parkedOn.mp hp
  have hne : (a.slot (cfg.slotOf i)).waiters ≠ [] :=
    List.ne_nil_of_mem (hi.parked_waiter p i v hv)
  obtain ⟨a', hr', ha⟩ := h.follows hi hs
  have hi' := hi.next ha
  obtain ⟨j, w, b, l, l', hslot⟩ := (hr'.owns_task hi' q).mp ho
  rcases ha with rfl | hm
  · exact .inl ((h.owns_task hi q).mpr ⟨j, w, b, l, l', hslot⟩)
  · rcases hm.owner_of_waiting hne hslot with ⟨w, b, l, l', hown⟩ | hpark
    · exact .inl ((h.owns_task hi q).mpr ⟨j, w, b, l, l', hown⟩)
    · exact .inr ⟨j, h.parkedOn.mpr ⟨hpark, hi'.owner_slotOf _ _ _ _ _ _ _ hslot⟩⟩

/-- Parked producers are given their slot in turn, and nobody overtakes them. -/
theorem in_turn {x : Parking} (h : (noted V cfg).Reachable (s, x)) (k : Nat) :
    InTurn cfg s x k := by
  obtain ⟨a, hr, hi, hq⟩ := queued h
  exact
    { order := hr.order hi (hq k)
      no_barging := fun hw _ _ hs _ ho => hr.no_barging hi hw hs ho }

/-- One slot that task 0 has filled.  Tasks 1 and 2 park on it, and the consumer hands
it to task 1. -/
def parkTwice : List (Act Nat) :=
  .push 0 7 :: List.replicate 7 (.task 0 false) ++ .push 1 8 :: List.replicate 5 (.task 1 false) ++
    .push 2 9 :: List.replicate 5 (.task 2 false) ++
    [.pull .pull, .consumer false, .release] ++ List.replicate 6 (.consumer false)

theorem in_turn_parkTwice : ∃ s x, (noted Nat oneSlot).Reachable (s, x) ∧
    x.parked 0 = [(1, 1), (2, 2)] ∧ x.handed 0 = [(1, 1)] ∧ InTurn oneSlot s x 0 := by
  have hrun : (noted Nat oneSlot).Reachable _ := System.ofStep_noting parkTwice rfl
  exact ⟨_, _, hrun, rfl, rfl, in_turn hrun 0⟩

end CoroUtil.MpscBounded
