import CoroUtil.General.Fifo
import CoroUtil.SpscBounded.Run

/-!
# The queue is a bounded FIFO

`bounded_fifo`: every step of the queue is an operation of a FIFO that holds up
to `capacity` unreleased values, or leaves it alone; an unreleased value stays in
its slot; and the producer and the consumer are never suspended both.
-/

namespace CoroUtil.SpscBounded

open CoroUtil.General

variable {V : Type} {cfg : Config} {s s' : State V}

/-- The scope over the last value that was handed out is alive. -/
def ConsumerPc.lent : ConsumerPc → Nat
  | holding _ => 1
  | _ => 0

/-- What the queue is for its users. -/
def State.fifo (s : State V) : Fifo V where
  pushed := s.pushed
  handed := handed s.pulls
  released := (handed s.pulls).length - s.consumer.lent

/-- A step is an operation of the FIFO or leaves it alone. -/
def Refines (cfg : Config) (s s' : State V) : Prop :=
  s'.fifo = s.fifo ∨ ∃ op, Fifo.step cfg.capacity s.fifo op = some s'.fifo

theorem State.fifo_eq (hp : s'.pushed = s.pushed) (hh : handed s'.pulls = handed s.pulls)
    (hl : s'.consumer.lent = s.consumer.lent) : s'.fifo = s.fifo := by
  rw [State.fifo, hp, hh, hl]
  rfl

theorem Inv.handed_length (h : Inv cfg s) :
    (SpscBounded.handed s.pulls).length = s.readOffset + s.consumer.taken := by
  rw [h.handed, List.length_take_of_le (h.pushed ▸ h.taken_le)]

/-- The slots of the values that were released are free, but for the one that is
being freed. -/
theorem Inv.released_ge (h : Inv cfg s) : s.readOffset ≤ s.fifo.released := by
  have hlen := h.handed_length
  have hlent : s.consumer.lent ≤ s.consumer.taken := by
    cases s.consumer <;> simp [ConsumerPc.lent, ConsumerPc.taken]
  change _ ≤ (SpscBounded.handed s.pulls).length - s.consumer.lent
  omega

theorem Inv.fifo_publish (h : Inv cfg s) {idx : Nat} {vs : List V}
    (hin : s.writeOffset + vs.length ≤ s.readOffset + cfg.capacity) :
    Refines cfg s (s.publish cfg idx vs) := by
  obtain ⟨pc, b, -, heq⟩ := s.publish_spec cfg idx vs
  have hle := h.released_ge
  refine .inr ⟨.push vs, ?_⟩
  rw [heq, Fifo.step, if_pos]
  · rfl
  · change s.pushed.length + vs.length ≤ _
    rw [h.pushed]
    omega

theorem Inv.fifo_handOut (h : Inv cfg s) (hb : Straight cfg s)
    (hshown : s.consumer.shown = (0, false, false, false)) (hres : s.consumer ≠ .resumeProducer)
    (hlt : s.readOffset < s.writeOffset) : Refines cfg s (s.handOut cfg s.readOffset) := by
  obtain ⟨v, hv, heq, -⟩ := h.handOut hb hshown hres hlt
  have htaken : s.consumer.taken = 0 := congrArg Prod.fst hshown
  have hlen := h.handed_length
  have hlent : s.consumer.lent = 0 := by
    cases hpc : s.consumer with
    | holding idx =>
      rw [hpc] at htaken
      cases htaken
    | _ => rfl
  rw [htaken, Nat.add_zero] at hlen
  have hf : s.fifo = ⟨s.pushed, SpscBounded.handed s.pulls, s.readOffset⟩ := by
    rw [State.fifo, hlent, hlen]
    rfl
  refine .inr ⟨.pull, ?_⟩
  rw [heq, hf, Fifo.step]
  simp only [hlen, hv, if_true, Option.map_some]
  rw [State.fifo, handed_append, List.length_append, hlen]
  rfl

theorem State.fifo_returnPull {r : Pull V} (hr : handed [r] = []) (hlent : s.consumer.lent = 0) :
    (s.returnPull r).fifo = s.fifo := by
  refine State.fifo_eq rfl ?_ hlent.symm
  rw [State.returnPull, handed_append, hr, List.append_nil]

theorem Inv.fifo_producerStep (h : Inv cfg s) {spurious : Bool}
    (hstep : s.producerStep cfg spurious = some s') : Refines cfg s s' := by
  have hp := h.producer
  rw [State.producerOk] at hp
  cases hpc : s.producer with
  | publish v idx =>
    rw [hpc] at hp
    simp only [State.producerStep, hpc, Option.some.injEq] at hstep
    exact hstep ▸ h.fifo_publish hp.2.2
  | bulkPublish vs idx =>
    rw [hpc] at hp
    simp only [State.producerStep, hpc, Option.some.injEq] at hstep
    exact hstep ▸ h.fifo_publish hp.2.2.2
  | _ =>
    simp only [State.producerStep, hpc] at hstep
    refine .inl (State.fifo_eq ?_ ?_ ?_)
    all_goals
      grind [State.setProducer, State.setFlags, State.setData, State.check, State.construct,
        State.notParked, State.nextItem, State.resumeConsumer, State.setConsumer,
        ConsumerPc.lent]

theorem Inv.fifo_consumerStep (h : Inv cfg s) (hb : Straight cfg s)
    (hstep : s.consumerStep cfg = some s') : Refines cfg s s' := by
  have hc := h.consumer
  rw [State.consumerOk] at hc
  cases hpc : s.consumer with
  | poll k =>
    have hshown : s.consumer.shown = (0, false, false, false) := by rw [hpc]; rfl
    simp only [State.consumerStep, hpc] at hstep
    split at hstep
    · next hd =>
      cases hstep
      exact h.fifo_handOut hb hshown (by simp [hpc]) (h.dataWaiting_lt hb hshown hd)
    · refine .inl ?_
      cases k with
      | pull =>
        cases hstep
        exact State.fifo_eq rfl rfl (by rw [hpc]; rfl)
      | tryPull =>
        cases hstep
        refine State.fifo_returnPull ?_ (by rw [hpc]; rfl)
        split_ifs <;> rfl
  | tryWait idx =>
    rw [hpc] at hc
    obtain ⟨rfl, -⟩ := hc
    have hshown : s.consumer.shown = (0, false, false, false) := by rw [hpc]; rfl
    simp only [State.consumerStep, hpc] at hstep
    split_ifs at hstep with hnull hclosed <;> cases hstep
    · exact .inl (State.fifo_eq rfl rfl (by rw [hpc]; rfl))
    · exact .inl (State.fifo_returnPull rfl (by rw [hpc]; rfl))
    · exact h.fifo_handOut hb hshown (by simp [hpc]) (h.not_empty_lt hb hshown hnull hclosed)
  | resumed idx n =>
    rw [hpc] at hc
    obtain ⟨rfl, hn⟩ := hc
    simp only [State.consumerStep, hpc] at hstep
    split_ifs at hstep with hnull <;> cases hstep
    · exact .inl (State.fifo_returnPull rfl (by rw [hpc]; rfl))
    · exact h.fifo_handOut hb (by rw [hpc]; rfl) (by simp [hpc]) (hn (by simpa using hnull))
  | _ =>
    simp only [State.consumerStep, hpc] at hstep
    refine .inl (State.fifo_eq ?_ ?_ ?_)
    all_goals
      grind [State.setProducer, State.setFlags, State.setData, State.resumeProducer,
        State.setConsumer, State.check, ConsumerPc.lent]

theorem Inv.fifo_step (h : Inv cfg s) (hb : Straight cfg s) {act : Act V}
    (hstep : SpscBounded.step cfg s act = some s') : Refines cfg s s' := by
  cases act with
  | producer spurious => exact h.fifo_producerStep hstep
  | consumer => exact h.fifo_consumerStep hb hstep
  | release =>
    simp only [SpscBounded.step, State.release] at hstep
    split at hstep <;> cases hstep
    next idx hpc =>
      have hlen := h.handed_length
      rw [hpc] at hlen
      have hf : s.fifo = ⟨s.pushed, SpscBounded.handed s.pulls, s.readOffset⟩ := by
        rw [State.fifo, hlen, hpc]
        rfl
      refine .inr ⟨.release, ?_⟩
      rw [hf, Fifo.step, if_pos (hlen ▸ Nat.lt_succ_self _)]
      refine congrArg some (congrArg (Fifo.mk s.pushed (SpscBounded.handed s.pulls)) ?_)
      exact hlen.symm
  | push v | tryPush v | pushBulk vs | close | pull k =>
    simp only [SpscBounded.step, State.call] at hstep
    refine .inl (State.fifo_eq ?_ ?_ ?_)
    all_goals grind [State.setProducer, State.setConsumer, ConsumerPc.lent]

section Data

variable {k idx : Nat} {v : V}

theorem State.data_setFlags (f : Flags) :
    ((s.setFlags cfg idx f).elements k).data = (s.elements k).data := by
  simp only [State.setFlags, Function.update_apply]
  split
  · next hk => rw [hk, State.elem]
  · rfl

theorem State.data_setData (d : Option V) (hk : k ≠ cfg.slotOf idx) :
    ((s.setData cfg idx d).elements k).data = (s.elements k).data :=
  congrArg Element.data (Function.update_of_ne hk ..)

/-- No value is constructed over another one, or an assertion fails. -/
theorem State.data_construct (w : Option V) (hb : (s.construct cfg idx w).broken = false)
    (hv : (s.elements k).data = some v) : ((s.construct cfg idx w).elements k).data = some v := by
  have hk : k ≠ cfg.slotOf idx := by
    rintro rfl
    simp [State.construct, State.setData, State.check, State.elem, hv] at hb
  exact (State.data_setData w hk).trans hv

theorem State.elements_notParked (f : Flags) : (s.notParked cfg f).elements = s.elements := rfl

theorem State.elements_resumeConsumer : s.resumeConsumer.elements = s.elements := by
  rw [State.resumeConsumer]
  split <;> rfl

theorem State.elements_resumeProducer : s.resumeProducer.elements = s.elements := by
  rw [State.resumeProducer]
  split <;> rfl

theorem State.elements_handOut : (s.handOut cfg idx).elements = s.elements := by
  rw [State.handOut]
  split <;> rfl

theorem State.producerStep_data {spurious : Bool} (h : s.producerStep cfg spurious = some s')
    (hb : s'.broken = false) (hv : (s.elements k).data = some v) :
    (s'.elements k).data = some v := by
  cases hpc : s.producer with
  | publish w idx | bulkPublish vs idx =>
    simp only [State.producerStep, hpc, Option.some.injEq] at h
    obtain ⟨pc, b, -, heq⟩ := s.publish_spec cfg idx _
    rw [← h, heq]
    exact (State.data_setFlags .data).trans hv
  | emplace w idx | bulkFirst vs idx | bulkEmplace vs idx i =>
    simp only [State.producerStep, hpc, Option.some.injEq] at h
    rw [← h] at hb ⊢
    exact State.data_construct _ hb hv
  | idle | pushSuspended w idx | bulkSuspended vs idx => simp [State.producerStep, hpc] at h
  | _ =>
    rw [← hv]
    simp only [State.producerStep, hpc] at h
    try split at h
    all_goals
      cases h
      simp only [State.setProducer, State.setConsumer, State.nextItem, State.check,
        State.data_setFlags, State.elements_notParked, State.elements_resumeConsumer]

theorem State.consumerStep_data (h : s.consumerStep cfg = some s') :
    (s'.elements k).data = (s.elements k).data := by
  simp only [State.consumerStep] at h
  split at h
  case h_1 | h_4 | h_6 => cases h
  all_goals
    try split at h
    all_goals try split at h
    all_goals
      cases h
      simp only [State.setConsumer, State.returnPull, State.data_setFlags, State.elements_handOut,
        State.elements_resumeProducer]

end Data

/-- A value is taken out of its slot by the release of its scope. -/
theorem Inv.kept (h : Inv cfg s) (hb : Straight cfg s) {act : Act V}
    (hstep : SpscBounded.step cfg s act = some s') {k : Nat} {v : V}
    (hv : (s.elements k).data = some v) : (s'.elements k).data = some v ∨
      act = .release ∧ ∃ idx, s.consumer = .holding idx ∧ k = cfg.slotOf idx := by
  have hi := h.step hb hstep
  cases act with
  | producer spurious => exact .inl (State.producerStep_data hstep hi.unbroken hv)
  | consumer => exact .inl ((State.consumerStep_data hstep).trans hv)
  | release =>
    simp only [SpscBounded.step, State.release] at hstep
    split at hstep <;> cases hstep
    next idx hpc =>
      by_cases hk : k = cfg.slotOf idx
      · exact .inr ⟨rfl, idx, hpc, hk⟩
      · exact .inl ((State.data_setData none hk).trans hv)
  | push w | tryPush w | pushBulk vs | close =>
    simp only [SpscBounded.step, State.call] at hstep
    split at hstep
    · split at hstep <;> cases hstep
      exact .inl hv
    · cases hstep
  | pull c =>
    simp only [SpscBounded.step] at hstep
    split at hstep
    · split at hstep <;> cases hstep
      exact .inl hv
    · cases hstep

/-- A value that has not been released is in its slot. -/
theorem Inv.unreleased (h : Inv cfg s) (hb : Straight cfg s) {n : Nat}
    (hr : s.fifo.released ≤ n) (hn : n < s.pushed.length) :
    (s.elem cfg n).data = s.pushed[n]? := by
  have hle := h.released_ge
  have hfull := h.full
  have hlen := h.pushed
  rw [h.elem hb (by omega) (by omega) (by omega)]
  refine (View.dataAt_eq fun hf hnr => ?_).trans (List.getElem?_append_left hn)
  -- the value of the slot that is being freed has been released
  have htaken : s.consumer.taken = 1 ∧ s.consumer.lent = 0 := by
    cases hpc : s.consumer with
    | freeSlot idx => exact ⟨rfl, rfl⟩
    | _ =>
      simp only [State.view, hpc, ConsumerPc.freeing] at hf
      cases hf
  have hh := h.handed_length
  have hrel : s.fifo.released = (SpscBounded.handed s.pulls).length - s.consumer.lent := rfl
  have hrd : s.view.readOffset = s.readOffset := rfl
  omega

def ProducerPc.waiting : ProducerPc V → Bool
  | pushSuspended _ _ | bulkSuspended _ _ => true
  | _ => false

/-- A consumer that waits has freed every slot, and the producer waits for one
that is not free. -/
theorem Inv.not_both_waiting (h : Inv cfg s) (hp : s.producer.waiting = true)
    (hc : s.consumer.waiting = true) : False := by
  obtain ⟨last, hlast⟩ : ∃ last, s.producer.waitsFor = some last := by
    cases hpc : s.producer with
    | pushSuspended v idx | bulkSuspended vs idx => exact ⟨_, rfl⟩
    | _ =>
      rw [hpc] at hp
      cases hp
  have hwakes : s.producer.wakes = false := by
    cases hpc : s.producer with
    | resumeConsumer | closeElemNull | closeResume =>
      rw [hpc] at hp
      cases hp
    | _ => rfl
  obtain ⟨-, hlt, hle, hres⟩ := h.waitsFor_cases hlast
  have hr := h.waiting_at hc hwakes
  rw [hres (by omega)] at hc
  cases hc

theorem fifo_reachable (h : (system V cfg).Reachable s) (hb : Straight cfg s) :
    (Fifo.system V cfg.capacity).Reachable s.fifo := by
  have hrun : Inv cfg s ∧ (Fifo.system V cfg.capacity).Reachable s.fifo := by
    refine invariant_of_straight (I := fun s => Inv cfg s ∧
      (Fifo.system V cfg.capacity).Reachable s.fifo) ⟨.init, .init rfl⟩ ?_ h hb
    rintro s act s' ⟨hi, hf⟩ hb hs
    refine ⟨hi.step hb hs, ?_⟩
    rcases hi.fifo_step hb hs with heq | ⟨op, hop⟩
    · rwa [heq]
    · exact hf.step hop
  exact hrun.2

/-- What a bounded FIFO promises. -/
structure BoundedFifo (cfg : Config) (s : State V) : Prop where
  /-- A run of the queue is a run of the FIFO. -/
  reachable : (Fifo.system V cfg.capacity).Reachable s.fifo
  refines : ∀ act s', step cfg s act = some s' → Refines cfg s s'
  /-- What is handed out is a prefix of what was pushed. -/
  in_order : handed s.pulls <+: s.pushed
  /-- Only the release of its scope takes a value out of its slot. -/
  kept : ∀ act s', step cfg s act = some s' → ∀ k v, (s.elements k).data = some v →
    (s'.elements k).data = some v ∨
      act = .release ∧ ∃ idx, s.consumer = .holding idx ∧ k = cfg.slotOf idx
  unreleased : ∀ n, s.fifo.released ≤ n → n < s.pushed.length →
    (s.elem cfg n).data = s.pushed[n]?
  bounded : s.pushed.length ≤ s.fifo.released + cfg.capacity
  /-- The producer and the consumer are not suspended both. -/
  awake : ¬ (s.producer.waiting = true ∧ s.consumer.waiting = true)
  unbroken : s.broken = false

theorem boundedFifo (h : (system V cfg).Reachable s) (hb : Straight cfg s) : BoundedFifo cfg s := by
  have hi := inv h hb
  have hf := fifo_reachable h hb
  have hord := Fifo.ordered hf
  exact
    { reachable := hf
      refines := fun _ _ hs => hi.fifo_step hb hs
      in_order := hord.handed
      kept := fun _ _ hs _ _ hv => hi.kept hb hs hv
      unreleased := fun _ hr hn => hi.unreleased hb hr hn
      bounded := hord.bounded
      awake := fun ⟨hp, hc⟩ => hi.not_both_waiting hp hc
      unbroken := hi.unbroken }

/-- The queue refines a FIFO of its capacity. -/
theorem bounded_fifo (h : (system V cfg).Reachable s)
    (hb : s.writeOffset + s.producer.count < 2 ^ cfg.bits) : BoundedFifo cfg s :=
  boundedFifo h (straight_of_lt hb)

theorem oneSlot_fits : 1 < 2 ^ (64 - 1) := by decide

/-- One slot and 64-bit offsets. -/
def oneSlot : Config := ⟨64, 1, true, Nat.one_pos, oneSlot_fits⟩

/-- The second push finds the only slot full and waits until the consumer has
released the first value. -/
def pushToFull : List (Act Nat) :=
  .push 7 :: List.replicate 3 (.producer false) ++ .push 8 :: List.replicate 2 (.producer false) ++
    [.pull .pull, .consumer, .release, .consumer, .consumer] ++ List.replicate 2 (.producer false) ++
    [.pull .pull, .consumer]

theorem bounded_fifo_pushToFull : ∃ s, pushToFull.foldlM (step oneSlot) .init = some s ∧
    handed s.pulls = [7, 8] ∧ BoundedFifo oneSlot s :=
  ⟨_, rfl, rfl, bounded_fifo (System.ofStep_reachable pushToFull rfl) (by decide)⟩

end CoroUtil.SpscBounded
