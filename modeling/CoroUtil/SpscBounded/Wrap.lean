import CoroUtil.SpscBounded.Delivery

/-!
# Offsets that wrap

The slot of an index is `Idx % capacity` on the register contents of `Idx`, so
the slots go round evenly past the end of the register's range only if the
capacity divides it: `survives_wrap_iff`.  For any other capacity a run that gets
there shares a slot between two indices of one window, and `try_push` finds it
occupied while the queue is not full.
-/

namespace CoroUtil.SpscBounded

open CoroUtil.General

variable {V : Type} {cfg : Config} {s : State V}

/-- The capacity divides the range of the offsets, or they have not wrapped. -/
def Unwrapped (cfg : Config) (s : State V) : Prop :=
  cfg.capacity ∣ 2 ^ cfg.bits ∨ s.writeOffset + s.producer.count < 2 ^ cfg.bits

theorem straight_of_dvd (hd : cfg.capacity ∣ 2 ^ cfg.bits) : Straight cfg s :=
  fun n _ => Nat.mod_mod_of_dvd n hd

theorem Unwrapped.straight (h : Unwrapped cfg s) : Straight cfg s := by
  rcases h with hd | hlt
  · exact straight_of_dvd hd
  · exact straight_of_lt hlt

/-- `try_push` is about to return false. -/
def State.refuses (cfg : Config) (s : State V) : Prop :=
  ∃ v, s.producer = .tryPoll v ∧ (s.elem cfg s.writeOffset).flags = .data

/-- `try_push` polls a slot with data exactly when `capacity` values have not been
released, but for the one whose slot is being freed. -/
theorem Inv.refuses_full (h : Inv cfg s) (hb : Straight cfg s) (hr : s.refuses cfg) :
    s.readOffset + cfg.capacity ≤ s.writeOffset := by
  obtain ⟨v, hpc, hf⟩ := hr
  have hp := h.producer
  rw [State.producerOk, hpc] at hp
  refine (h.poll_iff hb (marked_of_open hp) (by rw [hpc]; rfl) (by rw [hpc]; rfl) le_rfl ?_
    (Nat.le_add_right ..)).mp hf
  exact Nat.lt_add_of_pos_right cfg.capacity_pos

section Runs

variable {d : V}

/-- The queue after `n` values have been pushed and released, the slots of the
next ones as `elements` says. -/
def State.level (n : Nat) (elements : Nat → Element V) (pushed : List V) (pulls : List (Pull V)) :
    State V :=
  { State.init with
    writeOffset := pushed.length
    readOffset := n
    elements := elements
    pushed := pushed
    pulls := pulls }

/-- A push to an empty slot. -/
theorem reach_push {n : Nat} {es : Nat → Element V} {vs : List V} {rs : List (Pull V)}
    (hr : (system V cfg).Reachable (.level n es vs rs))
    (he : es (cfg.slotOf vs.length) = ⟨.null, none⟩) :
    (system V cfg).Reachable (.level n
      (Function.update es (cfg.slotOf vs.length) ⟨.data, some d⟩) (vs ++ [d]) rs) := by
  refine System.ofStep_run [.push d, .producer false, .producer false, .producer false] hr ?_
  simp [step, State.call, State.level, State.init, State.setProducer, State.producerStep,
    State.elem, State.construct, State.check, State.setData, State.publish, State.setFlags, he]

theorem reach_level (cfg : Config) (d : V) (n : Nat) : ∃ rs, handed rs = List.replicate n d ∧
    (system V cfg).Reachable (.level n (fun _ => ⟨.null, none⟩) (List.replicate n d) rs) := by
  induction n with
  | zero => exact ⟨[], rfl, .init rfl⟩
  | succ n ih =>
    obtain ⟨rs, hh, hr⟩ := ih
    have hpush := reach_push (d := d) hr rfl
    refine ⟨rs ++ [.ok d], ?_,
      System.ofStep_run [.pull .tryPull, .consumer, .release, .consumer] hpush ?_⟩
    · rw [handed_append, hh, List.replicate_succ']
      rfl
    · simp [step, State.level, State.init, State.setConsumer, State.consumerStep, State.elem,
        Flags.dataWaiting, Flags.dataBit, State.handOut, State.release, State.check, State.setData,
        State.setFlags, Flags.isPointer, Flags.closedBit, List.replicate_succ']

/-- The first `m` slots hold values. -/
def filled (m : Nat) (d : V) (j : Nat) : Element V :=
  if j < m then ⟨.data, some d⟩ else ⟨.null, none⟩

theorem update_filled (m : Nat) (d : V) :
    Function.update (filled m d) m ⟨.data, some d⟩ = filled (m + 1) d := by
  funext j
  rw [Function.update_apply, filled, filled]
  split_ifs <;> first | rfl | omega

/-- A run to the end of the range: `r` values are in the first slots, and the next
index selects the first slot again. -/
theorem reach_filled (cfg : Config) (d : V) {m : Nat} (hm : m ≤ 2 ^ cfg.bits % cfg.capacity) :
    ∃ rs, (system V cfg).Reachable (.level (2 ^ cfg.bits - 2 ^ cfg.bits % cfg.capacity)
      (filled m d) (List.replicate (2 ^ cfg.bits - 2 ^ cfg.bits % cfg.capacity + m) d) rs) := by
  induction m with
  | zero =>
    obtain ⟨rs, -, hr⟩ := reach_level cfg d (2 ^ cfg.bits - 2 ^ cfg.bits % cfg.capacity)
    exact ⟨rs, hr⟩
  | succ m ih =>
    obtain ⟨rs, hr⟩ := ih (Nat.le_of_succ_le hm)
    have hle : 2 ^ cfg.bits % cfg.capacity ≤ 2 ^ cfg.bits := Nat.mod_le _ _
    have hlt : 2 ^ cfg.bits % cfg.capacity < cfg.capacity := Nat.mod_lt _ cfg.capacity_pos
    have hdvd : cfg.capacity ∣ 2 ^ cfg.bits - 2 ^ cfg.bits % cfg.capacity := Nat.dvd_sub_mod _
    have hslot : cfg.slotOf (2 ^ cfg.bits - 2 ^ cfg.bits % cfg.capacity + m) = m := by
      rw [Config.slotOf, word_of_lt (by omega), Nat.add_mod, Nat.mod_eq_zero_of_dvd hdvd,
        Nat.zero_add, Nat.mod_mod, Nat.mod_eq_of_lt (by omega)]
    refine ⟨rs, ?_⟩
    have hpush := reach_push (d := d) hr
      (by rw [List.length_replicate, hslot, filled, if_neg (by omega)])
    rw [List.length_replicate, hslot, ← List.replicate_succ', update_filled] at hpush
    exact hpush

/-- A capacity that does not divide the range of the offsets: `try_push` returns
false while fewer values than `capacity` are unreleased. -/
theorem reach_refuses (d : V) (hd : ¬ cfg.capacity ∣ 2 ^ cfg.bits) :
    ∃ s : State V, (system V cfg).Reachable s ∧ s.refuses cfg ∧
      s.pushed.length < s.readOffset + cfg.capacity := by
  have hpos : 0 < 2 ^ cfg.bits % cfg.capacity :=
    Nat.pos_of_ne_zero fun h => hd (Nat.dvd_of_mod_eq_zero h)
  have hlt : 2 ^ cfg.bits % cfg.capacity < cfg.capacity := Nat.mod_lt _ cfg.capacity_pos
  have hle : 2 ^ cfg.bits % cfg.capacity ≤ 2 ^ cfg.bits := Nat.mod_le _ _
  obtain ⟨rs, hr⟩ := reach_filled cfg d le_rfl
  rw [Nat.sub_add_cancel hle] at hr
  have hslot : cfg.slotOf (2 ^ cfg.bits) = 0 := by
    rw [Config.slotOf, word, Nat.mod_self, Nat.zero_mod]
  refine ⟨_, System.ofStep_run [.tryPush d] hr rfl, ⟨d, rfl, ?_⟩, ?_⟩
  · simp [State.level, State.setProducer, State.elem, hslot, filled, hpos]
  · simp only [State.level, State.setProducer, List.length_replicate]
    omega

end Runs

/-- What the queue promises of runs of any length. -/
structure SurvivesWrap (cfg : Config) (s : State V) : Prop where
  fifo : BoundedFifo cfg s
  /-- `try_push` returns false only when the slots of `capacity` values are not free. -/
  exact : s.refuses cfg → s.readOffset + cfg.capacity ≤ s.pushed.length

/-- The queue survives the wraparound of its offsets exactly with a capacity that
divides their range. -/
theorem survives_wrap_iff [Inhabited V] :
    (∀ s : State V, (system V cfg).Reachable s → SurvivesWrap cfg s) ↔
      cfg.capacity ∣ 2 ^ cfg.bits := by
  constructor
  · intro h
    by_contra hd
    obtain ⟨s, hr, href, hlt⟩ := reach_refuses (V := V) default hd
    have hle := (h s hr).exact href
    omega
  · intro hd s hr
    have hb : Straight cfg s := straight_of_dvd hd
    have hi := inv hr hb
    refine ⟨boundedFifo hr hb, fun href => ?_⟩
    rw [hi.pushed]
    exact hi.refuses_full hb href

/-- Three slots and 32-bit offsets. -/
def threeSlots : Config := ⟨32, 3, true, by decide, by decide⟩

/-- With three slots the first and the last index of the range select the same
slot, and `try_push` takes one unreleased value for three. -/
theorem threeSlots_refuses : ∃ s : State Nat, (system Nat threeSlots).Reachable s ∧
    s.refuses threeSlots ∧ s.pushed.length < s.readOffset + threeSlots.capacity :=
  reach_refuses 0 (by decide)

end CoroUtil.SpscBounded
