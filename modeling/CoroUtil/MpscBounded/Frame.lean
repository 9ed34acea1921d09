import CoroUtil.MpscBounded.Relation

/-!
# Steps that keep the relation

What an update of one part of the queue does to `Rel`: a program counter, the
element of one slot, the role of the consumer, the stage of `close()`.  The
steps of the tasks and of the consumer are composed of these.
-/

namespace CoroUtil.MpscBounded

open CoroUtil.General

variable {V : Type} {cfg : Config} {s s' : State V} {a a' : Abs V}

/-- `s'` stands for `a`, or for what a move makes of `a`. -/
def Simulates (cfg : Config) (a : Abs V) (s' : State V) : Prop :=
  ∃ a', Rel cfg s' a' ∧ (a' = a ∨ Move cfg a a')

theorem Rel.simulates (h : Rel cfg s a) : Simulates cfg a s := ⟨a, h, .inl rfl⟩

theorem Move.simulates (hm : Move cfg a a') (h : Rel cfg s a') : Simulates cfg a s :=
  ⟨a', h, .inr hm⟩

/-- The same with the closed test of the code, which is that of the protocol where the
comparison that the step makes comes out right: `ok`. -/
def Tracks (cfg : Config) (a : Abs V) (ok : Prop) (s' : State V) : Prop :=
  ∃ a', Rel cfg s' a' ∧ (a' = a ∨ RawMove cfg a a' ∧ (Inv cfg a → ok → Move cfg a a'))

theorem Simulates.tracks (h : Simulates cfg a s') (ok : Prop) : Tracks cfg a ok s' := by
  obtain ⟨a', hr, ha⟩ := h
  exact ⟨a', hr, ha.imp_right fun hm => ⟨.move hm, fun _ _ => hm⟩⟩

theorem RawMove.tracks {ok : Prop} (hm : RawMove cfg a a') (h : Rel cfg s a')
    (hok : Inv cfg a → ok → Move cfg a a') : Tracks cfg a ok s :=
  ⟨a', h, .inr ⟨hm, hok⟩⟩

theorem Tracks.of {ok ok' : Prop} (h : Tracks cfg a ok s') (hok : ok' → ok) :
    Tracks cfg a ok' s' := by
  obtain ⟨a', hr, ha⟩ := h
  exact ⟨a', hr, ha.imp_right fun hm => ⟨hm.1, fun hi hb => hm.2 hi (hok hb)⟩⟩

/-- `circular_less_than` is the order of the two offsets. -/
def Config.ordered (cfg : Config) (a b : Nat) : Bool :=
  circularLessThan cfg.bits a b == decide (a < b)

theorem Config.lt_of_ordered {a b : Nat} (h : cfg.ordered a b = true)
    (hlt : circularLessThan cfg.bits a b = true) : a < b := by
  rw [Config.ordered, beq_iff_eq, hlt] at h
  exact of_decide_eq_true h.symm

theorem Config.le_of_ordered {a b : Nat} (h : cfg.ordered a b = true)
    (hle : circularLessThan cfg.bits a b = false) : b ≤ a := by
  rw [Config.ordered, beq_iff_eq, hle] at h
  exact Nat.not_lt.mp (of_decide_eq_false h.symm)

section Lookup

theorem Rel.elem_flags (h : Rel cfg s a) (idx : Nat) :
    (s.elem cfg idx).flags = (a.slot (cfg.slotOf idx)).flags := h.flags _

theorem Rel.role_eq (h : Rel cfg s a) {p : Tid} {pc : Pc V} (hpc : s.task p = pc) :
    a.role p = pc.role := by
  rw [h.role, hpc]

theorem Rel.knows_at (h : Rel cfg s a) {p : Tid} {pc : Pc V} (hpc : s.task p = pc) :
    pc.Knows cfg s.next a p := hpc ▸ h.knows p

theorem Slot.claimable_flags {x : Slot V} : x.flags.claimable = true ↔ ∃ b, x = .free b := by
  cases x <;> simp [Slot.flags, Flags.claimable]

theorem Slot.hasCloseSentinel_flags {x : Slot V} : x.flags.hasCloseSentinel = true ↔ x = .shut := by
  cases x with
  | free b => simp [Slot.flags, Flags.hasCloseSentinel]
  | shut => simp [Slot.flags, Flags.hasCloseSentinel]
  | _ => simp [Slot.flags]

theorem Slot.data_flags {x : Slot V} : x.flags.data = true ↔ ∃ i v l l', x = .full i v l l' := by
  cases x <;> simp [Slot.flags]

theorem Slot.chainPtr_flags {x : Slot V} : x.flags.chainPtr = x.input.head? := by
  cases x with
  | free b => rfl
  | shut => rfl
  | _ => simp [Slot.flags, Slot.input]

theorem Slot.held_flags {x : Slot V} (hc : x.flags.claimable = false)
    (hs : x.flags.hasCloseSentinel = false) : x.held = true := by
  cases x with
  | free b => simp [Slot.flags, Flags.claimable] at hc
  | shut => simp [Slot.flags, Flags.hasCloseSentinel] at hs
  | _ => rfl

theorem Slot.cons_flags {x : Slot V} : x.flags.cons = x.armed := by
  cases x <;> rfl

/-- Parking changes the chain of the flags word only. -/
theorem Slot.flags_park {x : Slot V} (h : x.held = true) (p : Tid) :
    (x.park p).flags = { x.flags with chain := .node p } := by
  cases x <;> simp_all [Slot.held, Slot.park, Slot.flags, ChainPtr.ofHead]

theorem Slot.input_park {x : Slot V} (h : x.held = true) {p : Tid} :
    (x.park p).input = p :: x.input := by
  cases x <;> simp_all [Slot.held, Slot.park, Slot.input]

theorem Slot.output_park {x : Slot V} {p : Tid} : (x.park p).output = x.output := by
  cases x <;> rfl

theorem Slot.value_park {x : Slot V} {p : Tid} : (x.park p).value = x.value := by
  rcases x with _ | ⟨⟨_, _, _ | _⟩ | _, _, _, _⟩ | _ | _ <;> rfl

theorem Slot.flags_arm {x : Slot V} (h : x.armable = true) :
    x.arm.flags = { x.flags with cons := true } := by
  cases x <;> simp_all [Slot.armable, Slot.arm, Slot.flags]

end Lookup

section Frame

/-- A step that leaves the consumer alone does not change what it has seen. -/
theorem ConsumerPc.Knows.frame {pc : ConsumerPc} (h : pc.Knows cfg s a)
    (hcrole : a'.crole = a.crole) (hreads : a'.reads = a.reads)
    (hready : a.stage.ready = true → a'.stage.ready = true)
    (hshut : ∀ k, a.slot k = .shut → a'.slot k = .shut)
    (hfull : ∀ k i v l l', a.slot k = .full i v l l' →
      ∃ m, a'.slot k = .full i v m l' ∧ (l ≠ [] → m ≠ []))
    (hhand : ∀ k l l', a.slot k = .busy .handoff false l l' →
      ∃ m, a'.slot k = .busy .handoff false m l' ∧ ∀ p ∈ l', s'.next p = s.next p)
    (hidx : ∀ k, (s'.elements k).waitingConsumerIdx = (s.elements k).waitingConsumerIdx)
    (hout : ∀ k, (s'.elements k).outputProducers = (s.elements k).outputProducers) :
    pc.Knows cfg s' a' := by
  cases pc with
  | idle | poll k | storeIdx | loadFlags idx | resumed idx n | holding idx | drainLoad idx
  | suspended idx n =>
    simpa only [ConsumerPc.Knows, hcrole, hreads] using h
  | armCas idx f => simpa only [ConsumerPc.Knows, hcrole, hreads] using h
  | loadClosed k idx f | spinReady k idx f =>
    obtain ⟨hc, hk, hr, hs⟩ := h
    exact ⟨hcrole.trans hc, hk, hr.trans hreads.symm, fun hf => hshut _ (hs hf)⟩
  | loadClosedAt k idx f =>
    obtain ⟨hc, hk, hr, hs, hst⟩ := h
    exact ⟨hcrole.trans hc, hk, hr.trans hreads.symm, fun hf => hshut _ (hs hf), hready hst⟩
  | storeSelf idx =>
    obtain ⟨hc, hr, hs⟩ := h
    exact ⟨hcrole.trans hc, hr.trans hreads.symm, (hidx _).trans hs⟩
  | withdrawData idx =>
    obtain ⟨hc, hr, i, v, l, l', hs⟩ := h
    obtain ⟨m, hm, -⟩ := hfull _ i v l l' hs
    exact ⟨hcrole.trans hc, hr.trans hreads.symm, i, v, m, l', hm⟩
  | withdrawSentinel idx | sentinelReady idx =>
    obtain ⟨hc, hr, hs⟩ := h
    exact ⟨hcrole.trans hc, hr.trans hreads.symm, hshut _ hs⟩
  | sentinelClosedAt idx =>
    obtain ⟨hc, hr, hs, hst⟩ := h
    exact ⟨hcrole.trans hc, hr.trans hreads.symm, hshut _ hs, hready hst⟩
  | handoffCas idx f =>
    obtain ⟨hr, hc, hd, hp, i, v, l, p, l', hs⟩ := h
    obtain ⟨m, hm, -⟩ := hfull _ i v l _ hs
    exact ⟨hr.trans hreads.symm, hcrole.trans hc, hd, hp, i, v, m, p, l', hm⟩
  | drainCas idx =>
    obtain ⟨hr, hc, i, v, l, hs⟩ := h
    obtain ⟨m, hm, -⟩ := hfull _ i v l _ hs
    exact ⟨hr.trans hreads.symm, hcrole.trans hc, i, v, m, hm⟩
  | drainExchange idx =>
    obtain ⟨hr, hc, i, v, l, hs, hl⟩ := h
    obtain ⟨m, hm, hne⟩ := hfull _ i v l _ hs
    exact ⟨hr.trans hreads.symm, hcrole.trans hc, i, v, m, hm, hne hl⟩
  | reverse idx prev curr =>
    obtain ⟨hr, hc, l, done, left, hs, hprev, hcurr⟩ := h
    obtain ⟨m, hm, hn⟩ := hhand _ l _ hs
    refine ⟨hr.trans hreads.symm, hcrole.trans hc, m, done, left, hm, hprev.congr ?_,
      hcurr.congr ?_⟩
    · exact fun p hp => hn p (List.mem_append_right _ hp)
    · exact fun p hp => hn p (List.mem_append_left _ (List.mem_reverse.mpr hp))
  | resumeProducer idx p =>
    obtain ⟨hr, hc, l, l', hs, ho⟩ := h
    obtain ⟨m, hm, hn⟩ := hhand _ l _ hs
    refine ⟨hr.trans hreads.symm, hcrole.trans hc, m, l', hm, ?_⟩
    rw [show (s'.elem cfg idx).outputProducers = _ from hout _]
    exact ho.congr fun q hq => hn q (List.mem_cons_of_mem p hq)

/-- A step of somebody else does not change what a task has seen. -/
theorem Pc.Knows.frame {pc : Pc V} {p : Tid} {next next' : Tid → Option Tid}
    (h : pc.Knows cfg next a p)
    (hwoken : ∀ t, a.crole = .woken (some p) t → a'.crole = a.crole ∧ a'.reads = a.reads)
    (hready : a.stage.ready = true → a'.stage.ready = true) (hnext : next' p = next p) :
    pc.Knows cfg next' a' p := by
  cases pc with
  | loadClosedAt v i => exact hready h
  | parkCas v i f => exact ⟨h.1, h.2.1, hnext.trans h.2.2⟩
  | takeConsumer v i =>
    obtain ⟨hc, hr⟩ := hwoken _ h.1
    exact ⟨hc.trans h.1, by rw [hr]; exact h.2⟩
  | resumeConsumer v i => exact (hwoken _ h).1.trans h
  | _ => exact h

theorem State.setTask_self (s : State V) (p : Tid) (pc : Pc V) : (s.setTask p pc).task p = pc :=
  Function.update_self ..

theorem State.setTask_of_ne (s : State V) {p q : Tid} (hq : q ≠ p) (pc : Pc V) :
    (s.setTask p pc).task q = s.task q := Function.update_of_ne hq ..

theorem State.returnClose_self {p : Tid} : (s.returnClose p).task p = .idle :=
  Function.update_self ..

theorem State.returnClose_of_ne {p q : Tid} (hq : q ≠ p) : (s.returnClose p).task q = s.task q :=
  Function.update_of_ne hq ..

theorem State.returnPush_of_ne {p q : Tid} (hq : q ≠ p) {v : V} {i : Nat} {ok : Bool} :
    (s.returnPush p v i ok).task q = s.task q := Function.update_of_ne hq ..

theorem State.returnPush_self {p : Tid} {v : V} {i : Nat} {ok : Bool} :
    (s.returnPush p v i ok).task p = .idle := Function.update_self ..

/-- A task goes on. -/
theorem Rel.goto (h : Rel cfg s a) (p : Tid) (pc : Pc V) (hstage : pc.stage p = (s.task p).stage p)
    (hknows : pc.Knows cfg s.next a p) : Rel cfg (s.setTask p pc) (a.setRole p pc.role) :=
  have hsame : ∀ q, ((s.setTask p pc).task q).stage q = (s.task q).stage q := by
    intro q
    by_cases hq : q = p
    · rw [hq, s.setTask_self, hstage]
    · rw [s.setTask_of_ne hq]
  { h with
    role := by
      intro q
      by_cases hq : q = p
      · rw [hq, s.setTask_self]
        exact Function.update_self ..
      · rw [s.setTask_of_ne hq, ← h.role q]
        exact Function.update_of_ne hq ..
    stage := fun q st hst => h.stage q st (hsame q ▸ hst)
    stage_won := fun q hst => (hsame q).trans (h.stage_won q hst)
    stage_cut := fun q c ph hst => (hsame q).trans (h.stage_cut q c ph hst)
    knows := by
      intro q
      by_cases hq : q = p
      · rw [hq, s.setTask_self]
        exact hknows.frame (fun _ _ => ⟨rfl, rfl⟩) id rfl
      · rw [s.setTask_of_ne hq]
        exact (h.knows q).frame (fun _ _ => ⟨rfl, rfl⟩) id rfl
    consumer := h.consumer }

/-- A task goes on in the same role. -/
theorem Rel.stay (h : Rel cfg s a) (p : Tid) (pc : Pc V) (hrole : pc.role = (s.task p).role)
    (hstage : pc.stage p = (s.task p).stage p) (hknows : pc.Knows cfg s.next a p) :
    Rel cfg (s.setTask p pc) a := by
  have := h.goto p pc hstage hknows
  rwa [Abs.setRole, hrole, ← h.role p, Function.update_eq_self] at this

end Frame

section Slots

/-- The element of one slot changes; who waits for it does not. -/
theorem Rel.setElem (h : Rel cfg s a) {idx : Nat} {e : Element V} {x : Slot V}
    (hflags : e.flags = x.flags) (hin : Linked s.next x.input.head? x.input)
    (hout : (a.crole = .handing → cfg.slotOf idx ≠ cfg.slotOf (a.reads - 1)) →
      Linked s.next e.outputProducers x.output)
    (hdata : e.data =
      if a.crole = .draining ∧ cfg.slotOf idx = cfg.slotOf a.front then none else x.value)
    (hwait : e.waitingConsumer = (s.elem cfg idx).waitingConsumer)
    (hidx : e.waitingConsumerIdx = (s.elem cfg idx).waitingConsumerIdx)
    (hknows : s.consumer.Knows cfg (s.setElem cfg idx e) (a.setSlot (cfg.slotOf idx) x)) :
    Rel cfg (s.setElem cfg idx e) (a.setSlot (cfg.slotOf idx) x) :=
  have hwait' : ∀ k, ((s.setElem cfg idx e).elements k).waitingConsumer =
      (s.elements k).waitingConsumer := by
    intro k
    simp only [State.setElem, Function.update_apply]
    split
    · next hk => rw [hwait, hk, State.elem]
    · rfl
  have hidx' : ∀ k, ((s.setElem cfg idx e).elements k).waitingConsumerIdx =
      (s.elements k).waitingConsumerIdx := by
    intro k
    simp only [State.setElem, Function.update_apply]
    split
    · next hk => rw [hidx, hk, State.elem]
    · rfl
  { h with
    flags := by
      intro k
      simp only [State.setElem, Function.update_apply]
      split
      · exact hflags
      · exact h.flags k
    input := by
      intro k
      simp only [State.setElem, Function.update_apply]
      split
      · exact hin
      · exact h.input k
    output := by
      intro k hk
      simp only [State.setElem, Function.update_apply]
      split
      · next hki => exact hout (fun hc => hki ▸ hk hc)
      · exact h.output k hk
    data := by
      intro k
      simp only [State.setElem, Function.update_apply]
      split
      · next hki =>
        rw [hki]
        exact hdata
      · exact h.data k
    waiting := by
      intro k
      rw [hwait']
      exact h.waiting k
    waitIdx_le := by
      intro k
      rw [hidx']
      exact h.waitIdx_le k
    waitIdx := by
      intro hst
      rw [State.elem, hidx']
      exact h.waitIdx hst
    knows := fun p => (h.knows p).frame (fun _ _ => ⟨rfl, rfl⟩) id rfl
    consumer := hknows }

/-- A slot changes for the tasks only: the consumer may rely on it as before. -/
def Slot.Keeps (x y : Slot V) : Prop :=
  (x = .shut → y = .shut) ∧
  (∀ i v l l', x = .full i v l l' → ∃ m, y = .full i v m l' ∧ (l ≠ [] → m ≠ [])) ∧
  ∀ l l', x = .busy .handoff false l l' → ∃ m, y = .busy .handoff false m l'

theorem Slot.keeps_park {x : Slot V} {p : Tid} : x.Keeps (x.park p) := by
  cases x <;> simp +contextual [Slot.Keeps, Slot.park]

theorem Slot.keeps_of_owner {x y : Slot V} {q : Tid} {i : Nat} {w : Option V} {b : Bool}
    {l l' : List Tid} (h : x = .busy (.task q i w) b l l') : x.Keeps y := by
  simp [Slot.Keeps, h]

theorem Slot.keeps_of_free {x y : Slot V} {b : Bool} (h : x = .free b) : x.Keeps y := by
  simp [Slot.Keeps, h]

/-- What the consumer has seen survives a change of one element for the tasks. -/
theorem Rel.knows_setSlot (h : Rel cfg s a) {idx : Nat} {e : Element V} {x : Slot V}
    (hkeeps : (a.slot (cfg.slotOf idx)).Keeps x)
    (hidx : e.waitingConsumerIdx = (s.elem cfg idx).waitingConsumerIdx)
    (hout : e.outputProducers = (s.elem cfg idx).outputProducers) :
    s.consumer.Knows cfg (s.setElem cfg idx e) (a.setSlot (cfg.slotOf idx) x) := by
  obtain ⟨hshut, hfull, hhand⟩ := hkeeps
  refine h.consumer.frame rfl rfl id ?_ ?_ ?_ ?_ ?_
  · intro k hk
    simp only [Function.update_apply]
    split
    · next hki => exact hshut (hki ▸ hk)
    · exact hk
  · intro k i v l l' hk
    simp only [Function.update_apply]
    split
    · next hki => exact hfull i v l l' (hki ▸ hk)
    · exact ⟨l, hk, id⟩
  · intro k l l' hk
    simp only [Function.update_apply]
    split
    · next hki =>
      obtain ⟨m, hm⟩ := hhand l l' (hki ▸ hk)
      exact ⟨m, hm, fun _ _ => rfl⟩
    · exact ⟨l, hk, fun _ _ => rfl⟩
  · intro k
    simp only [State.setElem, Function.update_apply]
    split
    · next hki => rw [hidx, hki, State.elem]
    · rfl
  · intro k
    simp only [State.setElem, Function.update_apply]
    split
    · next hki => rw [hout, hki, State.elem]
    · rfl

/-- The flags of one slot change. -/
theorem Rel.setFlags (h : Rel cfg s a) {idx : Nat} {f : Flags} {x : Slot V} (hflags : f = x.flags)
    (hin : Linked s.next x.input.head? x.input)
    (hout : x.output = (a.slot (cfg.slotOf idx)).output)
    (hvalue : x.value = (a.slot (cfg.slotOf idx)).value)
    (hkeeps : (a.slot (cfg.slotOf idx)).Keeps x) :
    Rel cfg (s.setFlags cfg idx f) (a.setSlot (cfg.slotOf idx) x) := by
  refine h.setElem hflags hin ?_ ?_ rfl rfl (h.knows_setSlot hkeeps rfl rfl)
  · intro hc
    rw [hout]
    exact h.output _ hc
  · rw [hvalue]
    exact h.data _

/-- A push returns. -/
theorem Rel.returnPush (h : Rel cfg s a) {p : Tid} (hstage : (s.task p).stage p = none) (v : V)
    (i : Nat) (ok : Bool) : Rel cfg (s.returnPush p v i ok) (a.returnPush p v i ok) :=
  { h.goto p .idle hstage.symm trivial with
    pushes := by simp only [State.returnPush, h.pushes] }

/-- `close()` returns to a task that is not closing. -/
theorem Rel.returnClose (h : Rel cfg s a) {p : Tid} (hrole : (s.task p).role = .out)
    (hstage : (s.task p).stage p = none) (hclosed : a.stage.closed = true) :
    Rel cfg (s.returnClose p) a :=
  { h.stay p .idle hrole.symm hstage.symm trivial with closes := fun _ => hclosed }

theorem Pc.stage_owner {pc : Pc V} {p : Tid} {st : Stage} (h : pc.stage p = some st) :
    st = .won p ∨ ∃ c ph, st = .cut p c ph := by
  cases pc <;> simp_all [Pc.stage] <;> simp [← h]

/-- Only one task is closing. -/
theorem Rel.stage_unique (h : Rel cfg s a) {p q : Tid} {st : Stage}
    (hp : (s.task p).stage p = some st) (hq : q ≠ p) : (s.task q).stage q = none := by
  cases hst : (s.task q).stage q with
  | none => rfl
  | some st' =>
    obtain rfl : st = st' := (h.stage p st hp).symm.trans (h.stage q st' hst)
    rcases Pc.stage_owner hp with rfl | ⟨c, ph, rfl⟩ <;>
      rcases Pc.stage_owner hst with hs | ⟨c', ph', hs⟩ <;> cases hs <;> exact absurd rfl hq

/-- The closer changes the stage, and goes on or returns. -/
theorem Rel.setStage (h : Rel cfg s a) (p : Tid) (pc : Pc V) (st : Stage) (cl rd : Bool)
    (ca : Nat) (hrole : pc.role = (s.task p).role)
      (hknows : pc.Knows cfg s.next { a with stage := st } p)
    (hold : ∀ q, q ≠ p → (s.task q).stage q = none) (hmono : a.stage.ready = true → st.ready = true)
    (hstage : pc.stage p = some st ∨ pc.stage p = none ∧ ∃ c, st = .done c)
    (hclosed : cl = st.closed) (hready : rd = st.ready)
    (hat : ∀ c, st.cutoff = some c → (∀ q, st ≠ .cut q c .storeAt) → ca = c)
    (hcloses : st.closed = true) :
    Rel cfg ({ s with closed := cl, closedReady := rd, writeClosedAt := ca }.setTask p pc)
      { a with stage := st } :=
  have hself :
      ({ s with closed := cl, closedReady := rd, writeClosedAt := ca }.setTask p pc).task p = pc :=
    State.setTask_self _ p pc
  have hmine : ∀ q, q ≠ p →
      ({ s with closed := cl, closedReady := rd, writeClosedAt := ca }.setTask p pc).task q =
        s.task q := fun q hq => State.setTask_of_ne _ hq pc
  have howner : ∀ q, (st = .won q ∨ ∃ c ph, st = .cut q c ph) →
      (({ s with closed := cl, closedReady := rd, writeClosedAt := ca }.setTask p pc).task
        q).stage q = some st := by
    intro q hq
    rcases hstage with hp | ⟨-, c, rfl⟩
    · have hqp : q = p := by
        rcases Pc.stage_owner hp with rfl | ⟨c, ph, rfl⟩ <;>
          rcases hq with hq | ⟨c', ph', hq⟩ <;> cases hq <;> rfl
      rw [hqp, hself, hp]
    · rcases hq with hq | ⟨c', ph', hq⟩ <;> cases hq
  { h with
    role := by
      intro q
      by_cases hq : q = p
      · rw [hq, hself, hrole]
        exact h.role p
      · rw [hmine q hq]
        exact h.role q
    stage := by
      intro q st' hst
      by_cases hq : q = p
      · rw [hq, hself] at hst
        rcases hstage with hp | ⟨hp, -⟩
        · exact Option.some.inj (hp.symm.trans hst)
        · rw [hp] at hst
          cases hst
      · rw [hmine q hq, hold q hq] at hst
        cases hst
    stage_won := by
      intro q hst
      have hst : st = .won q := hst
      rw [howner q (.inl hst), hst]
    stage_cut := by
      intro q c ph hst
      have hst : st = .cut q c ph := hst
      rw [howner q (.inr ⟨c, ph, hst⟩), hst]
    knows := by
      intro q
      by_cases hq : q = p
      · rw [hq, hself]
        exact hknows
      · rw [hmine q hq]
        exact (h.knows q).frame (fun _ _ => ⟨rfl, rfl⟩) hmono rfl
    consumer := h.consumer.frame rfl rfl hmono (fun _ hs => hs)
      (fun _ _ _ l _ hs => ⟨l, hs, id⟩) (fun _ l _ hs => ⟨l, hs, fun _ _ => rfl⟩) (fun _ => rfl)
      (fun _ => rfl)
    closed := hclosed
    closedReady := hready
    closedAt := hat
    closes := fun _ => hcloses }

end Slots

section Consumer

/-- The consumer is neither between the release of a value and the next call nor
waking a producer. -/
def ConsumerRole.calm : ConsumerRole → Bool
  | draining | handing => false
  | away | arming _ | armed | woken .. | resumed _ | holding => true

/-- The consumer takes on a new role, and the element it is at says whether it
can be taken from there. -/
theorem Rel.setStored (h : Rel cfg s a) (r : ConsumerRole) (pc : ConsumerPc) (t : Tid → Pc V)
    (hold : a.crole.calm = true) (hnew : r.calm = true)
    (hidx : r.stored = true → (s.elem cfg a.reads).waitingConsumerIdx = a.reads)
    (ht : ∀ q, (t q).role = (s.task q).role ∧ (t q).stage q = (s.task q).stage q ∧
      (t q).Knows cfg s.next { a with crole := r } q)
    (hknows : pc.Knows cfg s { a with crole := r }) :
    Rel cfg ({ s with task := t, consumer := pc }.setElem cfg a.reads
      { s.elem cfg a.reads with waitingConsumer := r.stored }) { a with crole := r } := by
  have hsame : ∀ k, ∃ b, (({ s with task := t, consumer := pc } : State V).setElem cfg a.reads
      { s.elem cfg a.reads with waitingConsumer := r.stored }).elements k =
        { s.elements k with waitingConsumer := b } ∧
        (b = true ↔ r.stored = true ∧ k = cfg.slotOf a.reads) := by
    intro k
    by_cases hk : k = cfg.slotOf a.reads
    · refine ⟨r.stored, ?_, by simp [hk]⟩
      simp [State.setElem, State.elem, hk]
    · refine ⟨(s.elements k).waitingConsumer, ?_, ?_⟩
      · simp [State.setElem, Function.update_of_ne hk]
      · simp [hk, h.waiting]
  have hrest : ∀ k, (({ s with task := t, consumer := pc } : State V).setElem cfg a.reads
      { s.elem cfg a.reads with waitingConsumer := r.stored }).elements k =
        { s.elements k with waitingConsumer := (({ s with task := t, consumer := pc } :
          State V).setElem cfg a.reads { s.elem cfg a.reads with
            waitingConsumer := r.stored }).elements k |>.waitingConsumer } := by
    intro k
    obtain ⟨b, hb, -⟩ := hsame k
    rw [hb]
  have hdrain : ¬(a.crole = .draining) ∧ ¬(r = .draining) ∧ a.crole ≠ .handing ∧ r ≠ .handing := by
    refine ⟨?_, ?_, ?_, ?_⟩ <;> rintro hc <;> simp [hc, ConsumerRole.calm] at hold hnew
  obtain ⟨hd, hd', hh, hh'⟩ := hdrain
  refine
  { h with
    flags := ?_
    input := h.input
    output := ?_
    data := ?_
    waiting := ?_
    waitIdx_le := ?_
    waitIdx := ?_
    role := fun q => (h.role q).trans (ht q).1.symm
    stage := fun q st hst => h.stage q st ((ht q).2.1 ▸ hst)
    stage_won := fun q hst => (ht q).2.1.trans (h.stage_won q hst)
    stage_cut := fun q c ph hst => (ht q).2.1.trans (h.stage_cut q c ph hst)
    knows := fun q => (ht q).2.2
    consumer := ?_ }
  · intro k
    rw [hrest]
    exact h.flags k
  · intro k _
    rw [hrest]
    exact h.output k (fun hc => absurd hc hh)
  · intro k
    have := h.data k
    rw [if_neg (fun hc => hd hc.1)] at this
    rw [hrest, if_neg (fun hc => hd' hc.1)]
    exact this
  · intro k
    obtain ⟨b, hb, hiff⟩ := hsame k
    rw [hb]
    exact hiff
  · intro k
    rw [hrest]
    exact h.waitIdx_le k
  · intro hst
    rw [State.elem, hrest]
    exact hidx hst
  · refine hknows.frame rfl rfl id (fun _ hs => hs) (fun _ _ _ l _ hs => ⟨l, hs, id⟩)
      (fun _ l _ hs => ⟨l, hs, fun _ _ => rfl⟩) ?_ ?_ <;>
    · intro k
      rw [hrest]

/-- The consumer takes on a new role, and can be taken as before. -/
theorem Rel.setCrole (h : Rel cfg s a) (r : ConsumerRole) (pc : ConsumerPc)
    (hold : a.crole.calm = true) (hnew : r.calm = true) (hstored : r.stored = a.crole.stored)
    (ht : ∀ q, (s.task q).Knows cfg s.next { a with crole := r } q)
    (hknows : pc.Knows cfg s { a with crole := r }) :
    Rel cfg (s.setConsumer pc) { a with crole := r } := by
  have hwait : (s.elem cfg a.reads).waitingConsumer = r.stored := by
    rw [hstored, Bool.eq_iff_iff, State.elem, h.waiting]
    simp
  have := h.setStored r pc s.task hold hnew (fun hst => h.waitIdx (hstored ▸ hst))
    (fun q => ⟨rfl, rfl, ht q⟩) hknows
  rw [← hwait] at this
  simpa only [State.setConsumer, State.setElem, State.elem, Function.update_eq_self] using this

/-- While the consumer is being woken it is suspended. -/
theorem Rel.suspended_of_woken (h : Rel cfg s a) {o : Option Tid} {t : Bool}
    (hc : a.crole = .woken o t) :
    s.consumer = .suspended a.reads (if o.isSome then false else t) := by
  have hk := h.consumer
  cases hpc : s.consumer with
  | suspended idx n =>
    rw [hpc] at hk
    obtain ⟨hidx, ⟨hr, -⟩ | ⟨⟨p, t', hr⟩, hn⟩ | hr⟩ := hk
    · rw [hc] at hr
      cases hr
    · rw [hc] at hr
      cases hr
      rw [hidx, hn]
      rfl
    · rw [hc] at hr
      cases hr
      rw [hidx]
      rfl
  | _ =>
    rw [hpc] at hk
    simp only [ConsumerPc.Knows, hc] at hk
    simp at hk

theorem Rel.suspended_of_armed (h : Rel cfg s a) (hc : a.crole = .armed) :
    s.consumer = .suspended a.reads false := by
  have hk := h.consumer
  cases hpc : s.consumer with
  | suspended idx n =>
    rw [hpc] at hk
    obtain ⟨hidx, ⟨-, hn⟩ | ⟨⟨p, t', hr⟩, -⟩ | hr⟩ := hk
    · rw [hidx, hn]
    · rw [hc] at hr
      cases hr
    · rw [hc] at hr
      cases hr
  | _ =>
    rw [hpc] at hk
    simp only [ConsumerPc.Knows, hc] at hk
    simp at hk

/-- Somebody changes the role of the suspended consumer. -/
theorem Rel.setWoken (h : Rel cfg s a) (r : ConsumerRole) {n : Bool}
    (hc : s.consumer = .suspended a.reads n) (hold : a.crole.calm = true) (hnew : r.calm = true)
    (hstored : r.stored = a.crole.stored)
    (ht : ∀ q, (s.task q).Knows cfg s.next { a with crole := r } q)
    (hknows : (ConsumerPc.suspended a.reads n).Knows cfg s { a with crole := r }) :
    Rel cfg s { a with crole := r } := by
  have := h.setCrole r (.suspended a.reads n) hold hnew hstored ht hknows
  rwa [State.setConsumer, ← hc] at this

end Consumer

end CoroUtil.MpscBounded
