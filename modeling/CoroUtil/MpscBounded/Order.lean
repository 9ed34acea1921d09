import CoroUtil.MpscBounded.Delivery

/-!
# The order of one task's values

A producer that stalls between taking its ticket and claiming its slot can be
overtaken on that slot by a later ticket, also by one of a task that has already
pushed into another slot: then the consumer is handed the two values of that
task in the wrong order, as in `stalledPush_out_of_order`.  `Overtakes` is the
step that does it, and `in_task_order` says that it is the only one: where no
step overtakes, every task's values come out in the order of its pushes.
-/

namespace CoroUtil.MpscBounded

open CoroUtil.General

variable {V : Type} {cfg : Config} {s s' : State V} {a a' : Abs V}

section Takes

/-- The step gives task `p` the slot of its ticket `i`: by its own
compare-exchange, or because the consumer wakes it. -/
def Takes (cfg : Config) (s : State V) (p : Tid) (i : Nat) : Act V → Prop
  | .task q spurious =>
    q = p ∧ spurious = false ∧ ∃ v, s.task p = .claimCas v i (s.elem cfg i).flags
  | .consumer _ => ∃ idx v, s.consumer = .resumeProducer idx p ∧ s.task p = .suspended v i
  | .push .. | .close _ | .pull _ | .release => False

/-- From where the consumer is, it comes to slot `k` before it comes to slot `j`. -/
def ReachedFirst (cfg : Config) (s : State V) (k j : Nat) : Prop :=
  ∃ n ≥ s.readOffset, cfg.slotOf n = k ∧ ∀ m, s.readOffset ≤ m → m ≤ n → cfg.slotOf m ≠ j

/-- The step gives a task a slot that the consumer reaches before the slot in
which an earlier value of the same task is still waiting. -/
def Overtakes (cfg : Config) (s : State V) (act : Act V) : Prop :=
  ∃ p i x, Takes cfg s p i act ∧ x ∈ s.pushes ∧ x.task = p ∧ x.ok = true ∧
    (s.elem cfg x.ticket).data = some (x.ticket, x.value) ∧
    ReachedFirst cfg s (cfg.slotOf i) (cfg.slotOf x.ticket)

variable {p q : Tid} {v : V} {i : Nat} {f : Flags}

theorem State.placed_setTask {pc : Pc V} (h : pc.role.placed = none) :
    ((s.setTask p pc).task p).role.placed = none := by
  rw [s.setTask_self, h]

theorem State.placed_afterClaimLoad :
    ((s.afterClaimLoad p v i f).task p).role.placed = none := by
  rw [State.afterClaimLoad]
  split_ifs <;> exact State.placed_setTask rfl

theorem State.placed_afterParkLoad :
    ((s.afterParkLoad p v i f).task p).role.placed = none := by
  rw [State.afterParkLoad]
  split_ifs <;> exact State.placed_setTask rfl

/-- A producer is given its slot by its own step only if it wins the compare-exchange. -/
theorem State.takes_of_taskStep {spurious : Bool} (h : s.taskStep cfg p spurious = some s')
    (hw : (s.task p).role.waiting = some i) (hp : (s'.task p).role.placed = some i) :
    spurious = false ∧ ∃ v, s.task p = .claimCas v i (s.elem cfg i).flags := by
  have habsurd : (s'.task p).role.placed ≠ none := by simp [hp]
  cases hpc : s.task p with
  | claimCas v j f =>
    obtain rfl : j = i := by simpa [hpc, Pc.role, Role.waiting] using hw
    simp only [State.taskStep, hpc] at h
    split at h <;> cases h
    · next hf => exact ⟨hf.1, v, by rw [hf.2]⟩
    · exact absurd State.placed_afterClaimLoad habsurd
  | loadClosed v j =>
    simp only [State.taskStep, hpc, Option.some.injEq] at h
    exact absurd (h ▸ State.placed_setTask (by split_ifs <;> rfl)) habsurd
  | spinReady v j =>
    simp only [State.taskStep, hpc, Option.some.injEq] at h
    exact absurd (h ▸ State.placed_setTask (by split_ifs <;> rfl)) habsurd
  | loadClosedAt v j =>
    simp only [State.taskStep, hpc] at h
    split at h <;> cases h <;> exact absurd (State.placed_setTask rfl) habsurd
  | claimLoad v j =>
    simp only [State.taskStep, hpc, Option.some.injEq] at h
    exact absurd (h ▸ State.placed_afterClaimLoad) habsurd
  | parkLoad v j =>
    simp only [State.taskStep, hpc, Option.some.injEq] at h
    exact absurd (h ▸ State.placed_afterParkLoad) habsurd
  | parkCas v j f =>
    simp only [State.taskStep, hpc] at h
    split at h <;> cases h
    · exact absurd (State.placed_setTask rfl) habsurd
    · exact absurd State.placed_afterParkLoad habsurd
  | suspended v j => simp [State.taskStep, hpc] at h
  | _ => simp [hpc, Pc.role, Role.waiting] at hw

theorem State.task_resumeConsumer : s.resumeConsumer.task = s.task := by
  rw [State.resumeConsumer]
  split <;> rfl

theorem State.task_afterClaimLoad (hq : q ≠ p) : (s.afterClaimLoad p v i f).task q = s.task q := by
  rw [State.afterClaimLoad]
  split_ifs <;> exact Function.update_of_ne hq ..

theorem State.task_afterParkLoad (hq : q ≠ p) : (s.afterParkLoad p v i f).task q = s.task q := by
  rw [State.afterParkLoad]
  split_ifs <;> exact Function.update_of_ne hq ..

theorem State.task_afterCloseLoad (hq : q ≠ p) : (s.afterCloseLoad p i f).task q = s.task q := by
  rw [State.afterCloseLoad]
  split_ifs <;> exact Function.update_of_ne hq ..

/-- A step of a task leaves the other tasks where they are. -/
theorem State.taskStep_other {spurious : Bool} (h : s.taskStep cfg p spurious = some s')
    (hq : q ≠ p) : s'.task q = s.task q := by
  simp only [State.taskStep] at h
  split at h
  case h_1 | h_10 => cases h
  all_goals
    try split at h
    all_goals try split at h
    all_goals
      cases h
      simp only [State.setTask, State.returnPush, State.returnClose, State.check,
        State.setConsumer, State.setFlags, State.setElem, State.task_afterClaimLoad hq,
        State.task_afterParkLoad hq, State.task_afterCloseLoad hq, State.task_resumeConsumer,
        Function.update_of_ne hq]

theorem State.task_handOut {idx : Nat} : (s.handOut cfg idx).task = s.task := by
  rw [State.handOut]
  split <;> rfl

theorem State.task_afterPoll {k : Call} : (s.afterPoll k).task = s.task := by
  cases k <;> rfl

theorem State.task_afterLoadFlags {idx : Nat} : (s.afterLoadFlags idx f).task = s.task := by
  rw [State.afterLoadFlags]
  split_ifs <;> rfl

theorem State.task_afterDrainLoad {idx : Nat} : (s.afterDrainLoad cfg idx f).task = s.task := by
  rw [State.afterDrainLoad]
  split_ifs <;> rfl

theorem State.task_afterReverse {idx : Nat} {o : Option Tid} :
    (s.afterReverse cfg idx o).task = s.task := by
  cases o <;> rfl

/-- The consumer moves no task but a producer that it wakes. -/
theorem State.consumerStep_task {spurious : Bool} (h : s.consumerStep cfg spurious = some s') :
    s'.task = s.task ∨
      ∃ idx p, s.consumer = .resumeProducer idx p ∧ s'.task = (s.resumeProducer p).task := by
  simp only [State.consumerStep] at h
  split at h
  case h_1 | h_14 | h_16 => cases h
  case h_22 idx p hpc =>
    cases h
    exact .inr ⟨idx, p, hpc, rfl⟩
  all_goals
    refine .inl ?_
    try split at h
    all_goals try split at h
    all_goals
      cases h
      simp only [State.setConsumer, State.returnPull, State.check, State.setFlags, State.setElem,
        State.task_handOut, State.task_afterPoll, State.task_afterLoadFlags,
        State.task_afterDrainLoad, State.task_afterReverse]

/-- A task is given a slot by a step that gives it one. -/
theorem takes_of_placed {act : Act V} (h : step cfg s act = some s')
    (hw : (s.task p).role.waiting = some i) (hp : (s'.task p).role.placed = some i) :
    Takes cfg s p i act := by
  have hsame : s'.task p ≠ s.task p := by
    intro hs
    rw [hs] at hp
    cases hr : (s.task p).role <;> simp [hr, Role.waiting, Role.placed] at hw hp
  cases act with
  | task q spurious =>
    by_cases hq : p = q
    · subst hq
      exact ⟨rfl, State.takes_of_taskStep h hw hp⟩
    · exact absurd (State.taskStep_other h hq) hsame
  | consumer spurious =>
    rcases State.consumerStep_task h with hs | ⟨idx, q, hpc, hs⟩
    · exact absurd (congrFun hs p) hsame
    · rw [hs, State.resumeProducer] at hp hsame
      split at hp
      · next v j hq =>
        rw [hq] at hsame
        by_cases hpq : p = q
        · subst hpq
          obtain rfl : j = i := by simpa [hq, Pc.role, Role.waiting] using hw
          exact ⟨idx, v, hpc, hq⟩
        · exact absurd (State.setTask_of_ne s hpq _) hsame
      · next hq =>
        refine absurd ?_ hsame
        split
        · next v j hq' => exact absurd hq' (hq v j)
        · rfl
  | push q v =>
    simp only [step] at h
    split at h <;> cases h
    by_cases hq : p = q
    · subst hq
      next hidle => simp [hidle, Pc.role, Role.waiting] at hw
    · exact absurd (State.setTask_of_ne s hq _) hsame
  | close q =>
    simp only [step] at h
    split at h <;> cases h
    by_cases hq : p = q
    · subst hq
      next hidle => simp [hidle, Pc.role, Role.waiting] at hw
    · exact absurd (State.setTask_of_ne s hq _) hsame
  | pull k =>
    simp only [step] at h
    split at h
    · split at h <;> cases h
      exact absurd rfl hsame
    · cases h
  | release =>
    simp only [step, State.release] at h
    split at h <;> cases h
    exact absurd rfl hsame

end Takes

section Order

theorem Role.placed_of_waiting {r : Role V} {i : Nat} (h : r.waiting = some i) :
    r.placed = none := by
  cases r <;> simp_all [waiting, placed]

/-- The values that one task pushed are handed out in the order of its pushes. -/
def InTaskOrder (s : State V) : Prop :=
  ∀ l₁ l₂ l₃ x y, s.pushes = l₁ ++ x :: l₂ ++ y :: l₃ → x.task = y.task → x.ok = true →
    y.ok = true → ∀ m m', s.pulls = m ++ .ok y.ticket y.value :: m' →
      .ok x.ticket x.value ∈ m

/-- A value that is not handed out lies in its slot, and the consumer comes to
it the next time it comes to that slot. -/
theorem Reached.place_le (h : Reached cfg s a) {x : Push V} (hx : x ∈ a.pushes)
    (hok : x.ok = true) (hnot : x.ticket ∉ MpscBounded.handed a.pulls) :
    (s.elem cfg x.ticket).data = some (x.ticket, x.value) ∧
      ∀ m ≥ a.reads, cfg.slotOf m = cfg.slotOf x.ticket → a.place x.ticket ≤ m := by
  have hmem := h.values.accepted_mem x hx hok
  have hclaimed := h.values.claimed _ hmem
  have hpending := (h.handed.handed_or_pending _ _ hclaimed).resolve_left hnot
  have hslot : cfg.slotOf (a.place x.ticket) = cfg.slotOf x.ticket := h.places.slot _ _ hclaimed
  have hvisits : visits cfg.slotOf (cfg.slotOf x.ticket) (a.place x.ticket) =
    visits cfg.slotOf (cfg.slotOf x.ticket) a.front := h.places.pending_visits h.inv hpending
  have hfull : ∃ l l', a.slot (cfg.slotOf x.ticket) = .full x.ticket x.value l l' := by
    cases hs : a.slot (cfg.slotOf x.ticket) with
    | free b => simp [hs, Slot.ticket] at hpending
    | shut => simp [hs, Slot.ticket] at hpending
    | full j w l l' =>
      obtain rfl : j = x.ticket := by simpa [hs, Slot.ticket] using hpending
      have := h.values.unique (h.values.full_mem _ _ _ _ _ hs) hmem
      exact ⟨l, l', by rw [this]⟩
    | busy o b l l' =>
      cases o with
      | handoff => simp [hs, Slot.ticket] at hpending
      | task q j w =>
        obtain rfl : j = x.ticket := by simpa [hs, Slot.ticket] using hpending
        have hrun : (a.role q).ticket = some x.ticket := by
          cases w with
          | none =>
            obtain ⟨w, hw⟩ := h.inv.owner_writing _ _ _ _ _ _ hs
            rw [hw]
            rfl
          | some w =>
            rw [h.inv.owner_written _ _ _ _ _ _ _ hs]
            rfl
        exact absurd hrun (h.pushes.not_running x hx q)
  obtain ⟨l, l', hfull⟩ := hfull
  have hfront : ¬(a.crole = .draining ∧ cfg.slotOf x.ticket = cfg.slotOf a.front) := by
    rintro ⟨hc, hk⟩
    exact hnot (h.handed.took_handed _ (by rw [hc]; rfl) (by rw [← hk]; exact hpending))
  refine ⟨?_, ?_⟩
  · rw [State.elem, h.rel.data, if_neg hfront, hfull]
    rfl
  · intro m hm hk
    by_contra hlt
    have hle : a.front ≤ a.reads := by
      rw [Abs.front]
      split_ifs <;> omega
    have h1 := visits_lt (f := cfg.slotOf) (k := cfg.slotOf x.ticket) hk (not_le.mp hlt)
    have h2 := visits_mono (f := cfg.slotOf) (k := cfg.slotOf x.ticket) (hle.trans hm)
    omega

/-- The next index at which the consumer comes to a slot that is given out. -/
theorem Inv.visit_ge (hi : Inv cfg a) {k n : Nat} (hs : a.slot k ≠ .shut)
    (hload : (a.slot k).load = 0) (hk : cfg.slotOf n = k)
    (hn : visits cfg.slotOf k n = (a.claimed k).card) :
    a.reads ≤ n ∧ (a.crole.took = true → a.front < n) := by
  have hcount := hi.count k hs
  have hge : a.front ≤ n := by
    by_contra hlt
    have := visits_lt (f := cfg.slotOf) (k := k) hk (not_le.mp hlt)
    omega
  have hne : a.crole.took = true → a.front < n := by
    intro ht
    refine lt_of_le_of_ne hge ?_
    rintro rfl
    have := (hi.full_front ht).load
    rw [hk] at this
    omega
  refine ⟨?_, hne⟩
  by_cases hc : a.crole = .draining
  · have := hne (by rw [hc]; rfl)
    rw [Abs.front, if_pos hc] at this
    omega
  · rwa [Abs.front, if_neg hc] at hge

/-- A ticket that is given its slot stands for the next index at which the
consumer comes there. -/
theorem Move.given (hm : Move cfg a a') (hi : Inv cfg a) {p : Tid} {i : Nat}
    (hw : (a.role p).waiting = some i) (hp : (a'.role p).placed = some i) :
    (∀ j, j ≠ i → a'.place j = a.place j) ∧ a.reads ≤ a'.place i ∧
      (a.crole.took = true → a.front < a'.place i) ∧
      cfg.slotOf (a'.place i) = cfg.slotOf i ∧ (a.slot (cfg.slotOf i)).load = 0 := by
  have hlt := hi.ticket_lt p i (Role.ticket_of_waiting hw)
  have hnew : ∀ k, i ∉ a.claimed k := fun k hk => hi.waiting_unclaimed p i k hk hw
  obtain ⟨hslot, hvisits⟩ := hi.visit_spec hlt (hnew _)
  have hcase : a'.place = (a.claim cfg (cfg.slotOf i) i).place ∧
      a.slot (cfg.slotOf i) ≠ .shut ∧ (a.slot (cfg.slotOf i)).load = 0 := by
    have hnot : (a.role p).placed = none := Role.placed_of_waiting hw
    cases hm with
    | @claim q j v b hr hs =>
      obtain rfl : p = q := by grind
      obtain rfl : j = i := by simpa [hr, Role.waiting] using hw
      exact ⟨rfl, by simp [hs], by rw [hs]; rfl⟩
    | @wakeProducer q j v l l' hr hp' hs =>
      obtain rfl : p = q := by grind
      obtain rfl : j = i := by simpa [hp', Role.waiting] using hw
      exact ⟨rfl, by simp [hs], by rw [hs]; rfl⟩
    | _ => grind
  obtain ⟨hplace, hs, hload⟩ := hcase
  have hself : a'.place i = visit cfg.slotOf (cfg.slotOf i) (a.claimed (cfg.slotOf i)).card := by
    rw [hplace]
    exact Function.update_self ..
  obtain ⟨hreads, hfront⟩ := hi.visit_ge hs hload hslot hvisits
  refine ⟨?_, hself ▸ hreads, hself ▸ hfront, hself ▸ hslot, hload⟩
  intro j hj
  rw [hplace]
  exact Function.update_of_ne hj _ _

/-- A step that overtakes no earlier value of the task is patient. -/
theorem Reached.patient (h : Reached cfg s a) {act : Act V}
    (hstep : MpscBounded.step cfg s act = some s') (hnot : ¬Overtakes cfg s act)
    (hr : Rel cfg s' a') (hm : Move cfg a a') : Patient a a' := by
  intro p i hw hp x hx hxp hok
  obtain ⟨hold, hreads, hfront, hslot, hload⟩ := hm.given h.inv hw hp
  have hclaimed := h.values.claimed _ (h.values.accepted_mem x hx hok)
  by_cases hh : x.ticket ∈ MpscBounded.handed a.pulls
  · obtain ⟨hle, hlt⟩ := h.places.passed _ hh
    by_cases hc : a.crole = .holding
    · exact hle.trans_lt (hfront (by rw [hc]; rfl))
    · exact (hlt hc).trans_le hreads
  · obtain ⟨hdata, hnext⟩ := h.place_le hx hok hh
    have htakes := takes_of_placed hstep (h.rel.role p ▸ hw) (hr.role p ▸ hp)
    by_contra hcon
    refine hnot ⟨p, i, x, htakes, h.rel.pushes ▸ hx, hxp, hok, hdata, a'.place i,
      h.rel.reads ▸ hreads, hslot, ?_⟩
    intro m hm hmn hk
    rw [h.rel.reads] at hm
    have hle := hnext m hm hk
    -- the consumer comes to the slot of the earlier value no later, so it is the same slot
    have heq : a.place x.ticket = a'.place i := by omega
    have hslotx : cfg.slotOf (a.place x.ticket) = cfg.slotOf x.ticket := h.places.slot _ _ hclaimed
    have hpending := (h.handed.handed_or_pending _ _ hclaimed).resolve_left hh
    rw [← hslotx, heq, hslot] at hpending
    simp [Slot.load, hpending] at hload

/-- An accepted value that is placed before one that was handed out was handed
out before it. -/
theorem Reached.inTaskOrder (h : Reached cfg s a) (ho : InOrder a) : InTaskOrder s := by
  intro l₁ l₂ l₃ x y hpushes htask hxok hyok m m' hpulls
  rw [h.rel.pushes] at hpushes
  rw [h.rel.pulls] at hpulls
  have hx : x ∈ a.pushes := by simp [hpushes]
  have hy : y.ticket ∈ MpscBounded.handed a.pulls := mem_handed.mpr ⟨y.value, by simp [hpulls]⟩
  have hlt : a.place x.ticket < a.place y.ticket := by
    have := ho.sorted
    rw [hpushes, List.append_assoc, List.pairwise_append] at this
    exact List.rel_of_pairwise_cons this.2.1 (by simp) htask hxok hyok
  have hmem := h.values.accepted_mem x hx hxok
  have hclaimed : x.ticket ∈ a.claimed (cfg.slotOf x.ticket) := h.values.claimed _ hmem
  -- the consumer has passed the index of `y`, and so that of `x`
  have hhanded : x.ticket ∈ MpscBounded.handed a.pulls := by
    refine (h.handed.handed_or_pending _ _ hclaimed).resolve_right ?_
    intro hp
    have hvisits := h.places.pending_visits h.inv hp
    have := visits_lt (f := cfg.slotOf) (k := cfg.slotOf x.ticket) (h.places.slot _ _ hclaimed)
      (hlt.trans_le (h.places.passed _ hy).1)
    omega
  obtain ⟨v, hv⟩ := mem_handed.mp hhanded
  rw [h.values.unique (h.handed.constructed _ _ hv) hmem, hpulls] at hv
  rcases List.mem_append.mp hv with hv | hv
  · exact hv
  · exfalso
    rcases List.mem_cons.mp hv with hv | hv
    · obtain ⟨ht, -⟩ := Pull.ok.inj hv
      rw [ht] at hlt
      exact lt_irrefl _ hlt
    · have hsorted := h.places.sorted
      rw [hpulls, MpscBounded.handed, List.filterMap_append, List.pairwise_append] at hsorted
      have := List.rel_of_pairwise_cons hsorted.2.1 (mem_handed.mpr ⟨x.value, hv⟩)
      omega

/-- A task's accepted values are handed out in the order of its pushes in every
run in which no step overtakes an earlier value of the task. -/
theorem in_task_order
    (h : (system V cfg).Reach (fun s act => ¬Overtakes cfg s act) s) (hb : InRange cfg s) :
    InTaskOrder s := by
  have : ∃ a, Reached cfg s a ∧ InOrder a := by
    refine System.Reach.invariant_under (B := InRange cfg)
      (I := fun s => ∃ a, Reached cfg s a ∧ InOrder a) (fun _ _ _ _ hs hb => hb.back hs) ?_ ?_ h hb
    · rintro s rfl
      exact ⟨_, .init, .init⟩
    · rintro s act s' ⟨a, ha, ho⟩ hb - hnot hs
      obtain ⟨a', ha', rfl | hm⟩ := ha.step (hb.compares ha.rel ha.inv) hs
      · exact ⟨_, ha', ho⟩
      · exact ⟨a', ha', ho.move ha.inv ha.values hm (ha.patient hs hnot ha'.rel hm)⟩
  obtain ⟨a, ha, ho⟩ := this
  exact ha.inTaskOrder ho

/-- Two slots and 64-bit offsets. -/
def twoSlots : Config := ⟨64, 2, true, by decide, by decide⟩

/-- A task claims a slot only while the values that it pushed before and that have not been
handed out are in the slot that the consumer reads next. -/
def State.patient [DecidableEq V] (cfg : Config) (s : State V) : Act V → Bool
  | .task p _ =>
    match s.task p with
    | .claimCas .. => s.pushes.all fun x => decide (x.task = p → x.ok = true →
        (s.elem cfg x.ticket).data = some (x.ticket, x.value) →
          cfg.slotOf s.readOffset = cfg.slotOf x.ticket)
    | _ => true
  | .consumer _ =>
    match s.consumer with
    | .resumeProducer .. => false
    | _ => true
  | .push .. | .close _ | .pull _ | .release => true

theorem State.not_overtakes [DecidableEq V] {act : Act V} (h : s.patient cfg act = true) :
    ¬Overtakes cfg s act := by
  rintro ⟨p, i, x, htakes, hx, htask, hok, hdata, n, hn, -, hfirst⟩
  cases act with
  | task q spurious =>
    obtain ⟨rfl, -, v, hpc⟩ := htakes
    simp only [State.patient, hpc, List.all_eq_true, decide_eq_true_eq] at h
    exact hfirst _ le_rfl hn (h x hx htask hok hdata)
  | consumer spurious =>
    obtain ⟨idx, v, hpc, -⟩ := htakes
    simp [State.patient, hpc] at h
  | push p v | close p | pull k | release => exact htakes

/-- Task 0 pushes 7, 8 and then 9, into the slot that 7 has left and while 8 is still waiting;
task 1 takes the ticket after it and pushes 20 into the slot of 8. -/
def pushThrice : List (Act Nat) := List.flatten
  [.push 0 7 :: List.replicate 7 (.task 0 false), .push 0 8 :: List.replicate 7 (.task 0 false),
   [.pull .pull, .consumer false, .release], List.replicate 2 (.consumer false),
   .push 0 9 :: List.replicate 6 (.task 0 false), [.push 1 20, .task 1 false, .task 0 false],
   [.pull .tryPull, .consumer false, .release], List.replicate 2 (.consumer false),
   List.replicate 6 (.task 1 false), [.pull .tryPull, .consumer false, .release],
   List.replicate 2 (.consumer false), [.pull .pull, .consumer false]]

theorem in_task_order_pushThrice : ∃ s, (system Nat twoSlots).Reachable s ∧
    handed s.pulls = [0, 1, 2, 3] ∧ s.pushes.length = 4 ∧ InTaskOrder s := by
  have hrun : (pushThrice.foldlM (fun s act => if s.patient twoSlots act = true then
      step twoSlots s act else none) .init).any (fun s => decide (handed s.pulls = [0, 1, 2, 3]) &&
        decide (s.pushes.length = 4) && decide (s.writeOffset = 4)) = true := by decide +kernel
  obtain ⟨s, hs, hand⟩ := (Option.any_eq_true _ _).mp hrun
  simp only [Bool.and_eq_true, decide_eq_true_iff] at hand
  obtain ⟨⟨hpulls, hpushes⟩, hw⟩ := hand
  have hreach := System.ofStep_reach pushThrice (.init rfl) hs
  have hb : InRange twoSlots s := fun _ => by
    rw [hw]
    decide
  exact ⟨s, hreach.reachable, hpulls, hpushes,
    in_task_order (hreach.mono fun _ _ => State.not_overtakes) hb⟩

/-- Task 1 takes ticket 0 and stalls; task 2 pushes 20 and then 21, which is
given the slot that ticket 0 is for. -/
def stalledPush : List (Act Nat) :=
  [.push 1 10, .task 1 false] ++ .push 2 20 :: List.replicate 7 (.task 2 false) ++
    .push 2 21 :: List.replicate 7 (.task 2 false) ++ [.pull .pull, .consumer false]

theorem stalledPush_out_of_order : ∃ s, (system Nat twoSlots).Reachable s ∧ s.writeOffset = 3 ∧
    s.pushes = [⟨2, 1, 20, true⟩, ⟨2, 2, 21, true⟩] ∧ s.pulls = [.ok 2 21] ∧ ¬InTaskOrder s := by
  obtain ⟨s, hs, hw, hpushes, hpulls⟩ : ∃ s, stalledPush.foldlM (step twoSlots) .init = some s ∧
      s.writeOffset = 3 ∧ s.pushes = [⟨2, 1, 20, true⟩, ⟨2, 2, 21, true⟩] ∧
      s.pulls = [.ok 2 21] := ⟨_, rfl, rfl, rfl, rfl⟩
  refine ⟨s, System.ofStep_reachable stalledPush hs, hw, hpushes, hpulls, ?_⟩
  intro h
  have := h [] [] [] _ _ hpushes rfl rfl rfl [] [] hpulls
  cases this

end Order

end CoroUtil.MpscBounded
