import CoroUtil.SpscUnbounded.Delivery

/-!
# What `empty()` says while a value waits

`empty()` reads the flags of the element at `read_offset`, and answers no if they
are `DATA_BIT`.  `await_suspend` may have put its own pointer there in exchange for
`DATA_BIT`; as long as the consumer holds that scope, the value is hidden.
-/

namespace CoroUtil.SpscUnbounded

open CoroUtil.Blocks CoroUtil.General

variable {V : Type} {o : Offsets} {cfg : Config} {s s' : State V} {m : Map} {b : Nat}
  {scope : Option (Nat × Nat)} {f : Find}

/-- A value has been published and not been released: the one at `read_offset` is. -/
def State.Waits (s : State V) : Prop :=
  (handed s.pulls).length < s.published.length + if s.consumer.scope.isSome then 1 else 0

/-- The consumer holds a scope that `await_suspend` has got in exchange for its pointer. -/
def State.hides (s : State V) : Prop := s.consumer.scope ≠ none ∧ s.grabbed = true

/-- What `empty()` says while a value waits. -/
structure Tells (o : Offsets) (cfg : Config) (s : State V) : Prop where
  /-- Its answer. -/
  answer : ∀ scope b s', s.consumer = .emptyPoll scope b → step o cfg s .consumer = some s' →
    ∃ a, s'.empties = s.empties ++ [a] ∧ (a = false ↔ ¬s.hides)
  /-- It comes to its answer. -/
  returns : ∀ scope f, s.consumer = .emptyFind scope f → ∃ n s',
    (List.replicate n Act.consumer).foldlM (step o cfg) s = some s' ∧
      ∃ a, s'.empties = s.empties ++ [a]

/-! ## On natural numbers -/

theorem Inv.waits_iff (h : Inv cfg s m) : s.Waits ↔ s.readOffset < m.next := by
  have hlen := h.recorded.length
  have hread := h.mem.read_le
  have hscope : s.consumer.scope.isSome = true → s.readOffset < m.next := by
    intro hsome
    have hk := h.consumer
    cases hpc : s.consumer <;> rw [hpc] at hk hsome
    case holding idx b => exact hk.2.lt
    case emptyFind sc f | emptyPoll sc b =>
      obtain ⟨x, rfl⟩ := Option.isSome_iff_exists.mp hsome
      exact Scope.lt hk.2.2
    all_goals cases hsome
  rw [State.Waits, h.recorded.values, h.published_eq, List.length_take, List.length_take]
  split
  · next hsome =>
    have hlt := hscope hsome
    omega
  · omega

/-- The element at `read_offset` is in the chain. -/
theorem Inv.last_of_lt (h : Inv cfg s m) (hlt : s.readOffset < m.next) :
    s.readOffset / cfg.blockSize ≤ m.chain.last := by
  have hdata := h.mem.data s.readOffset le_rfl
  have hlen := h.recorded.length
  by_contra hgt
  rw [Map.cell, Chain.cell, if_neg hgt, List.getElem?_eq_getElem (by omega)] at hdata
  cases hdata

theorem Inv.answer (h : Inv cfg s m) (hw : s.Waits) (hpc : s.consumer = .emptyPoll scope b)
    (hs : s.consumerStep .natural cfg = some s') :
    ∃ a, s'.empties = s.empties ++ [a] ∧ (a = false ↔ ¬s.hides) := by
  have hk := h.consumer
  have hlt := h.waits_iff.mp hw
  rw [hpc] at hk
  obtain ⟨-, hl, hsc⟩ := hk
  rw [State.consumerStep, hpc] at hs
  cases hs
  have hempties : ∀ (t : State V), (t.afterEmpty scope).empties = t.empties := fun t => by
    cases scope <;> rfl
  refine ⟨_, hempties _, ?_⟩
  rw [hl.2.elem, State.hides, hpc, decide_eq_false_iff_not]
  cases scope with
  | none =>
    have hflags : (m.cell cfg s s.readOffset).flags = .data := hsc.trans (Map.mark_of_lt hlt)
    simp [hflags, ConsumerPc.scope]
  | some x =>
    rw [Scope.flags hsc]
    by_cases hg : s.grabbed = true
    · simp [hg, ConsumerPc.scope]
    · simp [hg, ConsumerPc.scope]

/-- A step of the walk of `empty()`. -/
theorem Inv.emptyFind_step (h : Inv cfg s m) (hf : Fits cfg s) (hw : s.Waits)
    (hpc : s.consumer = .emptyFind scope f) :
    ∃ pc, SpscUnbounded.step .natural cfg s .consumer = some (s.setConsumer pc) ∧
      pc.scope = scope ∧ ((∃ b, pc = .emptyPoll scope b) ∨
        ∃ f', pc = .emptyFind scope f' ∧ f'.left s.readOffset s.heap < f.left s.readOffset s.heap) := by
  have hk := h.consumer
  rw [hpc] at hk
  obtain ⟨-, hok, -⟩ := hk
  have hheap := Find.step_heap h.mem.ok h.mem.first hok (h.last_of_lt (h.waits_iff.mp hw))
  obtain ⟨-, -, htrue, -⟩ := Find.step_spec h.mem.ok h.mem.first hok
  have hleft := Find.left_step (L := cfg.toLayout) (h := s.heap) hok
  have hfound : ∀ c, f = .found c →
      (f.step .natural cfg.toLayout s.readOffset s.heap).2.2 = .found c := by
    rintro c rfl
    rfl
  have hstep : ∀ {pc}, s.consumerStep .natural cfg = some (s.setConsumer pc) →
      SpscUnbounded.step .natural cfg s .consumer = some (s.setConsumer pc) :=
    fun hs => step_eq_some.mpr ⟨hs, hf⟩
  rw [hheap] at hleft
  rw [State.consumerStep, hpc] at hstep
  dsimp only at hstep
  generalize f.step .natural cfg.toLayout s.readOffset s.heap = x at hstep hheap htrue hleft hfound
  obtain ⟨heap, ok, f'⟩ := x
  obtain rfl : heap = s.heap := hheap
  obtain rfl : ok = true := htrue
  simp only [State.check_true] at hstep
  cases f' with
  | found b => exact ⟨_, hstep rfl, rfl, .inl ⟨b, rfl⟩⟩
  | load b | next b off | cas b off | check b off =>
    exact ⟨_, hstep rfl, rfl, .inr ⟨_, rfl, hleft fun c hc => by cases hfound c hc⟩⟩

theorem emptyPoll_step (hf : Fits cfg s) (hpc : s.consumer = .emptyPoll scope b) : ∃ s' a,
    SpscUnbounded.step .natural cfg s .consumer = some s' ∧ s'.empties = s.empties ++ [a] := by
  have hs : ∃ a, s.consumerStep .natural cfg =
      some ({ s with empties := s.empties ++ [a] }.afterEmpty scope) := by
    rw [State.consumerStep, hpc]
    exact ⟨_, rfl⟩
  obtain ⟨a, hs⟩ := hs
  refine ⟨_, a, step_eq_some.mpr ⟨hs, ?_⟩, ?_⟩ <;> cases scope <;> first | exact hf | rfl

/-- The walk of `empty()` comes to the block of `read_offset`. -/
theorem Inv.emptyFind_returns (h : Inv cfg s m) (hf : Fits cfg s) (hw : s.Waits)
    (hpc : s.consumer = .emptyFind scope f) : ∃ n s',
      (List.replicate n Act.consumer).foldlM (SpscUnbounded.step .natural cfg) s = some s' ∧
        ∃ a, s'.empties = s.empties ++ [a] := by
  induction hleft : f.left s.readOffset s.heap using Nat.strongRecOn generalizing s m f with
  | ind r ih =>
    obtain ⟨pc, hs, hscope, hpc'⟩ := h.emptyFind_step hf hw hpc
    rcases hpc' with ⟨b, rfl⟩ | ⟨f', rfl, hlt⟩
    · obtain ⟨s', a, hs', he⟩ := emptyPoll_step (s := s.setConsumer (.emptyPoll scope b)) hf rfl
      refine ⟨2, s', ?_, a, he⟩
      rw [List.replicate_succ, List.foldlM_cons, hs, List.replicate_one]
      change List.foldlM _ (s.setConsumer (.emptyPoll scope b)) _ = some s'
      rw [List.foldlM_cons, hs']
      rfl
    · obtain ⟨hmove, hfits⟩ := step_eq_some.mp hs
      obtain ⟨m', hm'⟩ := h.move hmove
      have hw' : (s.setConsumer (.emptyFind scope f')).Waits := by
        rw [State.Waits, hpc] at hw
        exact hw
      obtain ⟨n, s', hrun, ha⟩ := ih _ (hleft ▸ hlt) hm' hfits hw' rfl rfl
      refine ⟨n + 1, s', ?_, ha⟩
      rw [List.replicate_succ, List.foldlM_cons, hs]
      exact hrun

theorem Inv.tells (h : Inv cfg s m) (hf : Fits cfg s) (hw : s.Waits) : Tells .natural cfg s where
  answer _ _ _ hpc hs := h.answer hw hpc (step_eq_some.mp hs).1
  returns _ _ hpc := h.emptyFind_returns hf hw hpc

/-! ## On registers -/

section

variable {L : Layout} {cpc : ConsumerPc}

theorem ConsumerPc.scope_wrap :
    (cpc.wrap L).scope = cpc.scope.map fun x => (word L.bits x.1, x.2) := by
  cases cpc <;> rfl

theorem State.hides_wrap : (s.wrap cfg.toLayout).hides ↔ s.hides := by
  rw [hides, hides, consumer_wrap, ConsumerPc.scope_wrap, Ne, Option.map_eq_none_iff]
  rfl

theorem State.waits_wrap : (s.wrap cfg.toLayout).Waits ↔ s.Waits := by
  rw [Waits, Waits, published_wrap, consumer_wrap, ConsumerPc.scope_wrap, Option.isSome_map]
  rfl

end

theorem Tells.wrap (h : Tells .natural cfg s) (hm : Inv cfg s m) (hf : Fits cfg s) :
    Tells .wrapping cfg (s.wrap cfg.toLayout) where
  answer scope b s' hpc hs := by
    rw [hm.step_wrap hf] at hs
    obtain ⟨t, ht, rfl⟩ := Option.map_eq_some_iff.mp hs
    rw [State.hides_wrap]
    cases hc : s.consumer <;> rw [State.consumer_wrap, hc] at hpc <;> cases hpc
    exact h.answer _ _ t hc ht
  returns scope f hpc := by
    cases hc : s.consumer <;> rw [State.consumer_wrap, hc] at hpc <;> cases hpc
    obtain ⟨n, t, hrun, ha⟩ := h.returns _ _ hc
    refine ⟨n, t.wrap cfg.toLayout, ?_, ha⟩
    rw [hm.run_wrap _ hf, hrun]
    rfl

/-- The answer of `empty()` while a value waits, in every state that is reached. -/
theorem tells (h : (system V .wrapping cfg).Reachable s) (hw : s.Waits) :
    Tells .wrapping cfg s := by
  obtain ⟨t, m, -, rfl, hm, hf⟩ := reachable_wrap h
  exact (hm.tells hf (State.waits_wrap.mp hw)).wrap hm hf

/-- The value is published between the poll and the exchange of `pull()`, and `empty()`
is called while its scope is alive. -/
def raceThenEmpty : List (Act Nat) := List.flatten
  [.pull .pull :: List.replicate 3 .consumer, .post 7 :: List.replicate 4 .producer,
   [.consumer, .empty, .consumer]]

end CoroUtil.SpscUnbounded
