import CoroUtil.SpscUnbounded.Consumer

/-!
# The invariant holds on every run
-/

namespace CoroUtil.SpscUnbounded

open CoroUtil.Blocks CoroUtil.General

variable {V : Type} {cfg : Config} {s s' : State V} {m : Map}

/-- The map of the initial state. -/
def Map.init : Map where
  chain := ⟨0, 0, fun _ => 0⟩
  head := 0
  write := 0
  next := 0
  sealed := false

theorem Mem.init : Mem cfg (State.init : State V) Map.init := by
  have hcell : ∀ n, Map.cell cfg Map.init (State.init : State V) n = ⟨.null, none⟩ := fun n => by
    rw [Map.cell, Chain.cell]
    split <;> rfl
  have hzero : ∀ k, Map.init.chain.Has k → k = 0 := fun k hk => Nat.le_zero.mp hk.2
  exact
    { ok :=
        { le := le_rfl
          inj := fun j k hj hk _ => (hzero j hj).trans (hzero k hk).symm
          fresh := fun _ _ => Nat.one_pos
          offset := fun k hk => by
            obtain rfl := hzero k hk
            rw [Nat.zero_mul]
            rfl
          next := fun k hk => by
            obtain rfl := hzero k hk
            rfl }
      first := le_rfl
      write_le := le_rfl
      head := rfl
      write := rfl
      head_lt := .inl rfl
      read_near := Nat.zero_le _
      read_le := le_rfl
      write_mul := Nat.le_of_eq (Nat.zero_mul _)
      write_near := Nat.zero_le _
      data := fun n _ => congrArg _ (hcell n)
      flags := fun n _ => by
        rw [hcell]
        exact (Map.mark_next rfl (Nat.zero_le n)).symm
      drained := fun n _ _ => congrArg _ (hcell n) }

theorem Inv.init : Inv cfg (State.init : State V) Map.init where
  mem := .init
  producer := ⟨rfl, rfl⟩
  consumer := by
    refine ⟨⟨rfl, 0, ⟨le_rfl, le_rfl⟩, rfl⟩, ?_⟩
    rw [Clear, Map.cell, Chain.cell]
    split <;> rfl
  awake := ⟨fun _ h => (by cases h), fun _ _ _ h => (by cases h), fun _ _ _ h => (by cases h)⟩
  recorded :=
    { length := rfl
      posts := rfl
      values := rfl
      closed := fun h => absurd h List.not_mem_nil
      last := fun l l' h => absurd (congrArg List.length h) (by simp [State.init]) }
  sound := rfl

/-- The producer starts a call. -/
theorem Inv.call {pc : ProducerPc V} {items : List V} {b : Bool} (h : Inv cfg s m)
    (hk : b = true → m.next = s.writeOffset ∧ m.sealed = s.closed → Knows cfg s m pc)
    (hwakes : pc.wakes = none) (hnulls : pc.nulls = false) (hbuilt : pc.built = 0)
    (hrest : pc.rest = items) (hs : s.call pc items b = some s') : ∃ m', Inv cfg s' m' := by
  rw [State.call] at hs
  split at hs
  · next hpc =>
    split at hs
    · next hb =>
      cases hs
      have hidle := h.producer
      have hawake := h.awake
      have hw0 : s.producer.wakes = none := by rw [hpc]; rfl
      have hn0 : s.producer.nulls = false := by rw [hpc]; rfl
      have hlen := h.recorded.length
      have hposts := h.recorded.posts
      rw [hpc] at hidle hlen hposts
      have hknows := hk hb hidle
      refine ⟨m, h.produce (h.mem.congr rfl rfl rfl rfl rfl)
        (.of_eq h.mem rfl rfl rfl rfl rfl rfl rfl rfl rfl)
        (hknows.later ⟨.refl _, rfl, rfl, rfl, rfl, rfl, rfl⟩ fun _ => rfl) rfl ?_ rfl ?_ ?_
        (List.prefix_refl _) h.sound⟩
      · exact ⟨fun f hf => (by cases hwakes.symm.trans hf),
          fun i c e hc hn => hwakes.trans (hw0.symm.trans (hawake.waits i c e hc hn)),
          fun i c e hc => (hawake.nulls i c e hc).trans (hn0.trans hnulls.symm)⟩
      · change s.constructed.length = m.next + pc.built
        rw [hbuilt]
        exact hlen
      · change s.constructed ++ pc.rest = s.posts ++ items
        rw [hrest, ← hposts]
        exact congrArg (· ++ items) (List.append_nil _).symm
    · cases hs
  · cases hs

theorem Inv.callPull {k : Call} (h : Inv cfg s m) (hs : s.callPull cfg k = some s') :
    ∃ m', Inv cfg s' m' := by
  unfold State.callPull at hs
  split at hs
  · next hpc =>
    have hk := h.consumer
    rw [hpc] at hk
    obtain ⟨hc, hcl⟩ := hk
    have hfree := h.free fun i b e hne => by rw [hpc] at hne; cases hne
    cases k with
    | pull =>
      dsimp only at hs
      split at hs
      · next hcan =>
        cases hs
        have hmove : Free cfg { s with frame := s.frame + 1 } m :=
          hfree.move (h.mem.congr rfl rfl rfl rfl rfl) ⟨.refl _, rfl, rfl, rfl, rfl, rfl, rfl⟩ rfl
            { h.recorded with } h.sound
        exact ⟨m, hmove.go (c := .assertRead .pull) hpc ⟨{ hc with }, hcl, fun _ => hcan⟩ rfl
          fun i b e hne => by cases hne⟩
      · cases hs
    | tryPull =>
      cases hs
      exact ⟨m, hfree.go (c := .assertRead .tryPull) hpc ⟨hc, hcl, fun hne => by cases hne⟩ rfl
        fun i b e hne => by cases hne⟩
  · cases hs

theorem Inv.callEmpty (h : Inv cfg s m) (hs : s.callEmpty = some s') : ∃ m', Inv cfg s' m' := by
  have hat : Find.Ok cfg.toLayout m.chain m.head s.readOffset (.load s.headBlock) :=
    ⟨m.head, h.mem.headAt⟩
  have hk := h.consumer
  rw [State.callEmpty] at hs
  split at hs
  · next hpc =>
    rw [hpc] at hk
    cases hs
    exact ⟨m, (h.free fun i b e hne => by rw [hpc] at hne; cases hne).go (c := .emptyFind none _) hpc
      ⟨hk.1, hat, hk.2⟩ rfl fun i b e hne => by cases hne⟩
  · next idx b hpc =>
    rw [hpc] at hk
    cases hs
    exact ⟨m, (h.free fun i b e hne => by rw [hpc] at hne; cases hne).go
      (c := .emptyFind (some (idx, b)) _) hpc ⟨hk.1, hat, hk.2⟩ rfl fun i b e hne => by cases hne⟩
  · cases hs

/-- A step keeps the invariant. -/
theorem Inv.move {a : Act V} (h : Inv cfg s m) (hs : SpscUnbounded.move .natural cfg s a = some s') :
    ∃ m', Inv cfg s' m' := by
  cases a with
  | post v =>
    refine h.call (fun hb hidle => ?_) rfl rfl rfl rfl hs
    have hopen : s.closed = false := by simpa using hb
    have hbits := cfg.platform
    exact ⟨⟨rfl, hidle.1, hopen, hidle.2.trans hopen⟩, Nat.one_lt_two_pow (by omega)⟩
  | bulk items =>
    refine h.call (fun hb hidle => ?_) rfl rfl rfl rfl hs
    rw [Bool.and_eq_true] at hb
    have hopen : s.closed = false := by simpa using hb.1
    exact ⟨⟨rfl, hidle.1, hopen, hidle.2.trans hopen⟩, of_decide_eq_true hb.2⟩
  | close =>
    have hk : m.next = s.writeOffset ∧ m.sealed = s.closed → Knows cfg s m .closeCas := id
    exact h.call (fun _ => hk) rfl rfl rfl rfl hs
  | producer => exact h.producerStep hs
  | pull k => exact h.callPull hs
  | empty => exact h.callEmpty hs
  | consumer => exact h.consumerStep hs
  | release => exact h.release hs

/-- The memory that a state takes. -/
def Fits (cfg : Config) (s : State V) : Prop := 4 * (s.heap.fresh * cfg.blockSize) ≤ 2 ^ cfg.bits

theorem step_eq_some {o : Offsets} {a : Act V} :
    step o cfg s a = some s' ↔ move o cfg s a = some s' ∧ Fits cfg s' := by
  rw [step, Option.filter_eq_some_iff, State.fits, decide_eq_true_iff]
  rfl

theorem fits_init : Fits cfg (State.init : State V) := by
  change 4 * (1 * cfg.blockSize) ≤ 2 ^ cfg.bits
  rw [Nat.one_mul]
  calc 4 * cfg.blockSize = 2 ^ (cfg.log + 2) := by
        rw [Layout.blockSize, Nat.pow_add, Nat.mul_comm]
    _ ≤ 2 ^ cfg.bits := Nat.pow_le_pow_right Nat.two_pos cfg.log_lt

/-- Every run on natural numbers satisfies the invariant. -/
theorem reachable_inv (h : (system V .natural cfg).Reachable s) : ∃ m, Inv cfg s m ∧ Fits cfg s := by
  refine System.Reach.invariant (I := fun s => ∃ m, Inv cfg s m ∧ Fits cfg s) (fun s hs => ?_)
    (fun s a s' hi _ hs => ?_) h
  · cases hs
    exact ⟨_, .init, fits_init⟩
  · obtain ⟨m, hm, -⟩ := hi
    obtain ⟨hmove, hfits⟩ := step_eq_some.mp hs
    obtain ⟨m', hm'⟩ := hm.move hmove
    exact ⟨m', hm', hfits⟩

end CoroUtil.SpscUnbounded
