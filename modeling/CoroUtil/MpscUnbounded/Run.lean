import CoroUtil.MpscUnbounded.Recycle
import CoroUtil.MpscUnbounded.Task

/-!
# Every run keeps the invariant

`reachable_inv`: on natural offsets every reachable state has the invariant.
-/

namespace CoroUtil.MpscUnbounded

open CoroUtil.Blocks CoroUtil.General

variable {V : Type} {cfg : Config} {s s' : State V} {m : Map V} {p : Tid} {a : Act V}

def Map.init : Map V where
  chain := ⟨0, 0, fun _ => 0⟩
  head := 0
  write := 0
  read := 0
  hint := 0
  stage := fun _ => .blank
  cut := none
  role := fun _ => .out

theorem Ledger.ok_init : (Map.init.ledger (.init : State V)).Ok where
  read_le := le_rfl
  unused _ _ := rfl
  released n hn := absurd hn (Nat.not_lt_zero n)
  put _ _ _ _ _ h := by cases h
  closer _ _ h := by cases h
  owner _ _ _ h := h.elim
  post _ h := by cases h
  posted _ h := by cases h
  apart := .nil
  cover n hn := absurd hn (Nat.not_lt_zero n)
  cut _ h := by cases h
  mark _ h := by cases h
  winner _ h := by cases h
  won h := by cases h

theorem Mem.init : Mem cfg (.init : State V) .init := by
  have hcell : ∀ n, (Map.init : Map V).cell cfg .init n = ⟨.null, none⟩ := by
    intro n
    rw [Map.cell, Chain.cell]
    split <;> rfl
  have hzero : ∀ k, (Map.init : Map V).chain.Has k → k = 0 := fun k hk => Nat.le_zero.mp hk.2
  have hnext : ∀ k, (Map.init : Map V).chain.Has k → none =
      if k = (Map.init : Map V).chain.last then none else some 0 := fun k hk => by
    rw [hzero k hk]
    rfl
  exact
    { ok := ⟨le_rfl, fun j k hj hk _ => (hzero j hj).trans (hzero k hk).symm,
        fun _ _ => Nat.one_pos, fun k hk => by rw [hzero k hk, Nat.zero_mul]; rfl, hnext⟩
      first := le_rfl
      head_le := le_rfl
      write_le := le_rfl
      read_le := le_rfl
      head_hint := le_rfl
      hint_le := le_rfl
      head := rfl
      write := rfl
      read := rfl
      hint := rfl
      read_lt := .inl rfl
      read_near := Nat.zero_le _
      hint_lt := .inl rfl
      pending := fun _ _ h => by cases h
      data := fun n _ => by rw [hcell]; rfl
      flags := fun n _ => by rw [hcell]; rfl
      drained := fun n _ _ => by rw [hcell] }

theorem Inv.init : Inv cfg (.init : State V) .init where
  ledger := Ledger.ok_init
  mem := .init
  task _ := rfl
  consumer := by
    refine ⟨⟨rfl, ⟨0, ⟨le_rfl, le_rfl⟩, rfl⟩, fun _ => rfl⟩, ?_⟩
    rw [Clear, Map.cell, Chain.cell]
    split <;> rfl
  ready h := by cases h
  wake _ _ _ h := by cases h
  recorded :=
    { constructed := fun n v => by simp [State.init, Map.init]
      indices := rfl
      values := fun _ _ h => by cases h
      closed := fun h => by cases h
      last := fun l l' h => by simp [State.init] at h }
  sound _ := rfl

/-- A task begins a call. -/
theorem Inv.call (h : Inv cfg s m) {pc : Pc V} (hpc : s.task p = .idle)
    (hk : m.role p = .out → Knows cfg s m (m.role p) pc) (hw : pc.wakes = none) :
    Inv cfg (s.setTask p pc) m := by
  have hidle := h.task p
  rw [hpc] at hidle
  have ho := h.open p
  rw [hpc] at ho
  exact Open.close ho (hk hidle) hw

theorem Free.begin {began frame : Nat} (h : Free cfg s m) :
    Free cfg { s with began, frame } m :=
  h.move h.ledger { h.mem with } ⟨.refl _, fun _ _ _ => rfl, le_rfl, id, id, fun _ _ => id⟩ rfl rfl rfl
    h.ready (h.recorded.congr rfl rfl rfl rfl rfl) h.sound h.awake

/-- The consumer begins a call. -/
theorem Inv.pull {k : Call} {began frame : Nat} (h : Inv cfg s m) (hpc : s.consumer = .idle)
    (hk : k.Able cfg) : Inv cfg ({ s with began, frame }.setConsumer (.assertRead k)) m := by
  have hidle := h.consumer
  rw [hpc] at hidle
  obtain ⟨hc, hcl⟩ := hidle
  exact (h.free fun n b e hne => by cases hpc.symm.trans hne).begin.close (c := .assertRead k)
    ⟨{ hc with }, hcl, hk⟩ (by rw [show (State.consumer _) = s.consumer from rfl, hpc]; rfl)
    fun n b e hne => by cases hne

theorem Inv.callEmpty (h : Inv cfg s m) (hs : s.callEmpty = some s') : Inv cfg s' m := by
  have hk := h.consumer
  have hat : Find.At cfg.toLayout m.chain m.read s.readOffset m.read s.readBlock :=
    ⟨le_rfl, h.mem.read_le, h.mem.read, h.mem.read_le_div le_rfl⟩
  rw [State.callEmpty] at hs
  split at hs
  · next hpc =>
    rw [hpc] at hk
    cases hs
    exact (h.free fun n b e hne => by cases hpc.symm.trans hne).close (c := .emptyFind none _)
      ⟨hk.1, ⟨m.read, hat⟩, hk.2⟩ (by rw [hpc]; rfl) fun n b e hne => by cases hne
  · next idx b hpc =>
    rw [hpc] at hk
    cases hs
    exact (h.free fun n b e hne => by cases hpc.symm.trans hne).close
      (c := .emptyFind (some (idx, b)) _) ⟨hk.1, ⟨m.read, hat⟩, hk.2⟩ (by rw [hpc]; rfl)
      fun n b e hne => by cases hne
  · cases hs

/-- A step keeps the invariant. -/
theorem Inv.step (h : Inv cfg s m) (hs : step .natural cfg s a = some s') :
    ∃ m', Inv cfg s' m' := by
  cases a with
  | task p spurious => exact h.taskStep hs
  | consumer spurious => exact h.consumerStep hs
  | release => exact h.release hs
  | empty => exact ⟨m, h.callEmpty hs⟩
  | post p v =>
    rw [MpscUnbounded.step] at hs
    split at hs <;> cases hs
    next hpc => exact ⟨m, h.call hpc (fun hr => ⟨hr, Nat.one_pos⟩) rfl⟩
  | close p =>
    rw [MpscUnbounded.step] at hs
    split at hs <;> cases hs
    next hpc => exact ⟨m, h.call hpc id rfl⟩
  | bulk p items count =>
    rw [MpscUnbounded.step] at hs
    split at hs
    · next hpc =>
      split at hs <;> cases hs
      split
      · exact ⟨m, h⟩
      · next hne => exact ⟨m, h.call hpc (fun hr => ⟨hr, Nat.pos_of_ne_zero hne⟩) rfl⟩
    · cases hs
  | pull k =>
    unfold MpscUnbounded.step at hs
    dsimp only at hs
    split at hs
    · next hpc =>
      cases k with
      | pull =>
        dsimp only at hs
        split at hs <;> cases hs
        next hcan => exact ⟨m, h.pull hpc fun _ => hcan⟩
      | tryPull =>
        cases hs
        exact ⟨m, h.pull hpc fun hne => by cases hne⟩
    · cases hs

theorem reachable_inv (h : (system V .natural cfg).Reachable s) : ∃ m, Inv cfg s m := by
  refine System.Reach.invariant (I := fun s => ∃ m, Inv cfg s m) ?_ ?_ h
  · rintro s rfl
    exact ⟨_, .init⟩
  · rintro s a s' ⟨m, hm⟩ _ hs
    exact hm.step hs

end CoroUtil.MpscUnbounded
