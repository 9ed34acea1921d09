/-!
# Transition systems

A `System` is a set of start states and a labelled step relation; interleaving
concurrency is the label saying who moves.  `Reach ok` collects the states that
a run reaches when every step of it satisfies `ok`, and `Reachable` drops that
restriction.

The rules are the ones the queue proofs use:

* `Reach.invariant`: what the start has and a step keeps holds on every run.
* `Reach.invariant_under`: the same with a bound `B` that only gets harder along
  a run, so that it can be assumed at every step once it holds at the end.
* `ofStep`, `ofStep_run`, `ofStep_reach`, `ofStep_take`: a step function as a system,
  and the runs of its lists of moves.
* `noting`: the runs beside notes that are taken of every step.
-/

namespace CoroUtil.General

structure System (σ α : Type) where
  init : σ → Prop
  step : σ → α → σ → Prop

namespace System

variable {σ α : Type} (M : System σ α)

/-- The states reached by runs all of whose steps satisfy `ok`. -/
inductive Reach (ok : σ → α → Prop) : σ → Prop
  | init {s : σ} (h : M.init s) : Reach ok s
  | step {s s' : σ} {a : α} (h : Reach ok s) (hok : ok s a) (hs : M.step s a s') : Reach ok s'

/-- The states reached by any run. -/
def Reachable (s : σ) : Prop := M.Reach (fun _ _ => True) s

variable {M} {ok : σ → α → Prop}

theorem Reachable.init {s : σ} (h : M.init s) : M.Reachable s := Reach.init h

theorem Reachable.step {s s' : σ} {a : α} (h : M.Reachable s) (hs : M.step s a s') :
    M.Reachable s' := Reach.step h trivial hs

theorem Reach.reachable {s : σ} (h : M.Reach ok s) : M.Reachable s := by
  induction h with
  | init h => exact .init h
  | step _ _ hs ih => exact ih.step hs

theorem Reach.mono {ok' : σ → α → Prop} (hok : ∀ s a, ok s a → ok' s a) {s : σ}
    (h : M.Reach ok s) : M.Reach ok' s := by
  induction h with
  | init h => exact .init h
  | step _ ho hs ih => exact .step ih (hok _ _ ho) hs

/-- **Invariant rule.** -/
theorem Reach.invariant {I : σ → Prop} (hinit : ∀ s, M.init s → I s)
    (hstep : ∀ s a s', I s → ok s a → M.step s a s' → I s') {s : σ} (h : M.Reach ok s) : I s := by
  induction h with
  | init h => exact hinit _ h
  | step _ hok hs ih => exact hstep _ _ _ ih hok hs

/-- **Invariant rule under a bound.**  The bound `B` is inherited backwards, so
it holds all along a run that ends inside it. -/
theorem Reach.invariant_under {B I : σ → Prop}
    (hback : ∀ s a s', M.Reach ok s → M.step s a s' → B s' → B s)
    (hinit : ∀ s, M.init s → I s)
    (hstep : ∀ s a s', I s → B s → B s' → ok s a → M.step s a s' → I s') {s : σ}
    (h : M.Reach ok s) (hB : B s) : I s := by
  induction h with
  | init h => exact hinit _ h
  | step hr hok hs ih =>
    have hB' := hback _ _ _ hr hs hB
    exact hstep _ _ _ (ih hB') hB' hB hok hs

/-- A step function as a system. -/
def ofStep (start : σ) (step : σ → α → Option σ) : System σ α where
  init s := s = start
  step s a s' := step s a = some s'

/-- The moves of a list are taken from a state that has been reached. -/
theorem ofStep_run {start : σ} {step : σ → α → Option σ} (acts : List α) {s t : σ}
    (hs : (ofStep start step).Reachable s) (h : acts.foldlM step s = some t) :
    (ofStep start step).Reachable t := by
  induction acts generalizing s with
  | nil =>
    cases h
    exact hs
  | cons a acts ih =>
    rw [List.foldlM_cons] at h
    obtain ⟨u, hu, h⟩ := Option.bind_eq_some_iff.mp h
    exact ih (hs.step hu) h

theorem ofStep_reachable {start : σ} {step : σ → α → Option σ} (acts : List α) {s : σ}
    (h : acts.foldlM step start = some s) : (ofStep start step).Reachable s :=
  ofStep_run acts (.init rfl) h

/-- A run whose moves are checked as they are taken. -/
theorem ofStep_reach {start : σ} {step : σ → α → Option σ} {ok : σ → α → Prop}
    [∀ s a, Decidable (ok s a)] (acts : List α) {s t : σ} (hs : (ofStep start step).Reach ok s)
    (h : acts.foldlM (fun s a => if ok s a then step s a else none) s = some t) :
    (ofStep start step).Reach ok t := by
  induction acts generalizing s with
  | nil =>
    cases h
    exact hs
  | cons a acts ih =>
    rw [List.foldlM_cons] at h
    obtain ⟨u, hu, h⟩ := Option.bind_eq_some_iff.mp h
    split at hu
    · next hok => exact ih (.step hs hok hu) h
    · cases hu

/-- What is checked after each move of a list holds after each beginning of it. -/
theorem ofStep_take {step : σ → α → Option σ} {P : σ → Prop} [DecidablePred P] (acts : List α)
    {s : σ} (hs : P s)
    (h : (acts.foldlM (fun s a => (step s a).filter (P ·)) s).isSome = true) (k : Nat) {t : σ}
    (ht : (acts.take k).foldlM step s = some t) : P t := by
  induction acts generalizing s k with
  | nil =>
    rw [List.take_nil] at ht
    cases ht
    exact hs
  | cons a acts ih =>
    cases k with
    | zero =>
      cases ht
      exact hs
    | succ k =>
      rw [List.take_succ_cons, List.foldlM_cons] at ht
      obtain ⟨u, hu, ht⟩ := Option.bind_eq_some_iff.mp ht
      by_cases hP : P u
      · refine ih hP ?_ k ht
        rwa [List.foldlM_cons, hu, Option.filter_some, decide_eq_true hP] at h
      · rw [List.foldlM_cons, hu, Option.filter_some, decide_eq_false hP] at h
        cases h

section Noting

variable {τ : Type} {start : τ} {note : σ → τ → α → σ → τ}

/-- The runs of `M` beside notes: `note s n a s'` is what the step from `s` to `s'`
makes of `n`. -/
def noting (M : System σ α) (start : τ) (note : σ → τ → α → σ → τ) : System (σ × τ) α where
  init x := M.init x.1 ∧ x.2 = start
  step x a y := M.step x.1 a y.1 ∧ y.2 = note x.1 x.2 a y.1

/-- A step function whose steps take the notes. -/
theorem Reach.noting_of {s₀ : σ} {step : σ → α → Option σ} {ok : σ × τ → α → Prop} {x : σ × τ}
    (h : (ofStep (s₀, start) fun y a => (step y.1 a).map fun s => (s, note y.1 y.2 a s)).Reach
      ok x) : ((ofStep s₀ step).noting start note).Reach ok x := by
  induction h with
  | init h =>
    cases h
    exact .init ⟨rfl, rfl⟩
  | step _ hok hs ih =>
    obtain ⟨s, hs', rfl⟩ := Option.map_eq_some_iff.mp hs
    exact .step ih hok ⟨hs', rfl⟩

/-- The notes of a list of moves, taken from the start. -/
theorem ofStep_noting {s₀ : σ} {step : σ → α → Option σ} (acts : List α) {x : σ × τ}
    (h : acts.foldlM (fun y a => (step y.1 a).map fun s => (s, note y.1 y.2 a s)) (s₀, start) =
      some x) : ((ofStep s₀ step).noting start note).Reachable x :=
  Reach.noting_of (ofStep_reachable acts h)

end Noting

end System

end CoroUtil.General
