import CoroUtil.MpscUnbounded.Wrap

/-!
# Counting the tickets

`write_offset` does not say how many tickets have been taken once it has wrapped.
`counted` runs the queue beside a counter, and while fewer tickets than half the
range of a register have been taken, a run on registers is a run on natural
numbers with the same history: `counted_wrapping`.
-/

namespace CoroUtil.MpscUnbounded

open CoroUtil.Blocks CoroUtil.General

variable {V : Type} {cfg : Config} {s s' s'' : State V} {m : Map V} {p : Tid} {a : Act V} {n : Nat}
  {o : Offsets}

/-! ## What the tasks publish -/

/-- The fields behind the closed test. -/
structure Signals where
  writeOffset : Nat
  closed : Bool
  closedReady : Bool
  writeClosedAt : Nat

def State.signals (s : State V) : Signals :=
  ⟨s.writeOffset, s.closed, s.closedReady, s.writeClosedAt⟩

/-- What a step of a task does to them. -/
def Signals.step (o : Offsets) (cfg : Config) (x : Signals) : Pc V → Signals
  | .fetchTicket w => { x with writeOffset := cfg.reg o (x.writeOffset + w.count) }
  | .closeCas => { x with closed := true }
  | .closeTicket => { x with writeOffset := cfg.reg o (x.writeOffset + 1) }
  | .storeClosedAt idx => { x with writeClosedAt := idx }
  | .storeReady _ => { x with closedReady := true }
  | _ => x

/-- A step of task `p` after which the closed test, the other tasks and the history
of the consumer are as before. -/
structure Quiet (p : Tid) (s s' : State V) : Prop where
  signals : s'.signals = s.signals
  closes : s'.closes = s.closes
  other : ∀ q, q ≠ p → s'.task q = s.task q
  pulls : s'.pulls = s.pulls

theorem Quiet.comp (h' : Quiet p s' s'') (h : Quiet p s s') : Quiet p s s'' where
  signals := h'.signals.trans h.signals
  closes := h'.closes.trans h.closes
  other q hq := (h'.other q hq).trans (h.other q hq)
  pulls := h'.pulls.trans h.pulls

theorem Quiet.setTask {pc : Pc V} : Quiet p s (s.setTask p pc) :=
  ⟨rfl, rfl, fun _ hq => Function.update_of_ne hq .., rfl⟩

theorem Quiet.returnPost {w : Put V} {idx : Nat} {ok : Bool} :
    Quiet p s (s.returnPost p w idx ok) :=
  ⟨rfl, rfl, fun _ hq => Function.update_of_ne hq .., rfl⟩

theorem Quiet.resumeConsumer : Quiet p s (s.resumeConsumer n) := by
  rw [State.resumeConsumer]
  split
  · split <;> exact ⟨rfl, rfl, fun _ _ => rfl, rfl⟩
  · exact ⟨rfl, rfl, fun _ _ => rfl, rfl⟩

theorem Quiet.afterItem {w : Put V} {idx k b : Nat} :
    Quiet p s (s.afterItem o cfg p w idx k b) := by
  rw [State.afterItem]
  split
  · exact .returnPost
  · exact .setTask

theorem Quiet.afterWrite {w : Put V} {idx k b : Nat} :
    Quiet p s (s.afterWrite o cfg p w idx k b) := by
  cases w with
  | post v => exact .returnPost
  | bulk items count =>
    rw [State.afterWrite]
    split
    · exact .setTask
    · exact .afterItem

theorem Quiet.afterStart {j : Job V} {idx b : Nat} : Quiet p s (s.afterStart p j idx b) := by
  cases j <;> exact .setTask

theorem Quiet.afterFind {j : Job V} {idx observed b : Nat} :
    Quiet p s (s.afterFind p j idx observed b) := by
  rcases j with (v | ⟨items, count⟩) | - <;> exact .setTask

/-- The steps at which `close()` returns. -/
def Pc.Returns (s : State V) : Pc V → Prop
  | .closeCas => s.closed = true
  | .exchangeClosed .. | .closeResume .. => True
  | _ => False

/-- What the others see of a step of task `p`. -/
structure Seen (o : Offsets) (cfg : Config) (p : Tid) (s s' : State V) : Prop where
  signals : s'.signals = s.signals.step o cfg (s.task p)
  closes : s'.closes = s.closes ∨ s'.closes = s.closes + 1 ∧ (s.task p).Returns s
  other : ∀ q, q ≠ p → s'.task q = s.task q
  pulls : s'.pulls = s.pulls

theorem Quiet.seen (h : Quiet p s s') (hpc : s.signals.step o cfg (s.task p) = s.signals) :
    Seen o cfg p s s' := ⟨h.signals.trans hpc.symm, .inl h.closes, h.other, h.pulls⟩

/-- **The steps of a task.** -/
theorem State.taskStep_seen {spurious : Bool} (h : s.taskStep o cfg p spurious = some s') :
    Seen o cfg p s s' := by
  have hquiet : ∀ {t}, some t = some s' → Quiet p s t →
      s.signals.step o cfg (s.task p) = s.signals → Seen o cfg p s s' := fun ht hq hpc => by
    cases ht
    exact hq.seen hpc
  have hother : ∀ {t : State V} {pc : Pc V} q, q ≠ p → (t.setTask p pc).task q = t.task q :=
    fun _ hq => Function.update_of_ne hq ..
  cases hpc : s.task p
  all_goals
    rw [State.taskStep, hpc] at h
    rw [hpc] at hquiet
    dsimp only at h
  case idle => cases h
  case fetchTicket w | closeTicket | storeClosedAt idx | storeReady idx =>
    cases h
    exact ⟨by rw [hpc]; rfl, .inl rfl, hother, rfl⟩
  case find j idx observed f =>
    generalize f.step o cfg.toLayout idx s.heap = x at h
    obtain ⟨heap, ok, f'⟩ := x
    have hheap : Quiet p s ({ s with heap }.check ok) := ⟨rfl, rfl, fun _ _ => rfl, rfl⟩
    cases f' with
    | found b => exact hquiet h (.comp .afterFind hheap) rfl
    | _ => exact hquiet h (.comp .setTask hheap) rfl
  case findEnd w idx observed b f =>
    generalize f.step o cfg.toLayout _ s.heap = x at h
    obtain ⟨heap, ok, f'⟩ := x
    have hheap : Quiet p s ({ s with heap }.check ok) := ⟨rfl, rfl, fun _ _ => rfl, rfl⟩
    cases f' <;> exact hquiet h (.comp .setTask hheap) rfl
  case hintOffset j idx b =>
    split at h
    · exact hquiet h .afterStart rfl
    · exact hquiet h .setTask rfl
  case assertWriteBlock j idx b =>
    exact hquiet h (Quiet.comp .afterStart ⟨rfl, rfl, fun _ _ => rfl, rfl⟩) rfl
  case publish w idx k b =>
    have hflags : ∀ x, Quiet p s ((s.setFlags cfg b (cfg.reg o (idx + k)) .data).check x) :=
      fun _ => ⟨rfl, rfl, fun _ _ => rfl, rfl⟩
    have hflags' : Quiet p s (s.setFlags cfg b (cfg.reg o (idx + k)) .data) :=
      ⟨rfl, rfl, fun _ _ => rfl, rfl⟩
    split at h
    · split at h
      · exact hquiet h (.comp .afterWrite hflags') rfl
      · exact hquiet h (.comp .setTask hflags') rfl
      · exact hquiet h (.comp .afterWrite (hflags false)) rfl
    · exact hquiet h (.comp .afterWrite hflags') rfl
  case resumeConsumer w idx k b frame =>
    exact hquiet h (Quiet.comp .afterWrite .resumeConsumer) rfl
  case nextBlock w idx k b =>
    split at h
    · exact hquiet h .afterItem rfl
    · split at h
      · exact hquiet h (Quiet.comp .returnPost ⟨rfl, rfl, fun _ _ => rfl, rfl⟩) rfl
      · exact hquiet h (Quiet.comp .setTask ⟨rfl, rfl, fun _ _ => rfl, rfl⟩) rfl
  case closeResume idx frame =>
    cases h
    have hq := Quiet.resumeConsumer (p := p) (s := s) (n := frame)
    refine ⟨by rw [hpc]; exact hq.signals, .inr ⟨congrArg (· + 1) hq.closes, by rw [hpc]; trivial⟩,
      fun q hqp => (hother q hqp).trans (hq.other q hqp), hq.pulls⟩
  case elemNull idx frame =>
    split at h
    · split at h
      · exact hquiet h ⟨rfl, rfl, fun _ hq => Function.update_of_ne hq .., rfl⟩ rfl
      · exact hquiet h ⟨rfl, rfl, fun _ hq => Function.update_of_ne hq .., rfl⟩ rfl
    · exact hquiet h ⟨rfl, rfl, fun _ hq => Function.update_of_ne hq .., rfl⟩ rfl
  case exchangeClosed idx b =>
    split at h
    · exact hquiet h (Quiet.comp .setTask ⟨rfl, rfl, fun _ _ => rfl, rfl⟩) rfl
    · cases h
      exact ⟨by rw [hpc]; rfl, .inr ⟨rfl, by rw [hpc]; trivial⟩, hother, rfl⟩
  case closeCas =>
    split at h <;> cases h
    · next hc =>
      refine ⟨?_, .inr ⟨rfl, by rw [hpc]; exact hc⟩, hother, rfl⟩
      rw [hpc]
      simp [Signals.step, State.signals, State.returnClose, hc]
    · exact ⟨by rw [hpc]; rfl, .inl rfl, hother, rfl⟩
  case loadClosedAt w idx =>
    split at h
    · exact hquiet h .returnPost rfl
    · exact hquiet h .setTask rfl
  case hintCas w idx b current target =>
    split at h
    · exact hquiet h (Quiet.comp .setTask ⟨rfl, rfl, fun _ _ => rfl, rfl⟩) rfl
    · exact hquiet h .setTask rfl
  case emplace w idx k b =>
    exact hquiet h (Quiet.comp .setTask ⟨rfl, rfl, fun _ _ => rfl, rfl⟩) rfl
  case assertObserved w idx b =>
    exact hquiet h (Quiet.comp .setTask ⟨rfl, rfl, fun _ _ => rfl, rfl⟩) rfl
  all_goals exact hquiet h .setTask rfl

/-! ## What only the tasks write -/

structure Producers (V : Type) where
  signals : Signals
  task : Tid → Pc V
  posts : List (Post V)
  closes : Nat

def State.producers (s : State V) : Producers V :=
  ⟨s.signals, s.task, s.posts, s.closes⟩

theorem State.producers_finishLast {b : Nat} :
    (s.finishLast o cfg b).producers = s.producers := by
  rw [finishLast]
  split
  · split <;> rfl
  · rfl

theorem State.producers_startReclaim {b : Nat} :
    (s.startReclaim o cfg b).producers = s.producers := by
  rw [startReclaim]
  split
  · exact producers_finishLast
  · rfl

theorem State.producers_tryReclaimBlocks {b : Nat} :
    (s.tryReclaimBlocks o cfg b).producers = s.producers := by
  rw [tryReclaimBlocks]
  split
  · split
    · exact producers_startReclaim
    · rfl
  · exact producers_startReclaim

theorem State.producers_handOut {idx b : Nat} :
    (s.handOut cfg idx b).producers = s.producers := by
  rw [handOut]
  split <;> rfl

theorem State.consumerStep_producers {spurious : Bool}
    (h : s.consumerStep o cfg spurious = some s') : s'.producers = s.producers := by
  cases hpc : s.consumer
  all_goals
    rw [State.consumerStep, hpc] at h
    dsimp only at h
  case idle | holding | suspended => cases h
  case find k idx f =>
    generalize f.step o cfg.toLayout idx s.heap = x at h
    obtain ⟨heap, ok, f'⟩ := x
    cases f' <;> cases h <;> rfl
  case emptyFind scope f =>
    generalize f.step o cfg.toLayout s.readOffset s.heap = x at h
    obtain ⟨heap, ok, f'⟩ := x
    cases f' <;> cases h <;> rfl
  case poll k idx b =>
    split at h <;> cases h
    · exact producers_handOut
    all_goals rfl
  case tryWait idx b =>
    split at h <;> cases h
    · rfl
    · rfl
    · exact producers_handOut
  case resumed idx b e =>
    split at h <;> cases h
    · rfl
    · exact producers_handOut
  case reclaim b r last =>
    generalize r.step o cfg.toLayout s.heap s.tailBlock = x at h
    obtain ⟨heap, tail, ok, r'⟩ := x
    cases r' with
    | done =>
      dsimp only at h
      split at h <;> cases h
      · rfl
      · exact producers_startReclaim
    | _ =>
      cases h
      rfl
  case oldOffset b =>
    split at h <;> cases h
    · rfl
    · exact producers_finishLast
  case startCas b current => split at h <;> cases h <;> rfl
  case loadCutoff b =>
    cases h
    exact producers_finishLast
  case emptyPoll scope b =>
    cases h
    cases scope <;> rfl
  all_goals
    cases h
    rfl

theorem State.release_producers (h : s.release o cfg = some s') : s'.producers = s.producers := by
  rw [State.release] at h
  split at h
  · dsimp only at h
    split at h <;> cases h
    · exact State.producers_tryReclaimBlocks
    · rfl
  · cases h

/-- What a task does first. -/
def Pc.Begins (pc : Pc V) : Prop := (∃ w, 0 < w.count ∧ pc = .fetchTicket w) ∨ pc = .closeCas

/-- The tickets that a move takes. -/
def State.takes (s : State V) : Act V → Nat
  | .task p _ =>
    match s.task p with
    | .fetchTicket w => w.count
    | .closeTicket => 1
    | _ => 0
  | .post .. | .bulk .. | .close _ | .pull _ | .empty | .consumer _ | .release => 0

def Act.byConsumer : Act V → Bool
  | pull _ | empty | consumer _ | release => true
  | post .. | bulk .. | close _ | task .. => false

/-- The consumer leaves alone what the tasks write. -/
theorem step_producers (h : step o cfg s a = some s') (ha : a.byConsumer = true) :
    s'.producers = s.producers := by
  cases a with
  | task | post | bulk | close => cases ha
  | consumer spurious => exact State.consumerStep_producers h
  | release => exact State.release_producers h
  | pull k =>
    unfold step at h
    dsimp only at h
    split at h
    · cases k with
      | pull =>
        dsimp only at h
        split at h <;> cases h
        rfl
      | tryPull =>
        cases h
        rfl
    · cases h
  | empty =>
    replace h : s.callEmpty = some s' := h
    rw [State.callEmpty] at h
    split at h <;> cases h <;> rfl

/-- A move is a step of a task, the start of one of its calls, or it leaves alone
what the tasks write. -/
theorem step_cases (h : step o cfg s a = some s') :
    (∃ p spurious, a = .task p spurious ∧ s.taskStep o cfg p spurious = some s') ∨
      s.takes a = 0 ∧ ((∃ p pc, s.task p = .idle ∧ pc.Begins ∧ s' = s.setTask p pc) ∨
        s'.producers = s.producers) := by
  cases a with
  | task p spurious => exact .inl ⟨p, spurious, rfl, h⟩
  | post p v =>
    rw [step] at h
    split at h <;> cases h
    next hpc => exact .inr ⟨rfl, .inl ⟨p, _, hpc, .inl ⟨.post v, Nat.one_pos, rfl⟩, rfl⟩⟩
  | close p =>
    rw [step] at h
    split at h <;> cases h
    next hpc => exact .inr ⟨rfl, .inl ⟨p, _, hpc, .inr rfl, rfl⟩⟩
  | bulk p items count =>
    rw [step] at h
    split at h
    · next hpc =>
      split at h <;> cases h
      split
      · exact .inr ⟨rfl, .inr rfl⟩
      · next hne =>
        exact .inr ⟨rfl, .inl
          ⟨p, _, hpc, .inl ⟨.bulk items count, Nat.pos_of_ne_zero hne, rfl⟩, rfl⟩⟩
    · cases h
  | consumer | release | pull | empty => exact .inr ⟨rfl, .inr (step_producers h rfl)⟩

/-! ## Counting -/

/-- A move of the queue beside a counter of the tickets. -/
def countedStep (o : Offsets) (cfg : Config) (x : State V × Nat) (a : Act V) :
    Option (State V × Nat) :=
  (step o cfg x.1 a).map fun s' => (s', x.2 + x.1.takes a)

def counted (V : Type) (o : Offsets) (cfg : Config) : System (State V × Nat) (Act V) :=
  .ofStep (.init, 0) (countedStep o cfg)

/-- On natural numbers `write_offset` counts. -/
theorem step_writeOffset (h : step .natural cfg s a = some s') :
    s'.writeOffset = s.writeOffset + s.takes a := by
  rcases step_cases h with ⟨p, spurious, rfl, hs⟩ | ⟨ht, ⟨p, pc, -, -, rfl⟩ | hp⟩
  · have hw := congrArg Signals.writeOffset (State.taskStep_seen hs).signals
    rw [State.takes]
    cases hpc : s.task p <;> rw [hpc] at hw <;> exact hw
  · rw [ht]
    rfl
  · rw [ht]
    exact congrArg (fun x => x.signals.writeOffset) hp

theorem State.takes_wrap : (s.wrap cfg.toLayout).takes a = s.takes a := by
  cases a with
  | task p spurious =>
    rw [State.takes, State.takes, State.task_wrap]
    cases s.task p <;> rfl
  | _ => rfl

variable {x : State V × Nat}

/-- A run on registers that takes fewer tickets than half their range is a run on
natural numbers. -/
theorem counted_wrapping (hB : 1 < cfg.blockSize) (h : (counted V .wrapping cfg).Reachable x)
    (hx : x.2 < 2 ^ (cfg.bits - 1)) : ∃ s, (system V .natural cfg).Reachable s ∧
      x = (s.wrap cfg.toLayout, s.writeOffset) := by
  refine System.Reach.invariant_under (B := fun x => x.2 < 2 ^ (cfg.bits - 1))
    (I := fun x => ∃ s, (system V .natural cfg).Reachable s ∧
      x = (s.wrap cfg.toLayout, s.writeOffset)) ?_ ?_ ?_ h hx
  · rintro x a y - hs hy
    obtain ⟨s', -, rfl⟩ := Option.map_eq_some_iff.mp hs
    exact (Nat.le_add_right ..).trans_lt hy
  · rintro x rfl
    exact ⟨.init, .init rfl, by rw [State.wrap_init]; rfl⟩
  · rintro x a y ⟨s, hr, rfl⟩ hx - - hs
    obtain ⟨m, hm⟩ := reachable_inv hr
    have hn := Near.of_tickets hB hx hm
    obtain ⟨t, ht, rfl⟩ := Option.map_eq_some_iff.mp hs
    rw [hn.step hm] at ht
    obtain ⟨s', hs', rfl⟩ := Option.map_eq_some_iff.mp ht
    refine ⟨s', hr.step hs', ?_⟩
    rw [step_writeOffset hs', State.takes_wrap]

end CoroUtil.MpscUnbounded
