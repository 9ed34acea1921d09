import CoroUtil.General.Gate
import CoroUtil.MpscUnbounded.Delivery

/-!
# The queue as a gate

A producer passes the closed test of `get_write_ticket` the way a call passes a
gate, and `close()` closes it.  `traced` runs the queue beside the trace of the gate
and the list of what was posted by calls that began before any `close()` had
returned.  The tickets may wrap as often as they like.
-/

namespace CoroUtil.MpscUnbounded

open CoroUtil.Blocks CoroUtil.General

variable {V : Type} {o : Offsets} {cfg : Config} {s s' : State V} {p : Tid} {a : Act V}

/-- The closed test of `get_write_ticket`. -/
def Config.gate (cfg : Config) (o : Offsets) : Gate where
  reg := cfg.reg o
  reg_add a n := by
    cases o
    · exact word_word_add
    · rfl
  rejects cutoff idx := cfg.less o cutoff (cfg.reg o (1 + idx))
  mayFail := false

def Pc.phase : Pc V → Gate.Phase
  | idle => .out
  | fetchTicket w => .begun w.count
  | loadClosed _ idx => .looks idx
  | spinReady _ idx => .waits idx
  | loadClosedAt _ idx => .tests idx
  | loadHint (.put _) idx | hintOffset (.put _) idx _ | loadWriteBlock (.put _) idx
  | assertWriteBlock (.put _) idx _ | assertObserved _ idx _ | find (.put _) idx _ _
  | findEnd _ idx _ _ _ | hintCurrent _ idx _ _ _ | hintTarget _ idx _ _ _ _
  | hintCas _ idx _ _ _ | emplace _ idx _ _ | publish _ idx _ _ | resumeConsumer _ idx _ _ _
  | nextBlock _ idx _ _ => .inside idx
  | closeCas => .tries
  | closeTicket => .won
  | storeClosedAt c => .stores c
  | storeReady c => .readies c
  | loadHint .close _ | hintOffset .close _ _ | loadWriteBlock .close _
  | assertWriteBlock .close _ _ | find .close _ _ _ | exchangeClosed .. | elemNull ..
  | closeResume .. => .leaves

def State.view (s : State V) : Gate.View where
  count := s.writeOffset
  closed := s.closed
  ready := s.closedReady
  cutoff := s.writeClosedAt
  phase p := (s.task p).phase
  closes := s.closes
  results := s.posts.map fun x => (x.task, x.ok)

/-- A run beside the trace of the gate; `early` is what was passed by the calls that
began before any `close()` had returned. -/
structure Traced (V : Type) where
  state : State V
  trace : Gate.Trace
  early : List (Put V)

def Act.move : Act V → Gate.Move
  | post p _ | bulk p _ _ | close p => .begin p
  | task p _ => .step p
  | pull _ | empty | consumer _ | release => .other

def Act.put : Act V → List (Put V)
  | post _ v => [.post v]
  | bulk _ items count => [.bulk items count]
  | close _ | task _ _ | pull _ | empty | consumer _ | release => []

def tracedStep (o : Offsets) (cfg : Config) (x : Traced V) (a : Act V) : Option (Traced V) :=
  (step o cfg x.state a).map fun s =>
    { state := s
      trace := x.trace.next x.state.view s.view a.move
      early := if x.state.closes = 0 then x.early ++ a.put else x.early }

def traced (V : Type) (o : Offsets) (cfg : Config) : System (Traced V) (Act V) :=
  .ofStep ⟨.init, .init, []⟩ (tracedStep o cfg)

/-! ## The steps of a task -/

theorem State.view_setTask {pc : Pc V} : (s.setTask p pc).view = s.view.set p pc.phase := by
  have hphase : (fun q => ((s.setTask p pc).task q).phase) =
      Function.update (fun q => (s.task q).phase) p pc.phase :=
    Function.comp_update Pc.phase s.task p pc
  rw [view, hphase]
  rfl

theorem State.view_returnPost {w : Put V} {idx : Nat} {ok : Bool} :
    (s.returnPost p w idx ok).view =
      { s.view with results := s.view.results ++ [(p, ok)] }.set p .out := by
  have hview : (State.setTask { s with posts := s.posts ++ [⟨p, idx, w, ok⟩] } p .idle).view =
      (State.view { s with posts := s.posts ++ [⟨p, idx, w, ok⟩] }).set p .out := view_setTask
  refine Eq.trans hview ?_
  rw [view, List.map_append]
  rfl

theorem State.view_returnClose :
    (s.returnClose p).view = { s.view with closes := s.view.closes + 1 }.set p .out := by
  have hview : (State.setTask { s with closes := s.closes + 1 } p .idle).view =
      (State.view { s with closes := s.closes + 1 }).set p .out := view_setTask
  exact hview

theorem State.view_resumeConsumer {n : Nat} : (s.resumeConsumer n).view = s.view := by
  rw [resumeConsumer]
  split
  · split <;> rfl
  · rfl

theorem step_inside {G : Gate} {r : Nat} (hp : (s.task p).phase = .inside r)
    (h : s'.view = s.view.set p (.inside r)) : Gate.Step G p s.view s'.view := by
  rw [h, Gate.View.set_eq hp]
  exact .stay (.inl ⟨r, .inr hp⟩)

theorem step_leaves {G : Gate} (hp : (s.task p).phase = .leaves)
    (h : s'.view = s.view.set p .leaves) : Gate.Step G p s.view s'.view := by
  rw [h, Gate.View.set_eq hp]
  exact .stay (.inr hp)

/-- **The steps of a task are steps at the gate.** -/
theorem State.taskStep_gate {spurious : Bool} (h : s.taskStep o cfg p spurious = some s') :
    Gate.Step (cfg.gate o) p s.view s'.view := by
  -- what does not touch the view, and then a return or the next place of the task
  have hinside : ∀ {t : State V} {pc : Pc V} {r : Nat}, some (t.setTask p pc) = some s' →
      t.view = s.view → (s.task p).phase = .inside r → pc.phase = .inside r →
      Gate.Step (cfg.gate o) p s.view s'.view := fun hs ht hp hpc => by
    cases hs
    exact step_inside hp (by rw [view_setTask, ht, hpc])
  have hleaves : ∀ {t : State V} {pc : Pc V}, some (t.setTask p pc) = some s' →
      t.view = s.view → (s.task p).phase = .leaves → pc.phase = .leaves →
      Gate.Step (cfg.gate o) p s.view s'.view := fun hs ht hp hpc => by
    cases hs
    exact step_leaves hp (by rw [view_setTask, ht, hpc])
  have hreturn : ∀ {t : State V} {w : Put V} {r : Nat}, some (t.returnPost p w r true) = some s' →
      t.view = s.view → (s.task p).phase = .inside r →
      Gate.Step (cfg.gate o) p s.view s'.view := fun hs ht hp => by
    cases hs
    rw [view_returnPost, ht]
    exact .done hp (.inl rfl)
  have hitem : ∀ {t : State V} {w : Put V} {r k b : Nat},
      some (t.afterItem o cfg p w r k b) = some s' → t.view = s.view →
      (s.task p).phase = .inside r → Gate.Step (cfg.gate o) p s.view s'.view := fun hs ht hp => by
    rw [afterItem] at hs
    split at hs
    · exact hreturn hs ht hp
    · exact hinside hs ht hp rfl
  have hwrite : ∀ {t : State V} {w : Put V} {r k b : Nat},
      some (t.afterWrite o cfg p w r k b) = some s' → t.view = s.view →
      (s.task p).phase = .inside r →
      Gate.Step (cfg.gate o) p s.view s'.view := fun {t w r k b} hs ht hp => by
    cases w with
    | post v => exact hreturn hs ht hp
    | bulk items count =>
      rw [afterWrite] at hs
      split at hs
      · exact hinside hs ht hp rfl
      · exact hitem hs ht hp
  have hclose : ∀ {t : State V}, some (t.returnClose p) = some s' → t.view = s.view →
      (s.task p).phase = .leaves → Gate.Step (cfg.gate o) p s.view s'.view := fun hs ht hp => by
    cases hs
    rw [view_returnClose, ht]
    exact .leave hp
  cases hpc : s.task p
  all_goals
    rw [State.taskStep, hpc] at h
    rw [hpc] at hinside hleaves hreturn hitem hwrite hclose
    dsimp only at h
    have hphase := congrArg Pc.phase hpc
  case idle => cases h
  case fetchTicket w =>
    cases h
    rw [view_setTask]
    exact .fetch hphase
  case loadClosed w idx =>
    cases h
    rw [view_setTask]
    split
    · next hc => exact .halt hphase hc
    · next hc => exact .pass hphase (Bool.not_eq_true _ ▸ hc)
  case spinReady w idx =>
    cases h
    rw [view_setTask]
    split
    · next hr => exact .ready hphase hr
    · rw [Gate.View.set_eq hphase]
      exact .stay (.inl ⟨idx, .inl hphase⟩)
  case loadClosedAt w idx =>
    split at h
    · next hr =>
      cases h
      rw [view_returnPost]
      exact .reject hphase hr
    · next hr =>
      cases h
      rw [view_setTask]
      exact .enter hphase (Bool.not_eq_true _ ▸ hr)
  case loadHint j idx | loadWriteBlock j idx =>
    cases j
    · exact hinside h rfl rfl rfl
    · exact hleaves h rfl rfl rfl
  case hintOffset j idx b =>
    cases j
    · split at h
      · exact hinside h rfl rfl rfl
      · exact hinside h rfl rfl rfl
    · split at h
      · exact hleaves h rfl rfl rfl
      · exact hleaves h rfl rfl rfl
  case assertWriteBlock j idx b =>
    cases j
    · exact hinside h rfl rfl rfl
    · exact hleaves h rfl rfl rfl
  case assertObserved w idx b => exact hinside h rfl rfl rfl
  case find j idx observed f =>
    generalize f.step o cfg.toLayout idx s.heap = x at h
    obtain ⟨heap, ok, f'⟩ := x
    rcases j with (v | ⟨items, count⟩) | - <;> cases f'
    all_goals
      first
      | exact hinside h rfl rfl rfl
      | exact hleaves h rfl rfl rfl
  case findEnd w idx observed b f =>
    generalize f.step o cfg.toLayout _ s.heap = x at h
    obtain ⟨heap, ok, f'⟩ := x
    cases f' <;> exact hinside h rfl rfl rfl
  case hintCurrent w idx b current target => exact hinside h rfl rfl rfl
  case hintTarget w idx b current target offset =>
    split at h <;> exact hinside h rfl rfl rfl
  case hintCas w idx b current target =>
    split at h
    · exact hinside h rfl rfl rfl
    · exact hinside h rfl rfl rfl
  case emplace w idx k b => exact hinside h rfl rfl rfl
  case publish w idx k b =>
    split at h
    · split at h
      · exact hwrite h rfl rfl
      · exact hinside h rfl rfl rfl
      · exact hwrite h rfl rfl
    · exact hwrite h rfl rfl
  case resumeConsumer w idx k b frame => exact hwrite h view_resumeConsumer rfl
  case nextBlock w idx k b =>
    split at h
    · exact hitem h rfl rfl
    · split at h
      · exact hreturn h rfl rfl
      · cases h
        rw [view_setTask]
        exact .drop hphase
  case closeCas =>
    split at h
    · next hc =>
      cases h
      rw [view_returnClose]
      exact .lose hphase hc
    · next hc =>
      cases h
      rw [view_setTask]
      exact .win hphase (Bool.not_eq_true _ ▸ hc)
  case closeTicket =>
    cases h
    rw [view_setTask]
    exact .cut hphase
  case storeClosedAt c =>
    cases h
    rw [view_setTask]
    exact .store hphase
  case storeReady c =>
    cases h
    rw [view_setTask]
    exact .publish hphase
  case exchangeClosed idx b =>
    split at h
    · exact hleaves h rfl rfl rfl
    · exact hclose h rfl rfl
  case elemNull idx frame =>
    have hset : (s.setTask p (.closeResume idx frame)).view = s.view.set p .leaves := view_setTask
    split at h
    · split at h <;> cases h <;> exact step_leaves hphase hset
    · cases h
      exact step_leaves hphase hset
  case closeResume idx frame => exact hclose h view_resumeConsumer rfl

end CoroUtil.MpscUnbounded
