import CoroUtil.General.Gate
import CoroUtil.MpscBounded.Order

/-!
# The queue as a gate

A producer passes the closed test of `get_write_ticket` the way a call passes a
gate, and `close()` closes it; a push that has passed may still fail at a slot that
carries the sentinel.  `traced` runs the queue beside the trace of the gate and the
list of what was pushed by calls that began before any `close()` had returned.  The
tickets may pass the range of a register as often as they like.
-/

namespace CoroUtil.MpscBounded

open CoroUtil.General

variable {V : Type} {cfg : Config} {s s' : State V} {p : Tid} {a : Act V} {P Q : V → Prop}

/-- The closed test of `get_write_ticket`. -/
def Config.gate (cfg : Config) : Gate where
  reg n := n
  reg_add _ _ := rfl
  rejects cutoff idx := !circularLessThan cfg.bits idx cutoff
  mayFail := true

def Pc.phase : Pc V → Gate.Phase
  | idle => .out
  | fetchTicket _ => .begun 1
  | loadClosed _ idx => .looks idx
  | spinReady _ idx => .waits idx
  | loadClosedAt _ idx => .tests idx
  | claimLoad _ idx | claimCas _ idx _ | parkLoad _ idx | parkCas _ idx _ | suspended _ idx
  | emplace _ idx | publishLoad _ idx | publishCas _ idx _ | takeConsumer _ idx
  | resumeConsumer _ idx => .inside idx
  | closeCas => .tries
  | closeTicket => .won
  | storeClosedAt c => .stores c
  | storeReady c => .readies c
  | fetchOr _ | loadWaitIdx .. | closeArmedCas .. | closeFreeCas .. | closeTakeConsumer _
  | closeResume _ => .leaves

def State.view (s : State V) : Gate.View where
  count := s.writeOffset
  closed := s.closed
  ready := s.closedReady
  cutoff := s.writeClosedAt
  phase p := (s.task p).phase
  closes := s.closes
  results := s.pushes.map fun x => (x.task, x.ok)

/-- A run beside the trace of the gate; `early` is what was pushed by the calls that
began before any `close()` had returned. -/
structure Traced (V : Type) where
  state : State V
  trace : Gate.Trace
  early : List V

def Act.move : Act V → Gate.Move
  | push p _ | close p => .begin p
  | task p _ => .step p
  | pull _ | consumer _ | release => .other

def Act.value : Act V → List V
  | push _ v => [v]
  | close _ | task _ _ | pull _ | consumer _ | release => []

def tracedStep (cfg : Config) (x : Traced V) (a : Act V) : Option (Traced V) :=
  (step cfg x.state a).map fun s =>
    { state := s
      trace := x.trace.next x.state.view s.view a.move
      early := if x.state.closes = 0 then x.early ++ a.value else x.early }

def traced (V : Type) (cfg : Config) : System (Traced V) (Act V) :=
  .ofStep ⟨.init, .init, []⟩ (tracedStep cfg)

/-! ## The steps of a task -/

theorem State.view_setTask {pc : Pc V} : (s.setTask p pc).view = s.view.set p pc.phase := by
  have hphase : (fun q => ((s.setTask p pc).task q).phase) =
      Function.update (fun q => (s.task q).phase) p pc.phase :=
    Function.comp_update Pc.phase s.task p pc
  rw [view, hphase]
  rfl

theorem State.view_returnPush {v : V} {idx : Nat} {ok : Bool} :
    (s.returnPush p v idx ok).view =
      { s.view with results := s.view.results ++ [(p, ok)] }.set p .out := by
  have hview : (State.setTask { s with pushes := s.pushes ++ [⟨p, idx, v, ok⟩] } p .idle).view =
      (State.view { s with pushes := s.pushes ++ [⟨p, idx, v, ok⟩] }).set p .out := view_setTask
  refine Eq.trans hview ?_
  rw [view, List.map_append]
  rfl

theorem State.view_returnClose :
    (s.returnClose p).view = { s.view with closes := s.view.closes + 1 }.set p .out := by
  have hview : (State.setTask { s with closes := s.closes + 1 } p .idle).view =
      (State.view { s with closes := s.closes + 1 }).set p .out := view_setTask
  exact hview

theorem State.view_resumeConsumer : s.resumeConsumer.view = s.view := by
  rw [resumeConsumer]
  split <;> rfl

theorem State.view_resumeProducer : (s.resumeProducer p).view = s.view := by
  rw [resumeProducer]
  split
  · next v idx hpc =>
    have hp : s.view.phase p = .inside idx := congrArg Pc.phase hpc
    rw [view_setTask]
    exact Gate.View.set_eq hp
  · rfl

/-- **The steps of a task are steps at the gate.** -/
theorem State.taskStep_gate {spurious : Bool} (h : s.taskStep cfg p spurious = some s') :
    Gate.Step cfg.gate p s.view s'.view := by
  -- what does not touch the view, and then a return or the next place of the task
  have hinside : ∀ {t : State V} {pc : Pc V} {r : Nat}, some (t.setTask p pc) = some s' →
      t.view = s.view → (s.task p).phase = .inside r → pc.phase = .inside r →
      Gate.Step cfg.gate p s.view s'.view := fun {t pc r} hs ht hp hpc => by
    cases hs
    rw [view_setTask, ht, hpc, Gate.View.set_eq hp]
    exact .stay (.inl ⟨r, .inr hp⟩)
  have hleaves : ∀ {t : State V} {pc : Pc V}, some (t.setTask p pc) = some s' →
      t.view = s.view → (s.task p).phase = .leaves → pc.phase = .leaves →
      Gate.Step cfg.gate p s.view s'.view := fun hs ht hp hpc => by
    cases hs
    rw [view_setTask, ht, hpc, Gate.View.set_eq hp]
    exact .stay (.inr hp)
  have hreturn : ∀ {t : State V} {v : V} {r : Nat} {ok : Bool},
      some (t.returnPush p v r ok) = some s' → t.view = s.view → (s.task p).phase = .inside r →
      Gate.Step cfg.gate p s.view s'.view := fun hs ht hp => by
    cases hs
    rw [view_returnPush, ht]
    exact .done hp (.inr rfl)
  have hclose : ∀ {t : State V}, some (t.returnClose p) = some s' → t.view = s.view →
      (s.task p).phase = .leaves → Gate.Step cfg.gate p s.view s'.view := fun hs ht hp => by
    cases hs
    rw [view_returnClose, ht]
    exact .leave hp
  have hclaim : ∀ {v : V} {r : Nat} {cur : Flags}, some (s.afterClaimLoad p v r cur) = some s' →
      (s.task p).phase = .inside r → Gate.Step cfg.gate p s.view s'.view := fun hs hp => by
    rw [afterClaimLoad] at hs
    split at hs
    · exact hinside hs rfl hp rfl
    · split at hs
      · exact hreturn hs rfl hp
      · exact hinside hs rfl hp rfl
  have hpark : ∀ {v : V} {r : Nat} {cur : Flags}, some (s.afterParkLoad p v r cur) = some s' →
      (s.task p).phase = .inside r → Gate.Step cfg.gate p s.view s'.view := fun hs hp => by
    rw [afterParkLoad] at hs
    split at hs
    · exact hinside hs rfl hp rfl
    · split at hs
      · exact hreturn hs rfl hp
      · exact hinside hs rfl hp rfl
  have hload : ∀ {c : Nat} {cur : Flags}, some (s.afterCloseLoad p c cur) = some s' →
      (s.task p).phase = .leaves → Gate.Step cfg.gate p s.view s'.view := fun hs hp => by
    rw [afterCloseLoad] at hs
    split at hs
    · exact hclose hs rfl hp
    · split at hs
      · exact hleaves hs rfl hp rfl
      · exact hleaves hs rfl hp rfl
  cases hpc : s.task p
  all_goals
    rw [State.taskStep, hpc] at h
    rw [hpc] at hinside hleaves hreturn hclose hclaim hpark hload
    dsimp only at h
    have hphase := congrArg Pc.phase hpc
  case idle | suspended => cases h
  case fetchTicket v =>
    cases h
    rw [view_setTask]
    exact .fetch hphase
  case loadClosed v idx =>
    cases h
    rw [view_setTask]
    split
    · next hc => exact .halt hphase hc
    · next hc => exact .pass hphase (Bool.not_eq_true _ ▸ hc)
  case spinReady v idx =>
    cases h
    rw [view_setTask]
    split
    · next hr => exact .ready hphase hr
    · rw [Gate.View.set_eq hphase]
      exact .stay (.inl ⟨idx, .inl hphase⟩)
  case loadClosedAt v idx =>
    split at h
    · next hr =>
      cases h
      rw [view_setTask]
      refine .enter hphase ?_
      change (!circularLessThan cfg.bits idx s.writeClosedAt) = false
      rw [hr]
      rfl
    · next hr =>
      cases h
      rw [view_returnPush]
      refine .reject hphase ?_
      change (!circularLessThan cfg.bits idx s.writeClosedAt) = true
      rw [(Bool.not_eq_true _).mp hr]
      rfl
  case claimLoad v idx => exact hclaim h rfl
  case claimCas v idx cur =>
    split at h
    · exact hinside h rfl rfl rfl
    · exact hclaim h rfl
  case parkLoad v idx => exact hpark h rfl
  case parkCas v idx cur =>
    split at h
    · exact hinside h rfl rfl rfl
    · exact hpark h rfl
  case emplace v idx => exact hinside h rfl rfl rfl
  case publishLoad v idx => exact hinside h rfl rfl rfl
  case publishCas v idx cur =>
    split at h
    · split at h
      · exact hinside h rfl rfl rfl
      · exact hreturn h rfl rfl
    · exact hinside h rfl rfl rfl
  case takeConsumer v idx =>
    split at h
    · exact hinside h rfl rfl rfl
    · exact hreturn h rfl rfl
  case resumeConsumer v idx => exact hreturn h view_resumeConsumer rfl
  case closeCas =>
    split at h
    · next hc =>
      cases h
      rw [view_returnClose]
      exact .lose hphase hc
    · next hc =>
      cases h
      rw [view_setTask]
      exact .win hphase (Bool.not_eq_true _ ▸ hc)
  case closeTicket =>
    cases h
    rw [view_setTask]
    exact .cut hphase
  case storeClosedAt c =>
    cases h
    rw [view_setTask]
    exact .store hphase
  case storeReady c =>
    cases h
    rw [view_setTask]
    exact .publish hphase
  case fetchOr c =>
    split at h
    · exact hload h rfl
    · exact hclose h rfl rfl
  case loadWaitIdx c cur =>
    split at h
    · exact hclose h rfl rfl
    · exact hleaves h rfl rfl rfl
  case closeArmedCas c cur =>
    split at h
    · exact hleaves h rfl rfl rfl
    · exact hload h rfl
  case closeFreeCas c cur =>
    split at h
    · exact hclose h rfl rfl
    · exact hload h rfl
  case closeTakeConsumer c =>
    split at h
    · split at h
      · exact hleaves h rfl rfl rfl
      · exact hleaves h rfl rfl rfl
    · exact hclose h rfl rfl
  case closeResume c => exact hclose h view_resumeConsumer rfl

/-! ## The steps of the consumer -/

theorem State.view_handOut {idx : Nat} : (s.handOut cfg idx).view = s.view := by
  rw [handOut]
  split <;> rfl

theorem State.view_afterReverse {idx : Nat} {q : Option Tid} :
    (s.afterReverse cfg idx q).view = s.view := by
  cases q <;> rfl

theorem State.view_afterLoadFlags {idx : Nat} {f : Flags} :
    (s.afterLoadFlags idx f).view = s.view := by
  rw [afterLoadFlags]
  split
  · rfl
  · split <;> rfl

theorem State.view_afterDrainLoad {idx : Nat} {f : Flags} :
    (s.afterDrainLoad cfg idx f).view = s.view := by
  rw [afterDrainLoad]
  split
  · rfl
  · split <;> rfl

theorem State.consumerStep_view {spurious : Bool} (h : s.consumerStep cfg spurious = some s') :
    s'.view = s.view := by
  have hpoll : ∀ {k : Call}, (s.afterPoll k).view = s.view := fun {k} => by cases k <;> rfl
  cases hpc : s.consumer
  all_goals
    rw [State.consumerStep, hpc] at h
    dsimp only at h
  case idle | suspended | holding => cases h
  case poll k =>
    split at h <;> cases h
    · exact view_handOut
    · rfl
  case loadClosed k idx f =>
    split at h <;> cases h
    · rfl
    · exact hpoll
  case loadClosedAt k idx f =>
    split at h
    · split at h <;> cases h
      · rfl
      · exact hpoll
    · cases h
      rfl
  case loadFlags idx =>
    cases h
    exact view_afterLoadFlags
  case withdrawData idx =>
    split at h <;> cases h
    · exact view_handOut
    · rfl
  case withdrawSentinel | sentinelClosedAt | drainCas => split at h <;> cases h <;> rfl
  case armCas idx f =>
    split at h <;> cases h
    · rfl
    · exact view_afterLoadFlags
  case resumed idx e =>
    split at h <;> cases h
    · rfl
    · exact view_handOut
  case drainLoad idx =>
    cases h
    exact view_afterDrainLoad
  case handoffCas idx cur =>
    split at h
    · split at h <;> cases h <;> rfl
    · cases h
      rfl
  case reverse idx prev curr =>
    split at h <;> cases h
    · rfl
    · exact view_afterReverse
  case resumeProducer idx q =>
    cases h
    exact view_resumeProducer
  all_goals
    cases h
    rfl

/-! ## Where the values come from -/

/-- The values in the slots and those that have been handed out satisfy `P`. -/
structure State.Carries (P : V → Prop) (s : State V) : Prop where
  elements : ∀ i n v, (s.elements i).data = some (n, v) → P v
  pulls : ∀ n v, Pull.ok n v ∈ s.pulls → P v

namespace State.Carries

theorem mono (hc : s.Carries P) (hPQ : ∀ v, P v → Q v) : s.Carries Q where
  elements i n v hv := hPQ v (hc.elements i n v hv)
  pulls n v hv := hPQ v (hc.pulls n v hv)

theorem congr (hc : s.Carries P) (helements : s'.elements = s.elements)
    (hpulls : s'.pulls = s.pulls) : s'.Carries P where
  elements := by
    rw [helements]
    exact hc.elements
  pulls := by
    rw [hpulls]
    exact hc.pulls

theorem setElem (hc : s.Carries P) {idx : Nat} {e : Element V}
    (he : ∀ n v, e.data = some (n, v) → P v) : (s.setElem cfg idx e).Carries P where
  elements i n v hv := by
    change (Function.update s.elements (cfg.slotOf idx) e i).data = some (n, v) at hv
    rw [Function.update_apply] at hv
    split at hv
    · exact he n v hv
    · exact hc.elements i n v hv
  pulls := hc.pulls

/-- A store to a slot that leaves the value alone. -/
theorem store (hc : s.Carries P) {idx : Nat} {e : Element V}
    (hs : s'.elements = (s.setElem cfg idx e).elements) (hpulls : s'.pulls = s.pulls)
    (he : e.data = (s.elem cfg idx).data) : s'.Carries P :=
  (hc.setElem fun n v hv => hc.elements (cfg.slotOf idx) n v (he.symm.trans hv)).congr hs hpulls

theorem setFlags (hc : s.Carries P) {idx : Nat} {f : Flags} :
    (s.setFlags cfg idx f).Carries P := hc.store rfl rfl rfl

theorem returnPull (hc : s.Carries P) {r : Pull V} (hr : ∀ n v, .ok n v ≠ r) :
    (s.returnPull r).Carries P where
  elements := hc.elements
  pulls n v hv := by
    rcases List.mem_append.mp hv with hv | hv
    · exact hc.pulls n v hv
    · exact absurd (List.mem_singleton.mp hv) (hr n v)

theorem handOut (hc : s.Carries P) {idx : Nat} : (s.handOut cfg idx).Carries P := by
  rw [State.handOut]
  split
  · next e he =>
    refine ⟨hc.elements, fun n v hv => ?_⟩
    rcases List.mem_append.mp hv with hv | hv
    · exact hc.pulls n v hv
    · cases List.mem_singleton.mp hv
      exact hc.elements _ _ _ he
  · exact hc.congr rfl rfl

theorem resumeConsumer (hc : s.Carries P) : s.resumeConsumer.Carries P := by
  rw [State.resumeConsumer]
  split <;> exact hc.congr rfl rfl

theorem resumeProducer (hc : s.Carries P) : (s.resumeProducer p).Carries P := by
  rw [State.resumeProducer]
  split <;> exact hc.congr rfl rfl

theorem afterLoadFlags (hc : s.Carries P) {idx : Nat} {f : Flags} :
    (s.afterLoadFlags idx f).Carries P := by
  rw [State.afterLoadFlags]
  split
  · exact hc.congr rfl rfl
  · split <;> exact hc.congr rfl rfl

theorem afterDrainLoad (hc : s.Carries P) {idx : Nat} {f : Flags} :
    (s.afterDrainLoad cfg idx f).Carries P := by
  rw [State.afterDrainLoad]
  split
  · exact hc.congr rfl rfl
  · split <;> exact hc.congr rfl rfl

theorem afterReverse (hc : s.Carries P) {idx : Nat} {q : Option Tid} :
    (s.afterReverse cfg idx q).Carries P := by
  cases q with
  | none => exact hc.congr rfl rfl
  | some p => exact hc.store rfl rfl rfl

theorem afterPoll (hc : s.Carries P) {k : Call} : (s.afterPoll k).Carries P := by
  cases k
  · exact hc.congr rfl rfl
  · exact hc.returnPull fun _ _ hr => by cases hr

/-- The consumer constructs nothing. -/
theorem consumerStep (hc : s.Carries P) {spurious : Bool}
    (h : s.consumerStep cfg spurious = some s') : s'.Carries P := by
  cases hpc : s.consumer
  all_goals
    rw [State.consumerStep, hpc] at h
    dsimp only at h
  case idle | suspended | holding => cases h
  case poll k =>
    split at h <;> cases h
    · exact hc.handOut
    · exact hc.congr rfl rfl
  case loadClosed k idx f =>
    split at h <;> cases h
    · exact hc.congr rfl rfl
    · exact hc.afterPoll
  case loadClosedAt k idx f =>
    split at h
    · split at h <;> cases h
      · exact hc.congr rfl rfl
      · exact hc.afterPoll
    · cases h
      exact hc.returnPull fun _ _ hr => by cases hr
  case storeIdx | storeSelf =>
    cases h
    exact hc.store rfl rfl rfl
  case loadFlags idx =>
    cases h
    exact hc.afterLoadFlags
  case withdrawData idx =>
    split at h <;> cases h
    · refine Carries.handOut ?_
      exact hc.store rfl rfl rfl
    · exact hc.congr rfl rfl
  case withdrawSentinel idx =>
    split at h <;> cases h
    · exact hc.store rfl rfl rfl
    · exact hc.congr rfl rfl
  case sentinelClosedAt idx =>
    split at h <;> cases h
    · exact hc.congr rfl rfl
    · exact hc.returnPull fun _ _ hr => by cases hr
  case armCas idx f =>
    split at h <;> cases h
    · exact hc.setFlags.congr rfl rfl
    · exact hc.afterLoadFlags
  case resumed idx e =>
    split at h <;> cases h
    · exact hc.returnPull fun _ _ hr => by cases hr
    · exact hc.handOut
  case drainLoad idx =>
    cases h
    exact hc.afterDrainLoad
  case handoffCas idx cur =>
    split at h
    · split at h <;> cases h
      · exact hc.store rfl rfl rfl
      · exact hc.congr rfl rfl
    · cases h
      exact hc.congr rfl rfl
  case drainCas idx =>
    split at h <;> cases h
    · exact hc.setFlags.congr rfl rfl
    · exact hc.congr rfl rfl
  case drainExchange idx =>
    cases h
    exact hc.setFlags.congr rfl rfl
  case reverse idx prev curr =>
    split at h <;> cases h
    · exact hc.congr rfl rfl
    · exact hc.afterReverse
  case resumeProducer idx q =>
    cases h
    exact hc.resumeProducer.congr rfl rfl
  all_goals
    cases h
    exact hc.congr rfl rfl

theorem release (hc : s.Carries P) (h : s.release cfg = some s') : s'.Carries P := by
  rw [State.release] at h
  split at h
  · next idx _ =>
    have hdrop : (s.setElem cfg idx { s.elem cfg idx with data := none }).Carries P :=
      hc.setElem fun n v hv => by cases hv
    cases h
    exact hdrop.congr rfl rfl
  · cases h

end State.Carries

/-- What a task is pushing. -/
def Pc.value : Pc V → Option V
  | fetchTicket v | loadClosed v _ | spinReady v _ | loadClosedAt v _ | claimLoad v _
  | claimCas v _ _ | parkLoad v _ | parkCas v _ _ | suspended v _ | emplace v _ | publishLoad v _
  | publishCas v _ _ | takeConsumer v _ | resumeConsumer v _ => some v
  | idle | closeCas | closeTicket | storeClosedAt _ | storeReady _ | fetchOr _ | loadWaitIdx ..
  | closeArmedCas .. | closeFreeCas .. | closeTakeConsumer _ | closeResume _ => none

/-- What a step of task `p` leaves behind. -/
structure Feeds (P : V → Prop) (p : Tid) (s s' : State V) : Prop where
  carries : s'.Carries P
  value : (s'.task p).value = none ∨ (s'.task p).value = (s.task p).value

theorem State.taskStep_feeds {spurious : Bool} (h : s.taskStep cfg p spurious = some s')
    (hc : s.Carries P) (hP : ∀ v idx, s.task p = .emplace v idx → P v) : Feeds P p s s' := by
  have hset : ∀ {t : State V} {pc : Pc V}, some (t.setTask p pc) = some s' → t.Carries P →
      pc.value = none ∨ pc.value = (s.task p).value → Feeds P p s s' := fun {t pc} hs ht hv => by
    cases hs
    have hself : (t.setTask p pc).task p = pc := Function.update_self ..
    exact ⟨ht.congr rfl rfl, by rw [hself]; exact hv⟩
  have hreturn : ∀ {t : State V} {v : V} {r : Nat} {ok : Bool},
      some (t.returnPush p v r ok) = some s' → t.Carries P → Feeds P p s s' :=
    fun {t v r ok} hs ht => by
      cases hs
      have hself : (t.returnPush p v r ok).task p = .idle := Function.update_self ..
      exact ⟨ht.congr rfl rfl, .inl (by rw [hself]; rfl)⟩
  have hclose : ∀ {t : State V}, some (t.returnClose p) = some s' → t.Carries P →
      Feeds P p s s' := fun {t} hs ht => by
    cases hs
    have hself : (t.returnClose p).task p = .idle := Function.update_self ..
    exact ⟨ht.congr rfl rfl, .inl (by rw [hself]; rfl)⟩
  have hclaim : ∀ {v : V} {r : Nat} {cur : Flags}, some (s.afterClaimLoad p v r cur) = some s' →
      (s.task p).value = some v → Feeds P p s s' := fun hs hv => by
    rw [afterClaimLoad] at hs
    split at hs
    · exact hset hs hc (.inr hv.symm)
    · split at hs
      · exact hreturn hs hc
      · exact hset hs hc (.inr hv.symm)
  have hpark : ∀ {v : V} {r : Nat} {cur : Flags}, some (s.afterParkLoad p v r cur) = some s' →
      (s.task p).value = some v → Feeds P p s s' := fun hs hv => by
    rw [afterParkLoad] at hs
    split at hs
    · exact hset hs hc (.inr hv.symm)
    · split at hs
      · exact hreturn hs hc
      · exact hset hs (hc.congr rfl rfl) (.inr hv.symm)
  have hload : ∀ {c : Nat} {cur : Flags}, some (s.afterCloseLoad p c cur) = some s' →
      Feeds P p s s' := fun hs => by
    rw [afterCloseLoad] at hs
    split at hs
    · exact hclose hs hc
    · split at hs
      · exact hset hs hc (.inl rfl)
      · exact hset hs hc (.inl rfl)
  cases hpc : s.task p
  all_goals
    rw [State.taskStep, hpc] at h
    rw [hpc] at hset hclaim hpark
    dsimp only at h
  case idle | suspended => cases h
  case fetchTicket v => exact hset h (hc.congr rfl rfl) (.inr rfl)
  case loadClosed v idx =>
    cases h
    refine hset rfl hc (.inr ?_)
    split <;> rfl
  case spinReady v idx =>
    cases h
    refine hset rfl hc (.inr ?_)
    split <;> rfl
  case loadClosedAt v idx =>
    split at h
    · exact hset h hc (.inr rfl)
    · exact hreturn h hc
  case claimLoad v idx => exact hclaim h rfl
  case claimCas v idx cur =>
    split at h
    · exact hset h hc.setFlags (.inr rfl)
    · exact hclaim h rfl
  case parkLoad v idx => exact hpark h rfl
  case parkCas v idx cur =>
    split at h
    · exact hset h hc.setFlags (.inr rfl)
    · exact hpark h rfl
  case emplace v idx =>
    have helem : (s.setElem cfg idx { s.elem cfg idx with data := some (idx, v) }).Carries P :=
      hc.setElem fun n u hu => by
        cases hu
        exact hP v idx hpc
    exact hset h (helem.congr rfl rfl) (.inr rfl)
  case publishLoad v idx => exact hset h hc (.inr rfl)
  case publishCas v idx cur =>
    split at h
    · split at h
      · exact hset h (hc.store rfl rfl rfl) (.inr rfl)
      · exact hreturn h (hc.store rfl rfl rfl)
    · exact hset h (hc.congr rfl rfl) (.inr rfl)
  case takeConsumer v idx =>
    split at h
    · exact hset h (hc.store rfl rfl rfl) (.inr rfl)
    · exact hreturn h (hc.store rfl rfl rfl)
  case resumeConsumer v idx => exact hreturn h hc.resumeConsumer
  case closeCas =>
    split at h
    · exact hclose h hc
    · exact hset h (hc.congr rfl rfl) (.inl rfl)
  case closeTicket | storeClosedAt | storeReady => exact hset h (hc.congr rfl rfl) (.inl rfl)
  case fetchOr c =>
    split at h
    · exact hload h
    · exact hclose h hc
  case loadWaitIdx c cur =>
    split at h
    · exact hclose h hc
    · exact hset h hc (.inl rfl)
  case closeArmedCas c cur =>
    split at h
    · exact hset h hc.setFlags (.inl rfl)
    · exact hload h
  case closeFreeCas c cur =>
    split at h
    · exact hclose h hc.setFlags
    · exact hload h
  case closeTakeConsumer c =>
    have hstore : (s.setElem cfg c { s.elem cfg c with waitingConsumer := false }).Carries P :=
      hc.store rfl rfl rfl
    split at h
    · split at h
      · exact hset h (hstore.congr rfl rfl) (.inl rfl)
      · exact hset h (hstore.congr rfl rfl) (.inl rfl)
    · exact hclose h hstore
  case closeResume c => exact hclose h hc.resumeConsumer

/-! ## Runs beside a trace -/

/-- A move is a step of a task, the start of one of its calls, or one of the consumer's,
which only takes parked producers out of their sleep. -/
theorem step_begins (h : step cfg s a = some s') :
    (∃ p spurious, a = .task p spurious ∧ s.taskStep cfg p spurious = some s') ∨
      (∃ p pc, a.move = .begin p ∧ s.task p = .idle ∧ pc.phase.Begins ∧
        (∀ v, pc.value = some v → v ∈ a.value) ∧ s' = s.setTask p pc) ∨
      a.move = .other ∧ s'.view = s.view ∧ (∀ p, (s'.task p).value = (s.task p).value) ∧
        ∀ {P : V → Prop}, s.Carries P → s'.Carries P := by
  cases a with
  | task p spurious => exact .inl ⟨p, spurious, rfl, h⟩
  | push p v =>
    rw [step] at h
    split at h <;> cases h
    next hpc =>
      refine .inr (.inl ⟨p, _, rfl, hpc, .inr (.inr ⟨1, rfl⟩), fun u hu => ?_, rfl⟩)
      cases hu
      exact List.mem_singleton_self _
  | close p =>
    rw [step] at h
    split at h <;> cases h
    next hpc =>
      refine .inr (.inl ⟨p, _, rfl, hpc, .inr (.inl rfl), fun u hu => ?_, rfl⟩)
      cases hu
  | pull k =>
    rw [step] at h
    split at h
    · split at h <;> cases h
      exact .inr (.inr ⟨rfl, rfl, fun _ => rfl, fun hc => hc.congr rfl rfl⟩)
    · cases h
  | consumer spurious =>
    refine .inr (.inr ⟨rfl, State.consumerStep_view h, fun p => ?_, fun hc => hc.consumerStep h⟩)
    rcases State.consumerStep_task h with hs | ⟨idx, q, -, hs⟩
    · rw [hs]
    · rw [hs, State.resumeProducer]
      split
      · next v i hpc =>
        by_cases hpq : p = q
        · rw [hpq, State.setTask_self, hpc]
          rfl
        · rw [State.setTask_of_ne s hpq]
      · rfl
  | release =>
    refine .inr (.inr ⟨rfl, ?_, ?_, fun hc => hc.release h⟩)
    · replace h : s.release cfg = some s' := h
      rw [State.release] at h
      split at h <;> cases h
      rfl
    · replace h : s.release cfg = some s' := h
      rw [State.release] at h
      split at h <;> cases h
      exact fun _ => rfl

variable {x y : Traced V}

theorem traced_gate (h : (traced V cfg).Reachable x) :
    Gate.Inv cfg.gate x.state.view x.trace := by
  refine System.Reach.invariant (I := fun x => Gate.Inv cfg.gate x.state.view x.trace) ?_ ?_ h
  · rintro x rfl
    exact .init rfl rfl (fun _ => rfl) rfl
  · rintro x a y hi - hs
    obtain ⟨s', hs', rfl⟩ := Option.map_eq_some_iff.mp hs
    dsimp only
    rcases step_begins hs' with ⟨p, spurious, rfl, ht⟩ | ⟨p, pc, ha, hp, hb, -, rfl⟩ | ⟨ha, hv, -⟩
    · exact hi.step (State.taskStep_gate ht)
    · rw [ha, State.view_setTask]
      exact hi.starts (congrArg Pc.phase hp) hb
    · rw [ha, hv]
      exact hi.other

/-- The late calls that take a ticket are going to be rejected. -/
def Timely (cfg : Config) (x : Traced V) (a : Act V) : Prop :=
  ∀ p, a.move = .step p → Gate.Timely cfg.gate x.state.view x.trace p

/-- What a run keeps whose late calls are rejected. -/
structure Sound (cfg : Config) (x : Traced V) : Prop where
  gate : Gate.Inv cfg.gate x.state.view x.trace
  turned : Gate.Turned cfg.gate x.state.view x.trace
  carries : x.state.Carries (· ∈ x.early)
  value : ∀ p v, (x.state.task p).value = some v → x.trace.late p = false → v ∈ x.early

theorem Sound.init : Sound cfg (⟨.init, .init, []⟩ : Traced V) where
  gate := traced_gate (.init rfl)
  turned := .init fun _ => rfl
  carries := { elements := fun i n v hv => (by cases hv), pulls := fun n v hv => (by cases hv) }
  value p w hw := by cases hw

theorem Sound.step (h : Sound cfg x) (ht : Timely cfg x a)
    (hs : tracedStep cfg x a = some y) : Sound cfg y := by
  obtain ⟨s', hs', rfl⟩ := Option.map_eq_some_iff.mp hs
  have hsub : ∀ v ∈ x.early, v ∈ if x.state.closes = 0 then x.early ++ a.value else x.early :=
    fun v hv => by
      split
      · exact List.mem_append_left _ hv
      · exact hv
  rcases step_begins hs' with ⟨p, spurious, rfl, hp⟩ | ⟨p, pc, ha, hp, hb, hput, rfl⟩ |
    ⟨ha, hview, hvalue, hcarries⟩
  · have hfeed : Feeds (· ∈ x.early) p x.state s' := by
      refine State.taskStep_feeds hp h.carries fun v idx hpc => ?_
      -- what is being written belongs to a call that the gate has let in
      have hlate : x.trace.late p = false :=
        h.turned.not_inside h.gate (r := idx) (congrArg Pc.phase hpc)
      exact h.value p v (by rw [hpc]; rfl) hlate
    refine ⟨h.gate.step (State.taskStep_gate hp),
      h.turned.step h.gate (State.taskStep_gate hp) (ht p rfl), hfeed.carries.mono hsub,
      fun q v hv hl => ?_⟩
    rw [show Act.move (.task p spurious : Act V) = .step p from rfl, Gate.Trace.next_late] at hl
    by_cases hqp : q = p
    · subst hqp
      rcases hfeed.value with hnone | hsame
      · cases hnone.symm.trans hv
      · exact hsub v (h.value q v (hsame ▸ hv) hl)
    · rw [State.taskStep_other hp hqp] at hv
      exact hsub v (h.value q v hv hl)
  · have hview : (x.state.setTask p pc).view = x.state.view.set p pc.phase := State.view_setTask
    have hnext : x.trace.next x.state.view (x.state.setTask p pc).view a.move =
        x.trace.start x.state.view p := by
      rw [ha]
      exact Gate.Trace.next_quiet rfl
    have hcarries : (x.state.setTask p pc).Carries (· ∈ x.early) := h.carries.congr rfl rfl
    refine ⟨?_, ?_, hcarries.mono hsub, fun q v hv hl => ?_⟩
    · dsimp only
      rw [hview, ha]
      exact h.gate.starts (congrArg Pc.phase hp) hb
    · dsimp only
      rw [hview, ha]
      exact h.turned.starts hb
    · rw [hnext] at hl
      by_cases hqp : q = p
      · subst hqp
        rw [Gate.Trace.start_late] at hl
        rw [State.setTask_self] at hv
        have hzero : x.state.closes = 0 := Nat.eq_zero_of_not_pos (of_decide_eq_false hl)
        rw [if_pos hzero]
        exact List.mem_append_right _ (hput v hv)
      · rw [State.setTask_of_ne _ hqp] at hv
        rw [(Gate.Trace.start_other hqp).1] at hl
        exact hsub v (h.value q v hv hl)
  · have hnext : x.trace.next x.state.view s'.view a.move = x.trace := by
      rw [ha, hview]
      exact Gate.Trace.next_quiet rfl
    refine ⟨?_, ?_, (hcarries h.carries).mono hsub, fun q v hv hl => ?_⟩
    · dsimp only
      rw [hnext, hview]
      exact h.gate
    · dsimp only
      rw [hnext, hview]
      exact h.turned
    · rw [hvalue] at hv
      rw [hnext] at hl
      exact hsub v (h.value q v hv hl)

end CoroUtil.MpscBounded
