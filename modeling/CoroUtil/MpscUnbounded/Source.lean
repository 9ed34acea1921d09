import CoroUtil.Blocks.Values
import CoroUtil.MpscUnbounded.Gate

/-!
# Where the values come from

What the consumer is handed has been in the blocks, and what is in the blocks was
put there by a call that the gate let in.
-/

namespace CoroUtil.MpscUnbounded

open CoroUtil.Blocks CoroUtil.General

variable {V : Type} {o : Offsets} {cfg : Config} {s s' : State V} {p : Tid} {a : Act V}
  {P Q : V → Prop}

/-- The values in the blocks and those that have been handed out satisfy `P`. -/
structure State.Carries (P : V → Prop) (s : State V) : Prop where
  heap : s.heap.Holds P
  pulls : ∀ n v, Pull.ok n v ∈ s.pulls → P v

namespace State.Carries

theorem mono (hc : s.Carries P) (hPQ : ∀ v, P v → Q v) : s.Carries Q where
  heap := hc.heap.mono hPQ
  pulls n v hv := hPQ v (hc.pulls n v hv)

theorem congr (hc : s.Carries P) (hheap : s'.heap = s.heap) (hpulls : s'.pulls = s.pulls) :
    s'.Carries P where
  heap := by
    rw [hheap]
    exact hc.heap
  pulls := by
    rw [hpulls]
    exact hc.pulls

theorem of_heap {h : Heap Flags V} (hc : s.Carries P) (hh : h.Holds P) (hheap : s'.heap = h)
    (hpulls : s'.pulls = s.pulls) : s'.Carries P where
  heap := by
    rw [hheap]
    exact hh
  pulls := by
    rw [hpulls]
    exact hc.pulls

theorem setFlags (hc : s.Carries P) {b idx : Nat} {f : Flags} : (s.setFlags cfg b idx f).Carries P where
  heap := hc.heap.setElem fun v hv => hc.heap b (cfg.slot idx) v hv
  pulls := hc.pulls

theorem returnPull (hc : s.Carries P) {r : Pull V} (hr : ∀ n v, .ok n v ≠ r) :
    (s.returnPull r).Carries P where
  heap := hc.heap
  pulls n v hv := by
    rcases List.mem_append.mp hv with hv | hv
    · exact hc.pulls n v hv
    · exact absurd (List.mem_singleton.mp hv) (hr n v)

theorem handOut (hc : s.Carries P) {idx b : Nat} : (s.handOut cfg idx b).Carries P := by
  rw [State.handOut]
  split
  · next v hv =>
    refine ⟨hc.heap, fun n u hu => ?_⟩
    rcases List.mem_append.mp hu with hu | hu
    · exact hc.pulls n u hu
    · cases List.mem_singleton.mp hu
      exact hc.heap _ _ _ hv
  · exact hc.congr rfl rfl

theorem finishLast (hc : s.Carries P) {b : Nat} : (s.finishLast o cfg b).Carries P := by
  rw [State.finishLast]
  split
  · split <;> exact hc.congr rfl rfl
  · exact hc.congr rfl rfl

theorem startReclaim (hc : s.Carries P) {b : Nat} : (s.startReclaim o cfg b).Carries P := by
  rw [State.startReclaim]
  split
  · exact hc.finishLast
  · exact hc.congr rfl rfl

theorem tryReclaimBlocks (hc : s.Carries P) {b : Nat} : (s.tryReclaimBlocks o cfg b).Carries P := by
  rw [State.tryReclaimBlocks]
  split
  · split
    · exact hc.startReclaim
    · exact hc.congr rfl rfl
  · exact hc.startReclaim

/-- The consumer constructs nothing. -/
theorem consumerStep (hc : s.Carries P) {spurious : Bool}
    (h : s.consumerStep o cfg spurious = some s') : s'.Carries P := by
  cases hpc : s.consumer
  all_goals
    rw [State.consumerStep, hpc] at h
    dsimp only at h
  case idle | holding | suspended => cases h
  case find k idx f =>
    have hh : (f.step o cfg.toLayout idx s.heap).1.Holds P := Find.step_holds hc.heap f
    generalize f.step o cfg.toLayout idx s.heap = x at h hh
    obtain ⟨heap, ok, f'⟩ := x
    cases f' <;> cases h <;> exact hc.of_heap hh rfl rfl
  case emptyFind scope f =>
    have hh : (f.step o cfg.toLayout s.readOffset s.heap).1.Holds P := Find.step_holds hc.heap f
    generalize f.step o cfg.toLayout s.readOffset s.heap = x at h hh
    obtain ⟨heap, ok, f'⟩ := x
    cases f' <;> cases h <;> exact hc.of_heap hh rfl rfl
  case poll k idx b =>
    split at h <;> cases h
    · exact hc.handOut
    · exact hc.congr rfl rfl
    · exact hc.returnPull fun _ _ hr => by cases hr
    · exact hc.returnPull fun _ _ hr => by cases hr
  case tryWait idx b =>
    split at h <;> cases h
    · exact hc.setFlags.congr rfl rfl
    · exact hc.setFlags.congr rfl rfl
    · exact hc.setFlags.handOut
  case storeClosed idx b =>
    cases h
    exact hc.setFlags.returnPull fun _ _ hr => by cases hr
  case resumed idx b e =>
    split at h <;> cases h
    · exact hc.returnPull fun _ _ hr => by cases hr
    · exact hc.handOut
  case reclaim b r last =>
    have hh : (r.step o cfg.toLayout s.heap s.tailBlock).1.Holds P := Reclaim.step_holds hc.heap r
    generalize r.step o cfg.toLayout s.heap s.tailBlock = x at h hh
    obtain ⟨heap, tail, ok, r'⟩ := x
    have hs : (({ s with heap, tailBlock := tail }).check ok).Carries P := hc.of_heap hh rfl rfl
    cases r' with
    | done =>
      dsimp only at h
      split at h <;> cases h
      · exact hs.congr rfl rfl
      · exact hs.startReclaim
    | _ =>
      cases h
      exact hs.congr rfl rfl
  case oldOffset b =>
    split at h <;> cases h
    · exact hc.congr rfl rfl
    · exact hc.finishLast
  case startCas b current => split at h <;> cases h <;> exact hc.congr rfl rfl
  case loadCutoff b =>
    cases h
    refine Carries.finishLast ?_
    exact hc.congr rfl rfl
  case emptyPoll scope b =>
    cases h
    cases scope <;> exact hc.congr rfl rfl
  all_goals
    cases h
    exact hc.congr rfl rfl

theorem release (hc : s.Carries P) (h : s.release o cfg = some s') : s'.Carries P := by
  rw [State.release] at h
  split at h
  · next idx b _ =>
    have hdrop : (s.setElem cfg b idx { s.elem cfg b idx with data := none }).Carries P :=
      hc.of_heap (hc.heap.setElem fun v hv => by cases hv) rfl rfl
    dsimp only at h
    split at h <;> cases h
    · refine Carries.tryReclaimBlocks ?_
      exact hdrop.congr rfl rfl
    · exact hdrop.congr rfl rfl
  · cases h

theorem byConsumer (hc : s.Carries P) (h : step o cfg s a = some s')
    (ha : a.byConsumer = true) : s'.Carries P := by
  cases a with
  | task | post | bulk | close => cases ha
  | consumer spurious => exact hc.consumerStep h
  | release => exact hc.release h
  | pull k =>
    unfold step at h
    dsimp only at h
    split at h
    · cases k with
      | pull =>
        dsimp only at h
        split at h <;> cases h
        exact hc.congr rfl rfl
      | tryPull =>
        cases h
        exact hc.congr rfl rfl
    · cases h
  | empty =>
    replace h : s.callEmpty = some s' := h
    rw [State.callEmpty] at h
    split at h <;> cases h <;> exact hc.congr rfl rfl

end State.Carries

/-! ## The tasks -/

/-- What a task has been called with. -/
def Pc.put : Pc V → Option (Put V)
  | fetchTicket w | loadClosed w _ | spinReady w _ | loadClosedAt w _ | loadHint (.put w) _
  | hintOffset (.put w) _ _ | loadWriteBlock (.put w) _ | assertWriteBlock (.put w) _ _
  | assertObserved w _ _ | find (.put w) _ _ _ | findEnd w _ _ _ _ | hintCurrent w _ _ _ _
  | hintTarget w _ _ _ _ _ | hintCas w _ _ _ _ | emplace w _ _ _ | publish w _ _ _
  | resumeConsumer w _ _ _ _ | nextBlock w _ _ _ => some w
  | idle | loadHint .close _ | hintOffset .close _ _ | loadWriteBlock .close _
  | assertWriteBlock .close _ _ | find .close _ _ _ | closeCas | closeTicket | storeClosedAt _
  | storeReady _ | exchangeClosed .. | elemNull .. | closeResume .. => none

/-- The item that is being written is one of those the call was given. -/
def Pc.Fits : Pc V → Prop
  | emplace w _ k _ | publish w _ k _ | resumeConsumer w _ k _ _ => k < w.count
  | nextBlock w _ k _ => k ≤ w.count
  | pc => ∀ w, pc.put = some w → 0 < w.count

/-- What a step of task `p` leaves behind. -/
structure Feeds (P : V → Prop) (p : Tid) (s s' : State V) : Prop where
  carries : s'.Carries P
  put : (s'.task p).put = none ∨ (s'.task p).put = (s.task p).put
  fits : (s'.task p).Fits

theorem State.taskStep_feeds {spurious : Bool} (h : s.taskStep o cfg p spurious = some s')
    (hc : s.Carries P) (hf : (s.task p).Fits)
    (hP : ∀ w idx k b, s.task p = .emplace w idx k b → P (w.item k)) : Feeds P p s s' := by
  have hset : ∀ {t : State V} {pc : Pc V}, some (t.setTask p pc) = some s' → t.Carries P →
      pc.put = none ∨ pc.put = (s.task p).put → pc.Fits → Feeds P p s s' := fun hs ht hput hfits => by
    cases hs
    have htask : ∀ {t : State V} {pc : Pc V}, (t.setTask p pc).task p = pc :=
      fun {_ _} => Function.update_self ..
    exact ⟨ht.congr rfl rfl, by rw [htask]; exact hput, by rw [htask]; exact hfits⟩
  have hidle : ∀ {t : State V}, some t = some s' → t.Carries P → t.task p = .idle →
      Feeds P p s s' := fun hs ht hpc => by
    cases hs
    exact ⟨ht, .inl (by rw [hpc]; rfl), by rw [hpc]; exact fun w hw => by cases hw⟩
  have hreturn : ∀ {t : State V} {w : Put V} {r : Nat} {ok : Bool},
      some (t.returnPost p w r ok) = some s' → t.Carries P → Feeds P p s s' := fun hs ht =>
    hidle hs (ht.congr rfl rfl) (Function.update_self ..)
  have hitem : ∀ {t : State V} {w : Put V} {r k b : Nat},
      some (t.afterItem o cfg p w r k b) = some s' → t.Carries P → k ≤ w.count →
      (s.task p).put = some w → Feeds P p s s' := fun {t w r k b} hs ht hk hput => by
    rw [afterItem] at hs
    split at hs
    · exact hreturn hs ht
    · next hne =>
      refine hset hs ht (.inr hput.symm) (Nat.lt_of_le_of_ne hk fun heq => hne ?_)
      rw [heq]
  have hwrite : ∀ {t : State V} {w : Put V} {r k b : Nat},
      some (t.afterWrite o cfg p w r k b) = some s' → t.Carries P → k < w.count →
      (s.task p).put = some w → Feeds P p s s' := fun {t w r k b} hs ht hk hput => by
    cases w with
    | post v => exact hreturn hs ht
    | bulk items count =>
      rw [afterWrite] at hs
      split at hs
      · exact hset hs ht (.inr hput.symm) hk
      · exact hitem hs ht hk hput
  have hclose : ∀ {t : State V}, some (t.returnClose p) = some s' → t.Carries P →
      Feeds P p s s' := fun hs ht => hidle hs (ht.congr rfl rfl) (Function.update_self ..)
  have hresume : ∀ {n}, (s.resumeConsumer n).Carries P := by
    intro n
    rw [resumeConsumer]
    split
    · split <;> exact hc.congr rfl rfl
    · exact hc.congr rfl rfl
  cases hpc : s.task p
  all_goals
    rw [State.taskStep, hpc] at h
    rw [hpc] at hset hf hitem hwrite
    dsimp only at h
  case idle => cases h
  case fetchTicket w => exact hset h (hc.congr rfl rfl) (.inr rfl) hf
  case loadClosed w idx =>
    cases h
    refine hset rfl hc ?_ ?_
    · split <;> exact .inr rfl
    · split <;> exact hf
  case spinReady w idx =>
    cases h
    refine hset rfl hc ?_ ?_
    · split <;> exact .inr rfl
    · split <;> exact hf
  case loadClosedAt w idx =>
    split at h
    · exact hreturn h hc
    · exact hset h hc (.inr rfl) hf
  case loadHint j idx | loadWriteBlock j idx => cases j <;> exact hset h hc (.inr rfl) hf
  case hintOffset j idx b => cases j <;> split at h <;> exact hset h hc (.inr rfl) hf
  case assertWriteBlock j idx b => cases j <;> exact hset h (hc.congr rfl rfl) (.inr rfl) hf
  case assertObserved w idx b => exact hset h (hc.congr rfl rfl) (.inr rfl) hf
  case find j idx observed f =>
    have hh : (f.step o cfg.toLayout idx s.heap).1.Holds P := Find.step_holds hc.heap f
    generalize f.step o cfg.toLayout idx s.heap = x at h hh
    obtain ⟨heap, ok, f'⟩ := x
    rcases j with (v | ⟨items, count⟩) | - <;> cases f' <;>
      exact hset h (hc.of_heap hh rfl rfl) (.inr rfl) hf
  case findEnd w idx observed b f =>
    have hh : (f.step o cfg.toLayout (cfg.reg o (idx + w.count - 1)) s.heap).1.Holds P :=
      Find.step_holds hc.heap f
    generalize f.step o cfg.toLayout _ s.heap = x at h hh
    obtain ⟨heap, ok, f'⟩ := x
    cases f' <;> exact hset h (hc.of_heap hh rfl rfl) (.inr rfl) hf
  case hintCurrent w idx b current target => exact hset h hc (.inr rfl) hf
  case hintTarget w idx b current target offset =>
    split at h
    · exact hset h hc (.inr rfl) hf
    · exact hset h hc (.inr rfl) (hf w rfl)
  case hintCas w idx b current target =>
    split at h
    · exact hset h (hc.congr rfl rfl) (.inr rfl) (hf w rfl)
    · exact hset h hc (.inr rfl) hf
  case emplace w idx k b =>
    have helem : (s.setElem cfg b (cfg.reg o (idx + k))
        { s.elem cfg b (cfg.reg o (idx + k)) with data := some (w.item k) }).Carries P :=
      hc.of_heap (hc.heap.setElem fun v hv => by
        cases hv
        exact hP w idx k b hpc) rfl rfl
    exact hset h (helem.congr rfl rfl) (.inr rfl) hf
  case publish w idx k b =>
    split at h
    · split at h
      · exact hwrite h hc.setFlags hf rfl
      · exact hset h hc.setFlags (.inr rfl) hf
      · exact hwrite h (hc.setFlags.congr rfl rfl) hf rfl
    · exact hwrite h hc.setFlags hf rfl
  case resumeConsumer w idx k b frame => exact hwrite h hresume hf rfl
  case nextBlock w idx k b =>
    split at h
    · exact hitem h hc hf rfl
    · split at h
      · exact hreturn h (hc.congr rfl rfl)
      · cases h
        exact hidle rfl (hc.congr rfl rfl) (Function.update_self ..)
  case closeCas =>
    split at h
    · exact hclose h hc
    · exact hset h (hc.congr rfl rfl) (.inr rfl) fun w hw => by cases hw
  case closeTicket | storeClosedAt | storeReady =>
    exact hset h (hc.congr rfl rfl) (.inr rfl) fun w hw => by cases hw
  case exchangeClosed idx b =>
    split at h
    · exact hset h hc.setFlags (.inr rfl) fun w hw => by cases hw
    · exact hclose h hc.setFlags
  case elemNull idx frame =>
    have hnext : (s.setTask p (.closeResume idx frame)).Carries P := hc.congr rfl rfl
    have htask : (s.setTask p (.closeResume idx frame)).task p = .closeResume idx frame :=
      Function.update_self ..
    have hstay : ∀ {t : State V}, t.Carries P →
        t.task p = (s.setTask p (.closeResume idx frame)).task p → Feeds P p s t := fun ht heq =>
      ⟨ht, .inl (by rw [heq, htask]; rfl), by rw [heq, htask]; exact fun w hw => by cases hw⟩
    split at h
    · split at h <;> cases h
      · exact hstay (hnext.congr rfl rfl) rfl
      · exact hstay (hnext.congr rfl rfl) rfl
    · cases h
      exact hstay (hnext.congr rfl rfl) rfl
  case closeResume idx frame => exact hclose h hresume

/-! ## Runs beside a trace -/

/-- A move is a step of a task, the start of one of its calls, or one of the consumer's. -/
theorem step_begins (h : step o cfg s a = some s') :
    (∃ p spurious, a = .task p spurious ∧ s.taskStep o cfg p spurious = some s') ∨
      (∃ p pc, a.move = .begin p ∧ s.task p = .idle ∧ pc.phase.Begins ∧
        (∀ w, pc.put = some w → w ∈ a.put) ∧ pc.Fits ∧ s' = s.setTask p pc) ∨
      a.move = .other ∧ a.byConsumer = true := by
  have hfits : ∀ w : Put V, 0 < w.count → (Pc.fetchTicket w).Fits := fun w hw u hu => by
    cases hu
    exact hw
  have hput : ∀ w : Put V, ∀ u, (Pc.fetchTicket w).put = some u → u ∈ [w] := fun w u hu => by
    cases hu
    exact List.mem_singleton_self _
  have hnone : ∀ {pc : Pc V} {l : List (Put V)}, pc.put = none → ∀ w, pc.put = some w → w ∈ l :=
    fun hpc w hw => by cases hpc.symm.trans hw
  cases a with
  | task p spurious => exact .inl ⟨p, spurious, rfl, h⟩
  | post p v =>
    rw [step] at h
    split at h <;> cases h
    next hpc =>
      exact .inr (.inl ⟨p, _, rfl, hpc, .inr (.inr ⟨1, rfl⟩), hput _, hfits _ Nat.one_pos, rfl⟩)
  | close p =>
    rw [step] at h
    split at h <;> cases h
    next hpc =>
      refine .inr (.inl ⟨p, .closeCas, rfl, hpc, .inr (.inl rfl), hnone rfl, ?_, rfl⟩)
      exact fun w hw => by cases hw
  | bulk p items count =>
    rw [step] at h
    split at h
    · next hpc =>
      split at h <;> cases h
      refine .inr (.inl ?_)
      split
      · have hidle : (Pc.idle : Pc V).Fits := fun w hw => by cases hw
        refine ⟨p, .idle, rfl, hpc, .inl rfl, hnone rfl, hidle, ?_⟩
        rw [State.setTask, ← hpc, Function.update_eq_self]
      · next hne =>
        exact ⟨p, _, rfl, hpc, .inr (.inr ⟨count, rfl⟩), hput _, hfits _ (Nat.pos_of_ne_zero hne),
          rfl⟩
    · cases h
  | consumer | release | pull | empty => exact .inr (.inr ⟨rfl, rfl⟩)

theorem view_of_producers (h : s'.producers = s.producers) : s'.view = s.view := by
  have hposts : s'.posts = s.posts := congrArg Producers.posts h
  have hsignals : s'.signals = s.signals := congrArg Producers.signals h
  have htask : s'.task = s.task := congrArg Producers.task h
  have hcloses : s'.closes = s.closes := congrArg Producers.closes h
  have hcount : s'.writeOffset = s.writeOffset := congrArg Signals.writeOffset hsignals
  have hclosed : s'.closed = s.closed := congrArg Signals.closed hsignals
  have hready : s'.closedReady = s.closedReady := congrArg Signals.closedReady hsignals
  have hcutoff : s'.writeClosedAt = s.writeClosedAt := congrArg Signals.writeClosedAt hsignals
  rw [State.view, State.view, hposts, htask, hcloses, hcount, hclosed, hready, hcutoff]

/-- The value `v` is an item of the call. -/
def Put.Has (w : Put V) (v : V) : Prop := ∃ i < w.count, v = w.item i

variable {x y : Traced V}

theorem traced_gate (h : (traced V o cfg).Reachable x) :
    Gate.Inv (cfg.gate o) x.state.view x.trace := by
  refine System.Reach.invariant (I := fun x => Gate.Inv (cfg.gate o) x.state.view x.trace) ?_ ?_ h
  · rintro x rfl
    refine .init ?_ rfl (fun _ => rfl) rfl
    cases o
    · exact (Nat.zero_mod _).symm
    · rfl
  · rintro x a y hi - hs
    obtain ⟨s', hs', rfl⟩ := Option.map_eq_some_iff.mp hs
    dsimp only
    rcases step_begins hs' with ⟨p, spurious, rfl, ht⟩ | ⟨p, pc, ha, hp, hb, -, -, rfl⟩ | ⟨ha, hq⟩
    · exact hi.step (State.taskStep_gate ht)
    · rw [ha, State.view_setTask]
      exact hi.starts (congrArg Pc.phase hp) hb
    · rw [ha, view_of_producers (step_producers hs' hq)]
      exact hi.other

/-- The late calls that take a ticket are going to be rejected. -/
def Timely (o : Offsets) (cfg : Config) (x : Traced V) (a : Act V) : Prop :=
  ∀ p, a.move = .step p → Gate.Timely (cfg.gate o) x.state.view x.trace p

/-- What a run keeps whose late calls are rejected. -/
structure Sound (o : Offsets) (cfg : Config) (x : Traced V) : Prop where
  gate : Gate.Inv (cfg.gate o) x.state.view x.trace
  turned : Gate.Turned (cfg.gate o) x.state.view x.trace
  carries : x.state.Carries fun v => ∃ w ∈ x.early, w.Has v
  put : ∀ p w, (x.state.task p).put = some w → x.trace.late p = false → w ∈ x.early
  fits : ∀ p, (x.state.task p).Fits

theorem Sound.init : Sound o cfg (⟨.init, .init, []⟩ : Traced V) where
  gate := traced_gate (.init rfl)
  turned := .init fun _ => rfl
  carries := { heap := fun p i v hv => (by cases hv), pulls := fun n v hv => (by cases hv) }
  put p w hw := by cases hw
  fits p w hw := by cases hw

theorem Sound.step (h : Sound o cfg x) (ht : Timely o cfg x a)
    (hs : tracedStep o cfg x a = some y) : Sound o cfg y := by
  obtain ⟨s', hs', rfl⟩ := Option.map_eq_some_iff.mp hs
  have hsub : ∀ w ∈ x.early, w ∈ if x.state.closes = 0 then x.early ++ a.put else x.early :=
    fun w hw => by
      split
      · exact List.mem_append_left _ hw
      · exact hw
  have hmono : ∀ v, (∃ w ∈ x.early, w.Has v) →
      ∃ w ∈ if x.state.closes = 0 then x.early ++ a.put else x.early, w.Has v :=
    fun v ⟨w, hw, hv⟩ => ⟨w, hsub w hw, hv⟩
  rcases step_begins hs' with ⟨p, spurious, rfl, hp⟩ | ⟨p, pc, ha, hp, hb, hput, hfits, rfl⟩ | ⟨ha, hq⟩
  · have hfeed : Feeds (fun v => ∃ w ∈ x.early, w.Has v) p x.state s' := by
      refine State.taskStep_feeds hp h.carries (h.fits p) fun w idx k b hpc => ?_
      -- what is being written belongs to a call that the gate has let in
      have hlate : x.trace.late p = false :=
        h.turned.not_inside h.gate (r := idx) (congrArg Pc.phase hpc)
      have hfit := h.fits p
      rw [hpc] at hfit
      exact ⟨w, h.put p w (by rw [hpc]; rfl) hlate, k, hfit, rfl⟩
    have hother := (State.taskStep_seen hp).other
    refine ⟨h.gate.step (State.taskStep_gate hp),
      h.turned.step h.gate (State.taskStep_gate hp) (ht p rfl), hfeed.carries.mono hmono,
      fun q w hw hl => ?_, fun q => ?_⟩
    · rw [show Act.move (.task p spurious : Act V) = .step p from rfl, Gate.Trace.next_late] at hl
      by_cases hqp : q = p
      · subst hqp
        rcases hfeed.put with hnone | hsame
        · cases hnone.symm.trans hw
        · exact hsub w (h.put q w (hsame ▸ hw) hl)
      · rw [hother q hqp] at hw
        exact hsub w (h.put q w hw hl)
    · by_cases hqp : q = p
      · rw [hqp]
        exact hfeed.fits
      · rw [hother q hqp]
        exact h.fits q
  · have hself : (x.state.setTask p pc).task p = pc := Function.update_self ..
    have hother : ∀ q, q ≠ p → (x.state.setTask p pc).task q = x.state.task q :=
      fun q hqp => Function.update_of_ne hqp ..
    have hview : (x.state.setTask p pc).view = x.state.view.set p pc.phase := State.view_setTask
    have hnext : x.trace.next x.state.view (x.state.setTask p pc).view a.move =
        x.trace.start x.state.view p := by
      rw [ha]
      exact Gate.Trace.next_quiet rfl
    have hcarries : (x.state.setTask p pc).Carries fun v => ∃ w ∈ x.early, w.Has v :=
      h.carries.congr rfl rfl
    refine ⟨?_, ?_, hcarries.mono hmono, fun q w hw hl => ?_, fun q => ?_⟩
    · dsimp only
      rw [hview, ha]
      exact h.gate.starts (congrArg Pc.phase hp) hb
    · dsimp only
      rw [hview, ha]
      exact h.turned.starts hb
    · rw [hnext] at hl
      by_cases hqp : q = p
      · subst hqp
        rw [Gate.Trace.start_late] at hl
        rw [hself] at hw
        have hzero : x.state.closes = 0 := Nat.eq_zero_of_not_pos (of_decide_eq_false hl)
        rw [if_pos hzero]
        exact List.mem_append_right _ (hput w hw)
      · rw [hother q hqp] at hw
        rw [(Gate.Trace.start_other hqp).1] at hl
        exact hsub w (h.put q w hw hl)
    · by_cases hqp : q = p
      · rw [hqp, hself]
        exact hfits
      · rw [hother q hqp]
        exact h.fits q
  · have hprod := step_producers hs' hq
    have htask : s'.task = x.state.task := congrArg Producers.task hprod
    have hcarries := h.carries.byConsumer hs' hq
    have hview : s'.view = x.state.view := view_of_producers hprod
    have hnext : x.trace.next x.state.view s'.view a.move = x.trace := by
      rw [ha, hview]
      exact Gate.Trace.next_quiet rfl
    refine ⟨?_, ?_, hcarries.mono hmono, fun q w hw hl => ?_, fun q => ?_⟩
    · dsimp only
      rw [hnext, hview]
      exact h.gate
    · dsimp only
      rw [hnext, hview]
      exact h.turned
    · rw [htask] at hw
      rw [hnext] at hl
      exact hsub w (h.put q w hw hl)
    · rw [htask]
      exact h.fits q

end CoroUtil.MpscUnbounded
