import CoroUtil.MpscUnbounded.Recycling

/-!
# What `empty()` says while a value waits

As in `qu_spsc_unbounded`, `await_suspend` may put its own pointer in exchange for
`DATA_BIT`, and `empty()` does not take it for a value as long as the consumer holds
that scope.  `Held` is what the flags at `read_offset` are during a scope; only the
consumer writes them, since the slots that the tasks write are not behind them.
-/

namespace CoroUtil.MpscUnbounded

open CoroUtil.Blocks CoroUtil.General

variable {V : Type} {o : Offsets} {cfg : Config} {s s' : State V} {m : Map V} {p : Tid}
  {n idx k b c : Nat} {a : Act V} {g spurious : Bool} {sc : Option (Nat × Nat)} {f : Find}

/-- Whether the latest scope is one that `await_suspend` has got in exchange for its
pointer: what a step makes of it. -/
def State.grabs (cfg : Config) (s : State V) (grabbed : Bool) : Act V → Bool
  | .consumer _ =>
    match s.consumer with
    | .poll .. => false
    | .tryWait idx b => decide ((s.elem cfg b idx).flags = .data)
    | _ => grabbed
  | _ => grabbed

/-- A step with this note. -/
def noteStep (o : Offsets) (cfg : Config) (x : State V × Bool) (a : Act V) :
    Option (State V × Bool) :=
  (step o cfg x.1 a).map fun s => (s, x.1.grabs cfg x.2 a)

/-- The slot at `read_offset` in block `b` has a value, and no task is about to
publish it. -/
def State.Waits (o : Offsets) (cfg : Config) (s : State V) (b : Nat) : Prop :=
  (s.elem cfg b s.readOffset).data ≠ none ∧
    ∀ p n, (s.task p).writes = some (n, b) → cfg.reg o n ≠ s.readOffset

/-- The consumer holds a scope that `await_suspend` has got in exchange for its pointer. -/
def State.hides (s : State V) (grabbed : Bool) : Prop :=
  s.consumer.scope ≠ none ∧ grabbed = true

/-- What `empty()` says while a value waits. -/
structure Tells (o : Offsets) (cfg : Config) (s : State V) (grabbed : Bool) : Prop where
  /-- Its answer. -/
  answer : ∀ scope b spurious s', s.consumer = .emptyPoll scope b → s.Waits o cfg b →
    step o cfg s (.consumer spurious) = some s' →
      ∃ a, s'.empties = s.empties ++ [a] ∧ (a = false ↔ ¬s.hides grabbed)
  /-- It comes to its answer. -/
  returns : ∀ scope f, s.consumer = .emptyFind scope f → ∃ n s',
    (List.replicate n (Act.consumer false)).foldlM (step o cfg) s = some s' ∧
      ∃ a, s'.empties = s.empties ++ [a]

/-! ## The flags of a slot that no task writes -/

namespace State

@[simp] theorem heap_check {d : Bool} : (s.check d).heap = s.heap := rfl

@[simp] theorem heap_setTask {pc : Pc V} : (s.setTask p pc).heap = s.heap := rfl

@[simp] theorem heap_setConsumer {pc : ConsumerPc} : (s.setConsumer pc).heap = s.heap := rfl

@[simp] theorem heap_returnPost {w : Put V} {d : Bool} : (s.returnPost p w idx d).heap = s.heap :=
  rfl

@[simp] theorem heap_returnClose : (s.returnClose p).heap = s.heap := rfl

@[simp] theorem heap_resumeConsumer : (s.resumeConsumer n).heap = s.heap := by
  rw [resumeConsumer]
  split
  · split <;> rfl
  · rfl

@[simp] theorem heap_afterStart {j : Job V} : (s.afterStart p j idx b).heap = s.heap := by
  cases j <;> rfl

@[simp] theorem heap_afterFind {j : Job V} : (s.afterFind p j idx c b).heap = s.heap := by
  rcases j with (v | ⟨items, count⟩) | - <;> rfl

@[simp] theorem heap_afterItem {w : Put V} : (s.afterItem o cfg p w idx k b).heap = s.heap := by
  rw [afterItem]
  split <;> rfl

@[simp] theorem heap_afterWrite {w : Put V} : (s.afterWrite o cfg p w idx k b).heap = s.heap := by
  cases w with
  | post v => rfl
  | bulk items count =>
    rw [afterWrite]
    split
    · rfl
    · exact heap_afterItem

theorem flags_setElem {i c : Nat} {e : Element Flags V}
    (hne : b = c ∧ cfg.slot n = cfg.slot i → e.flags = (s.elem cfg b n).flags) :
    ((s.setElem cfg c i e).elem cfg b n).flags = (s.elem cfg b n).flags := by
  rw [elem, setElem, Heap.elem_setElem]
  split
  · next h => exact hne h
  · rfl

theorem flags_congr (hheap : s'.heap = s.heap) :
    (s'.elem cfg b n).flags = (s.elem cfg b n).flags := by
  rw [elem, elem, hheap]

/-- `find_block` writes no flags. -/
theorem flags_find {f : Find} (hb : b < s.heap.fresh)
    (hheap : s'.heap = (f.step o cfg.toLayout idx s.heap).1) :
    (s'.elem cfg b n).flags = (s.elem cfg b n).flags := by
  rw [elem, elem, hheap]
  have hne : b ≠ s.heap.fresh := Nat.ne_of_lt hb
  cases f with
  | cas t off =>
    rw [Find.step]
    split
    · rw [Heap.elem_setNext, Heap.elem, Heap.elem, Heap.alloc]
      simp [Heap.setBlock, hne]
    · rfl
  | load t | next t off | check t off =>
    rw [Find.step]
    split <;> rfl
  | found t => rfl

/-- A task writes the flags of one slot at most. -/
theorem flags_taskStep (hs : s.taskStep .natural cfg p spurious = some s')
    (hb : b < s.heap.fresh)
    (hw : ∀ i, (s.task p).writes = some (i, b) → cfg.slot n ≠ cfg.slot i) :
    (s'.elem cfg b n).flags = (s.elem cfg b n).flags := by
  rw [taskStep] at hs
  cases hpc : s.task p
  all_goals
    rw [hpc] at hs hw
    dsimp only at hs
  case find j i observed f =>
    generalize hx : f.step .natural cfg.toLayout i s.heap = x at hs
    obtain ⟨heap, ok, f'⟩ := x
    have hheap : heap = (f.step .natural cfg.toLayout i s.heap).1 := by rw [hx]
    cases f' <;> cases hs <;> exact flags_find hb (Eq.trans (by simp) hheap)
  case findEnd w i observed t f =>
    generalize hx : f.step .natural cfg.toLayout _ s.heap = x at hs
    obtain ⟨heap, ok, f'⟩ := x
    have hheap : heap = (f.step .natural cfg.toLayout _ s.heap).1 := (congrArg Prod.fst hx).symm
    cases f' <;> cases hs <;> exact flags_find hb (Eq.trans (by simp) hheap)
  case emplace w i k t =>
    cases hs
    refine flags_setElem ?_
    rintro ⟨rfl, hslot⟩
    exact absurd hslot (hw _ rfl)
  case publish w i k t =>
    have hset : ((s.setFlags cfg t (i + k) .data).elem cfg b n).flags = (s.elem cfg b n).flags := by
      refine flags_setElem ?_
      rintro ⟨rfl, hslot⟩
      exact absurd hslot (hw _ rfl)
    rw [← hset]
    repeat' split at hs
    all_goals
      cases hs
      exact flags_congr (by simp)
  case exchangeClosed i t =>
    have hset : ((s.setFlags cfg t i .closed).elem cfg b n).flags = (s.elem cfg b n).flags := by
      refine flags_setElem ?_
      rintro ⟨rfl, hslot⟩
      exact absurd hslot (hw _ rfl)
    rw [← hset]
    repeat' split at hs
    all_goals
      cases hs
      exact flags_congr (by simp)
  all_goals
    repeat' split at hs
  all_goals
    cases hs
  all_goals exact flags_congr (by simp)

end State

/-! ## The flags during a scope -/

/-- What the note says of the flags at `read_offset`. -/
structure Held (cfg : Config) (s : State V) (grabbed : Bool) : Prop where
  scope : ∀ idx b, s.consumer.scope = some (idx, b) →
    (s.elem cfg b idx).flags = if grabbed then .consumer s.frame else .data
  waited : ∀ idx b e, s.consumer = .suspended idx b e ∨ s.consumer = .resumed idx b e →
    grabbed = false

/-- The slot of the scope is in the chain and has been published. -/
theorem Inv.scope (h : Inv cfg s m) (hs : s.consumer.scope = some (idx, b)) :
    Scope cfg s m idx b := by
  have hk := h.consumer
  cases hpc : s.consumer <;> rw [hpc] at hk hs
  case holding i c =>
    cases hs
    exact hk.2
  case emptyFind sc f | emptyPoll sc c =>
    have hs : sc = some (idx, b) := hs
    subst hs
    exact hk.2.2
  all_goals cases hs

/-- What a task writes has not been published. -/
theorem Inv.not_ready (h : Inv cfg s m) (hw : (s.task p).writes = some (n, b)) :
    ∀ v, m.stage n ≠ .ready v := by
  intro v hv
  have hk := h.task p
  cases hpc : s.task p <;> rw [hpc] at hw hk <;> cases hw
  case emplace w i k => cases hk.1.2.symm.trans hv
  case publish w i k => cases hk.1.2.symm.trans hv
  case exchangeClosed => cases hk.1.2.symm.trans hv

/-- No task writes the slot of the scope. -/
theorem Inv.apart_of_scope (h : Inv cfg s m) (hs : Scope cfg s m idx b) {i : Nat}
    (hw : (s.task p).writes = some (i, b)) : cfg.slot idx ≠ cfg.slot i := by
  intro hslot
  obtain ⟨⟨rfl, ho⟩, v, hv⟩ := hs
  have hoff := h.mem.ok.offset _ (h.mem.has le_rfl ho)
  rw [ho.2] at hoff
  have hbase := h.writes hw
  rw [State.offset, hoff, ← Layout.base_eq, Layout.base, Layout.base] at hbase
  rw [Layout.slot, Layout.slot] at hslot
  have hmod := Nat.mod_le s.readOffset cfg.blockSize
  have hmod' := Nat.mod_le i cfg.blockSize
  obtain rfl : s.readOffset = i := by omega
  exact h.not_ready hw v hv

/-- What a task does to the consumer: it may resume it, or set its `elem` to null. -/
structure Wakes (s s' : State V) : Prop where
  frame : s'.frame = s.frame
  consumer : s'.consumer = s.consumer ∨ ∃ i b e e', s.consumer = .suspended i b e ∧
    (s'.consumer = .suspended i b e' ∨ s'.consumer = .resumed i b e')

namespace Wakes

theorem of_eq (hf : s'.frame = s.frame) (hc : s'.consumer = s.consumer) : Wakes s s' :=
  ⟨hf, .inl hc⟩

theorem resumeConsumer : Wakes s (s.resumeConsumer n) := by
  rw [State.resumeConsumer]
  cases hc : s.consumer with
  | suspended i b e =>
    dsimp only
    split
    · exact ⟨rfl, .inr ⟨i, b, e, e, hc, .inr rfl⟩⟩
    · exact of_eq rfl rfl
  | _ => exact of_eq rfl rfl

theorem congr {t : State V} (h : Wakes s s') (hf : t.frame = s'.frame)
    (hc : t.consumer = s'.consumer) : Wakes s t := by
  refine ⟨hf.trans h.frame, ?_⟩
  rw [hc]
  exact h.consumer

theorem afterItem {w : Put V} (h : Wakes s s') : Wakes s (s'.afterItem o cfg p w idx k b) := by
  rw [State.afterItem]
  split <;> exact h.congr rfl rfl

theorem afterWrite {w : Put V} (h : Wakes s s') : Wakes s (s'.afterWrite o cfg p w idx k b) := by
  cases w with
  | post v => exact h.congr rfl rfl
  | bulk items count =>
    rw [State.afterWrite]
    split
    · exact h.congr rfl rfl
    · exact h.afterItem

theorem afterStart {j : Job V} (h : Wakes s s') : Wakes s (s'.afterStart p j idx b) := by
  cases j <;> exact h.congr rfl rfl

theorem afterFind {j : Job V} (h : Wakes s s') : Wakes s (s'.afterFind p j idx c b) := by
  rcases j with (v | ⟨items, count⟩) | - <;> exact h.congr rfl rfl

theorem taskStep (hs : s.taskStep o cfg p spurious = some s') : Wakes s s' := by
  rw [State.taskStep] at hs
  cases hpc : s.task p
  all_goals
    rw [hpc] at hs
    dsimp only at hs
  case resumeConsumer w i k t frame =>
    cases hs
    exact resumeConsumer.afterWrite
  case closeResume i frame =>
    cases hs
    exact resumeConsumer.congr rfl rfl
  case elemNull i frame =>
    split at hs
    · next i' b e hc =>
      split at hs <;> cases hs
      · exact ⟨rfl, .inr ⟨i', b, e, true, hc, .inl rfl⟩⟩
      · exact of_eq rfl rfl
    · cases hs
      exact of_eq rfl rfl
  all_goals
    repeat' split at hs
  all_goals
    cases hs
  all_goals
    first
    | exact of_eq rfl rfl
    | exact afterStart (of_eq (by rfl) (by rfl))
    | exact afterFind (of_eq (by rfl) (by rfl))
    | exact afterItem (of_eq (by rfl) (by rfl))
    | exact afterWrite (of_eq (by rfl) (by rfl))

end Wakes

theorem Held.init : Held cfg (.init : State V) false where
  scope _ _ h := by cases h
  waited _ _ _ h := by rcases h with h | h <;> cases h

theorem Held.taskStep (h : Held cfg s g) (hi : Inv cfg s m)
    (hs : s.taskStep .natural cfg p spurious = some s') : Held cfg s' g := by
  obtain ⟨hframe, hcons⟩ := Wakes.taskStep hs
  constructor
  · intro idx b hsc
    have hsc' : s.consumer.scope = some (idx, b) := by
      rcases hcons with heq | ⟨i, c, e, e', -, heq | heq⟩ <;> rw [heq] at hsc
      · exact hsc
      · cases hsc
      · cases hsc
    have hscope := hi.scope hsc'
    have hfresh : b < s.heap.fresh := by
      rw [← hscope.1.2.2]
      exact hi.mem.ok.fresh _ (hi.mem.has hscope.1.1.ge hscope.1.2)
    rw [State.flags_taskStep hs hfresh fun i hw => hi.apart_of_scope hscope hw, hframe]
    exact h.scope idx b hsc'
  · intro idx b e hw
    rcases hcons with heq | ⟨i, c, e, e', hc, -⟩
    · rw [heq] at hw
      exact h.waited idx b e hw
    · exact h.waited i c e (.inl hc)

/-- The consumer neither waits nor has a scope. -/
def ConsumerPc.away : ConsumerPc → Bool
  | suspended .. | resumed .. | holding .. => false
  | emptyFind scope _ | emptyPoll scope _ => scope.isNone
  | _ => true

theorem Held.away (h : s.consumer.away = true) : Held cfg s g where
  scope idx b hs := by
    cases hpc : s.consumer <;> rw [hpc] at h hs
    case holding => cases h
    case emptyFind sc f | emptyPoll sc c =>
      have hs : sc = some (idx, b) := hs
      subst hs
      cases h
    all_goals cases hs
  waited idx b e hw := by
    rcases hw with hw | hw <;> rw [hw] at h <;> cases h

theorem State.away_finishLast : (s.finishLast o cfg b).consumer.away = true := by
  rw [finishLast]
  repeat' split
  all_goals rfl

theorem State.away_startReclaim : (s.startReclaim o cfg b).consumer.away = true := by
  rw [startReclaim]
  split
  · exact away_finishLast
  · rfl

theorem State.away_tryReclaimBlocks : (s.tryReclaimBlocks o cfg b).consumer.away = true := by
  rw [tryReclaimBlocks]
  repeat' split
  · exact away_startReclaim
  · rfl
  · exact away_startReclaim

/-- The scope of a value that is handed out. -/
theorem Held.handOut (hf : (s.elem cfg b idx).flags = if g then .consumer s.frame else .data) :
    Held cfg (s.handOut cfg idx b) g := by
  have hout : (s.handOut cfg idx b).consumer = .holding idx b ∧
      (s.handOut cfg idx b).frame = s.frame ∧ (s.handOut cfg idx b).heap = s.heap := by
    rw [State.handOut]
    split <;> exact ⟨rfl, rfl, rfl⟩
  obtain ⟨hcons, hframe, hheap⟩ := hout
  constructor
  · intro i c hs
    rw [hcons] at hs
    cases hs
    rw [State.flags_congr hheap, hframe]
    exact hf
  · intro i c e hw
    rw [hcons] at hw
    rcases hw with hw | hw <;> cases hw

/-- The scope goes on while `empty()` is called. -/
theorem Held.keep (h : Held cfg s g) (hscope : s'.consumer.scope = s.consumer.scope)
    (hframe : s'.frame = s.frame)
    (hflags : ∀ idx b, s.consumer.scope = some (idx, b) →
      (s'.elem cfg b idx).flags = (s.elem cfg b idx).flags)
    (hwaited : ∀ i b e, s'.consumer ≠ .suspended i b e ∧ s'.consumer ≠ .resumed i b e) :
    Held cfg s' g where
  scope idx b hs := by
    rw [hscope] at hs
    rw [hflags idx b hs, hframe]
    exact h.scope idx b hs
  waited i b e hw := by
    rcases hw with hw | hw
    · exact absurd hw (hwaited i b e).1
    · exact absurd hw (hwaited i b e).2

theorem Inv.fresh_of_scope (h : Inv cfg s m) (hs : s.consumer.scope = some (idx, b)) :
    b < s.heap.fresh := by
  have hscope := h.scope hs
  rw [← hscope.1.2.2]
  exact h.mem.ok.fresh _ (h.mem.has hscope.1.1.ge hscope.1.2)

theorem Held.consumerStep (h : Held cfg s g) (hi : Inv cfg s m)
    (hs : s.consumerStep .natural cfg spurious = some s') :
    Held cfg s' (s.grabs cfg g (.consumer spurious)) := by
  have hk := hi.consumer
  rw [State.consumerStep] at hs
  rw [State.grabs]
  cases hpc : s.consumer
  all_goals
    rw [hpc] at hk hs
    dsimp only at hs ⊢
  case poll k idx b =>
    obtain ⟨-, hcl, hl, -⟩ := hk
    rcases Free.flags_cases hcl hl with ⟨hf, -⟩ | ⟨hf, -⟩ | ⟨hf, -⟩ <;> rw [hf] at hs
    · cases hs
      exact .handOut hf
    · cases k <;> cases hs <;> exact .away rfl
    · cases k <;> cases hs <;> exact .away rfl
  case tryWait idx b =>
    obtain ⟨-, hcl, hl, -⟩ := hk
    have hcell := hi.mem.cell_setFlags hl (.consumer s.frame)
    rcases Free.flags_cases hcl hl with ⟨hf, -⟩ | ⟨hf, -⟩ | ⟨hf, -⟩
    · rw [hf] at hs ⊢
      cases hs
      refine .handOut ?_
      rw [hl.2.elem, hcell]
      rfl
    · rw [hf] at hs ⊢
      cases hs
      exact .away rfl
    · rw [hf] at hs ⊢
      cases hs
      exact ⟨fun _ _ hne => (by cases hne), fun _ _ _ _ => rfl⟩
  case resumed idx b e =>
    obtain ⟨-, hcl, hl, hst⟩ := hk
    cases e with
    | true =>
      cases hs
      exact .away rfl
    | false =>
      cases hs
      obtain ⟨v, hv⟩ : ∃ v, m.stage idx = .ready v := hst
      rw [h.waited idx b false (.inr hpc)]
      refine .handOut ?_
      obtain ⟨rfl, ho⟩ := hl
      rw [ho.elem, hcl, hv]
      rfl
  case emptyFind sc f =>
    have hfresh : ∀ {idx b}, s.consumer.scope = some (idx, b) → b < s.heap.fresh :=
      hi.fresh_of_scope
    generalize hx : f.step .natural cfg.toLayout s.readOffset s.heap = x at hs
    obtain ⟨heap, ok, f'⟩ := x
    have hheap : heap = (f.step .natural cfg.toLayout s.readOffset s.heap).1 := by rw [hx]
    cases f' <;> cases hs
    all_goals
      exact h.keep (by rw [hpc]; rfl) rfl
        (fun idx b hsc => State.flags_find (hfresh hsc) hheap)
        (fun i b e => ⟨fun hne => (by cases hne), fun hne => (by cases hne)⟩)
  case emptyPoll sc b =>
    cases hs
    cases sc with
    | none => exact .away rfl
    | some x =>
      exact h.keep (by rw [hpc]; rfl) rfl (fun idx b hsc => rfl)
        (fun i b e => ⟨fun hne => (by cases hne), fun hne => (by cases hne)⟩)
  case find k idx f =>
    generalize f.step .natural cfg.toLayout idx s.heap = x at hs
    obtain ⟨heap, ok, f'⟩ := x
    cases f' <;> cases hs <;> exact .away rfl
  case reclaim b r last =>
    generalize r.step .natural cfg.toLayout s.heap s.tailBlock = x at hs
    obtain ⟨heap, tail, ok, r'⟩ := x
    cases r'
    case done =>
      cases hs
      split
      · exact .away rfl
      · exact .away State.away_startReclaim
    all_goals
      cases hs
      exact .away rfl
  case loadCutoff b =>
    cases hs
    exact .away State.away_finishLast
  case oldOffset b =>
    split at hs <;> cases hs
    · exact .away rfl
    · exact .away State.away_finishLast
  case startTarget b current offset =>
    cases hs
    split <;> exact .away rfl
  case startCas b current =>
    split at hs <;> cases hs <;> exact .away rfl
  all_goals
    cases hs
  all_goals exact .away rfl

theorem Held.step (h : Held cfg s g) (hi : Inv cfg s m) (hs : step .natural cfg s a = some s') :
    Held cfg s' (s.grabs cfg g a) := by
  have hcall : ∀ {q pc}, Held cfg (s.setTask q pc) g := fun {q pc} => ⟨h.scope, h.waited⟩
  cases a with
  | task p spurious => exact h.taskStep hi hs
  | consumer spurious => exact h.consumerStep hi hs
  | release =>
    have hs : s.release .natural cfg = some s' := hs
    rw [State.release] at hs
    split at hs
    · split at hs <;> cases hs
      · exact .away State.away_tryReclaimBlocks
      · exact .away rfl
    · cases hs
  | empty =>
    have hs : s.callEmpty = some s' := hs
    rw [State.callEmpty] at hs
    split at hs
    · cases hs
      exact .away rfl
    · next idx b hpc =>
      cases hs
      exact h.keep (by rw [hpc]; rfl) rfl (fun idx b hsc => rfl)
        (fun i b e => ⟨fun hne => (by cases hne), fun hne => (by cases hne)⟩)
    · cases hs
  | post p v | close p =>
    rw [MpscUnbounded.step] at hs
    split at hs <;> cases hs
    exact hcall
  | bulk p items count =>
    rw [MpscUnbounded.step] at hs
    split at hs
    · split at hs <;> cases hs
      split
      · exact h
      · exact hcall
    · cases hs
  | pull k =>
    unfold MpscUnbounded.step at hs
    dsimp only at hs
    split at hs
    · cases k with
      | pull =>
        dsimp only at hs
        split at hs <;> cases hs
        exact .away rfl
      | tryPull =>
        cases hs
        exact .away rfl
    · cases hs

/-! ## The answer -/

/-- A value that has been constructed and not published is about to be. -/
theorem Inv.publisher {v : V} (h : Inv cfg s m) (hv : m.stage n = .built v) :
    ∃ p w idx k b, s.task p = .publish w idx k b ∧ idx + k = n ∧ m.BlockOf cfg n b := by
  have hlt : n < s.writeOffset := by
    by_contra hge
    cases (h.ledger.unused n (Nat.not_lt.mp hge)).symm.trans hv
  rcases h.ledger.cover n hlt with ⟨x, hx, hle, hn⟩ | ⟨p, hp⟩ | hc
  · -- the calls that have returned have published their items, or constructed none
    obtain ⟨i, rfl⟩ : ∃ i, n = x.ticket + i := ⟨n - x.ticket, by omega⟩
    have hi : i < x.put.count := by omega
    cases hok : x.ok with
    | true => cases (((h.ledger.post x hx).accepted hok).1 i hi).symm.trans hv
    | false => cases (((h.ledger.post x hx).rejected hok).1 i hi).symm.trans hv
  · have hp : (m.role p).Covers n := hp
    have hk := h.task p
    cases hr : m.role p with
    | put w idx k acc =>
      rw [hr] at hp hk
      obtain ⟨hle, hn⟩ := hp
      obtain ⟨i, rfl⟩ : ∃ i, n = idx + i := ⟨n - idx, by omega⟩
      have hi : i < w.count := by omega
      have hput := h.ledger.put p w idx k acc hr
      obtain rfl : i = k := by
        rcases Nat.lt_trichotomy i k with hlt | heq | hgt
        · cases (hput.done i hlt).symm.trans hv
        · exact heq
        · cases (hput.todo i hgt hi).symm.trans hv
      have hacc : acc = true := by
        by_contra hne
        cases (hput.fresh (Bool.not_eq_true _ ▸ hne) i hi).symm.trans hv
      subst hacc
      cases hpc : s.task p <;> rw [hpc] at hk
      case publish w' idx' k' b =>
        cases hk.1.1
        exact ⟨p, w, idx, i, b, hpc, rfl, hk.2.2.1⟩
      case idle | closeCas | closeTicket | loadClosed => cases hk
      case fetchTicket | spinReady | loadClosedAt | storeClosedAt => cases hk.1
      case storeReady | exchangeClosed | elemNull | closeResume => cases hk.1.1
      case loadHint j i' | loadWriteBlock j i' =>
        cases j <;> cases hk.1
        cases hk.2.symm.trans hv
      case hintOffset j i' b | assertWriteBlock j i' b | find j i' b f =>
        cases j <;> cases hk.1.1
        cases hk.1.2.symm.trans hv
      case resumeConsumer w' idx' k' b frame =>
        cases hk.1.1
        cases (hk.1.2 hi).symm.trans hv
      case nextBlock w' idx' k' b =>
        cases hk.1.1
        cases (hk.1.2 hi).symm.trans hv
      all_goals
        cases hk.1.1
        cases hk.1.2.symm.trans hv
    | closer c =>
      rw [hr] at hp
      obtain rfl : n = c := hp
      rcases (h.ledger.cut n (h.ledger.closer p n hr)).2.2 with hm | ⟨hb, -⟩
      · cases hm.symm.trans hv
      · cases hb.symm.trans hv
    | out | winner =>
      rw [hr] at hp
      exact hp.elim
  · rcases (h.ledger.cut n hc).2.2 with hm | ⟨hb, -⟩
    · cases hm.symm.trans hv
    · cases hb.symm.trans hv

theorem Inv.ready_of_waits (h : Inv cfg s m) (hl : Looks cfg s m s.readOffset b)
    (hw : s.Waits .natural cfg b) : ∃ v, m.stage s.readOffset = .ready v := by
  have hdata := hw.1
  rw [hl.2.elem, h.mem.data _ le_rfl] at hdata
  cases hst : m.stage s.readOffset with
  | ready v => exact ⟨v, rfl⟩
  | built v =>
    obtain ⟨p, w, idx, k, c, hpc, hn, ho⟩ := h.publisher hst
    obtain rfl : c = b := ho.2.symm.trans hl.2.2
    exact absurd hn (hw.2 p (idx + k) (by rw [hpc]; rfl))
  | blank | mark =>
    rw [hst] at hdata
    exact absurd rfl hdata

theorem Inv.answer (h : Inv cfg s m) (hg : Held cfg s g) (hpc : s.consumer = .emptyPoll sc b)
    (hw : s.Waits .natural cfg b) (hs : s.consumerStep .natural cfg spurious = some s') :
    ∃ a, s'.empties = s.empties ++ [a] ∧ (a = false ↔ ¬s.hides g) := by
  have hk := h.consumer
  rw [hpc] at hk
  obtain ⟨-, hl, hsc⟩ := hk
  obtain ⟨v, hv⟩ := h.ready_of_waits hl hw
  rw [State.consumerStep, hpc] at hs
  cases hs
  have hempties : ∀ (t : State V), (t.afterEmpty sc).empties = t.empties := fun t => by
    cases sc <;> rfl
  refine ⟨_, hempties _, ?_⟩
  rw [State.hides, hpc, decide_eq_false_iff_not]
  cases sc with
  | none =>
    have hclear : Clear cfg s m := hsc
    have hflags : (s.elem cfg b s.readOffset).flags = .data := by
      rw [hl.2.elem, hclear, hv]
      rfl
    simp [hflags, ConsumerPc.scope]
  | some x =>
    obtain ⟨⟨hidx, ho⟩, -⟩ : Scope cfg s m x.1 x.2 := hsc
    obtain rfl : x.2 = b := by
      rw [hidx] at ho
      exact ho.2.symm.trans hl.2.2
    have hflags := hg.scope x.1 x.2 (by rw [hpc]; rfl)
    rw [hidx] at hflags
    rw [hflags]
    cases g <;> simp [ConsumerPc.scope]

/-! ## On registers -/

theorem State.waits_of_wrap (h : (s.wrap cfg.toLayout).Waits .wrapping cfg b) :
    s.Waits .natural cfg b := by
  refine ⟨?_, fun p n hw heq => ?_⟩
  · have hdata := h.1
    rw [show (s.wrap cfg.toLayout).readOffset = word cfg.bits s.readOffset from rfl,
      elem_wrap] at hdata
    exact hdata
  · have heq : n = s.readOffset := heq
    have hreg : ∀ {i}, ((s.task p).wrap cfg.toLayout).writes = some (i, b) →
        word cfg.bits i ≠ word cfg.bits s.readOffset := fun {i} hi => h.2 p i hi
    cases hpc : s.task p with
    | emplace w idx k c | publish w idx k c =>
      rw [hpc] at hw hreg
      cases hw
      refine hreg rfl ?_
      rw [word_word_add, heq]
    | exchangeClosed idx c =>
      rw [hpc] at hw hreg
      cases hw
      refine hreg rfl ?_
      rw [word_word, heq]
    | _ =>
      rw [hpc] at hw
      cases hw

theorem ConsumerPc.scope_wrap {L : Layout} {pc : ConsumerPc} :
    (pc.wrap L).scope = pc.scope.map fun x => (word L.bits x.1, x.2) := by
  cases pc <;> rfl

theorem State.hides_wrap : (s.wrap cfg.toLayout).hides g ↔ s.hides g := by
  rw [hides, hides, consumer_wrap, ConsumerPc.scope_wrap, Ne, Option.map_eq_none_iff]

theorem State.grabs_wrap : (s.wrap cfg.toLayout).grabs cfg g a = s.grabs cfg g a := by
  cases a with
  | consumer spurious =>
    rw [grabs, grabs, consumer_wrap]
    cases s.consumer with
    | tryWait idx b =>
      dsimp only [ConsumerPc.wrap]
      rw [elem_wrap]
    | _ => rfl
  | _ => rfl

/-- A step of the walk of `empty()`. -/
theorem Inv.emptyFind_step (h : Inv cfg s m) (hw : Window cfg s)
    (hpc : s.consumer = .emptyFind sc f) :
    ∃ t, MpscUnbounded.step .natural cfg s (.consumer false) = some t ∧ Window cfg t ∧
      t.empties = s.empties ∧ ((∃ b, t.consumer = .emptyPoll sc b) ∨
        ∃ f', t.consumer = .emptyFind sc f' ∧
          f'.left t.readOffset t.heap < f.left s.readOffset s.heap) := by
  have hk := h.consumer
  rw [hpc] at hk
  obtain ⟨-, hok, -⟩ := hk
  obtain ⟨c', -, hfree, -⟩ := (h.free fun n b e hne => by cases hpc.symm.trans hne).findStep hok
  have hleft := Find.left_step (L := cfg.toLayout) (h := s.heap) hok
  have hfound : ∀ c, f = .found c →
      (f.step .natural cfg.toLayout s.readOffset s.heap).2.2 = .found c := by
    rintro c rfl
    rfl
  have hhead := hfree.mem.offset_head
  have hold := h.mem.offset_head
  have hstep : ∀ {t}, s.consumerStep .natural cfg false = some t →
      MpscUnbounded.step .natural cfg s (.consumer false) = some t := id
  rw [State.consumerStep, hpc] at hstep
  dsimp only at hstep
  generalize f.step .natural cfg.toLayout s.readOffset s.heap = x at hstep hhead hleft hfound
  obtain ⟨heap, ok, f'⟩ := x
  have hwin : Window cfg ({ s with heap }.check ok) := by
    change s.writeOffset + cfg.blockSize < _
    rw [hhead]
    rw [Window, hold] at hw
    exact hw
  cases f' with
  | found b => exact ⟨_, hstep rfl, hwin, rfl, .inl ⟨b, rfl⟩⟩
  | load b | next b off | cas b off | check b off =>
    exact ⟨_, hstep rfl, hwin, rfl, .inr ⟨_, rfl, hleft fun c hc => by cases hfound c hc⟩⟩

theorem emptyPoll_step (hpc : s.consumer = .emptyPoll sc b) :
    ∃ t a, MpscUnbounded.step .natural cfg s (.consumer false) = some t ∧
      t.empties = s.empties ++ [a] := by
  have hs : ∃ a, s.consumerStep .natural cfg false =
      some ({ s with empties := s.empties ++ [a] }.afterEmpty sc) := by
    rw [State.consumerStep, hpc]
    exact ⟨_, rfl⟩
  obtain ⟨a, hs⟩ := hs
  exact ⟨_, a, hs, by cases sc <;> rfl⟩

/-- The walk of `empty()` comes to the block of `read_offset`. -/
theorem Inv.emptyFind_returns (h : Inv cfg s m) (hw : Window cfg s)
    (hpc : s.consumer = .emptyFind sc f) : ∃ (n : Nat) (t : State V),
      (List.replicate n (Act.consumer false)).foldlM (MpscUnbounded.step .wrapping cfg)
        (s.wrap cfg.toLayout) = some (t.wrap cfg.toLayout) ∧ ∃ a, t.empties = s.empties ++ [a] := by
  induction hleft : f.left s.readOffset s.heap using Nat.strongRecOn generalizing s m f with
  | ind r ih =>
    obtain ⟨t, hs, hw', he, hpc'⟩ := h.emptyFind_step hw hpc
    obtain ⟨m', hm'⟩ := h.step hs
    have hs' : MpscUnbounded.step .wrapping cfg (s.wrap cfg.toLayout) (.consumer false) =
        some (t.wrap cfg.toLayout) := by
      rw [(hw.near h).step h, hs]
      rfl
    rcases hpc' with ⟨b, hb⟩ | ⟨f', hf', hlt⟩
    · obtain ⟨u, a, hu, hea⟩ : ∃ u a, MpscUnbounded.step .natural cfg t (.consumer false) = some u ∧
          u.empties = t.empties ++ [a] := emptyPoll_step hb
      refine ⟨2, u, ?_, a, by rw [hea, he]⟩
      rw [List.replicate_succ, List.foldlM_cons, hs', List.replicate_one]
      change List.foldlM _ (t.wrap cfg.toLayout) _ = _
      rw [List.foldlM_cons, (hw'.near hm').step hm', hu]
      rfl
    · obtain ⟨n, u, hrun, a, ha⟩ := ih _ (hleft ▸ hlt) hm' hw' hf' rfl
      refine ⟨n + 1, u, ?_, a, by rw [ha, he]⟩
      rw [List.replicate_succ, List.foldlM_cons, hs']
      exact hrun

theorem Inv.tells (h : Inv cfg s m) (hg : Held cfg s g) (hw : Window cfg s) :
    Tells .wrapping cfg (s.wrap cfg.toLayout) g where
  answer sc b spurious s' hpc hwaits hs := by
    rw [(hw.near h).step h] at hs
    obtain ⟨t, ht, rfl⟩ := Option.map_eq_some_iff.mp hs
    rw [State.hides_wrap]
    cases hc : s.consumer <;> rw [State.consumer_wrap, hc] at hpc <;> cases hpc
    obtain ⟨a, he, hiff⟩ := h.answer hg hc (State.waits_of_wrap hwaits) ht
    exact ⟨a, he, hiff⟩
  returns sc f hpc := by
    cases hc : s.consumer <;> rw [State.consumer_wrap, hc] at hpc <;> cases hpc
    obtain ⟨n, t, hrun, ha⟩ := h.emptyFind_returns hw hc
    exact ⟨n, _, hrun, ha⟩

/-- The notes of a run on registers are those of the run on natural numbers. -/
theorem noted_wrap (acts : List (Act V)) (h : Inv cfg s m)
    (hrun : ∀ k x, (acts.take k).foldlM (noteStep .natural cfg) (s, g) = some x →
      Window cfg x.1) :
    acts.foldlM (noteStep .wrapping cfg) (s.wrap cfg.toLayout, g) =
      (acts.foldlM (noteStep .natural cfg) (s, g)).map fun x => (x.1.wrap cfg.toLayout, x.2) := by
  induction acts generalizing s m g with
  | nil => rfl
  | cons a acts ih =>
    have hn := (hrun 0 (s, g) rfl).near h
    have hstep : noteStep .wrapping cfg (s.wrap cfg.toLayout, g) a =
        (noteStep .natural cfg (s, g) a).map fun x => (x.1.wrap cfg.toLayout, x.2) := by
      rw [noteStep, noteStep, hn.step h, State.grabs_wrap]
      cases step .natural cfg s a <;> rfl
    rw [List.foldlM_cons, List.foldlM_cons, hstep]
    cases hs : noteStep .natural cfg (s, g) a with
    | none => rfl
    | some y =>
      obtain ⟨t, ht, rfl⟩ := Option.map_eq_some_iff.mp hs
      obtain ⟨m', h'⟩ := h.step ht
      refine ih h' fun k x hx => hrun (k + 1) x ?_
      rw [List.take_succ_cons, List.foldlM_cons, hs]
      exact hx

theorem noted_held {x : State V × Bool} (acts : List (Act V))
    (hx : acts.foldlM (noteStep .natural cfg) (.init, false) = some x) :
    ∃ m, Inv cfg x.1 m ∧ Held cfg x.1 x.2 := by
  refine System.Reach.invariant (M := .ofStep (.init, false) (noteStep .natural cfg))
    (I := fun x => ∃ m, Inv cfg x.1 m ∧ Held cfg x.1 x.2) (fun x hx => ?_)
    (fun x a y hi _ hs => ?_) (System.ofStep_reachable acts hx)
  · cases hx
    exact ⟨_, .init, .init⟩
  · obtain ⟨m, hm, hg⟩ := hi
    obtain ⟨t, ht, rfl⟩ := Option.map_eq_some_iff.mp hs
    obtain ⟨m', hm'⟩ := hm.step ht
    exact ⟨m', hm', hg.step hm ht⟩

/-- The answer of `empty()` while a value waits, in a run inside the window. -/
theorem tells (acts : List (Act V)) (hrun : ∀ k x,
      (acts.take k).foldlM (noteStep .natural cfg) (.init, false) = some x → Window cfg x.1)
    {x : State V × Bool} (hx : acts.foldlM (noteStep .wrapping cfg) (.init, false) = some x) :
    Tells .wrapping cfg x.1 x.2 := by
  have hwrap := noted_wrap acts (g := false) .init hrun
  rw [State.wrap_init, hx] at hwrap
  obtain ⟨y, hy, rfl⟩ := Option.map_eq_some_iff.mp hwrap.symm
  obtain ⟨m, hm, hg⟩ := noted_held acts hy
  refine hm.tells hg (hrun acts.length y ?_)
  rw [List.take_length]
  exact hy

/-- The value is published between the poll and the exchange of `pull()`, and `empty()`
is called while its scope is alive. -/
def raceThenEmpty : List (Act Nat) := List.flatten
  [[.pull .pull], consumerSteps 3, [.post 0 7], taskSteps 0 10, consumerSteps 1, [.empty],
   consumerSteps 1]

end CoroUtil.MpscUnbounded
