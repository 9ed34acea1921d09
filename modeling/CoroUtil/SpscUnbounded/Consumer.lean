import CoroUtil.SpscUnbounded.Publish

/-!
# The steps of the consumer keep the invariant

`Free` is the invariant without the consumer, which is taking a step and is not
waiting; `Free.close` puts it back.  Releasing the first value of a block moves
`head_block` there at once, and the blocks before it are recycled.
-/

namespace CoroUtil.SpscUnbounded

open CoroUtil.Blocks

variable {V : Type} {cfg : Config} {s s' : State V} {m m' : Map} {n b k r idx : Nat}
  {cpc : ConsumerPc} {call : Call} {grabbed : Bool}

/-! ## History -/

theorem handed_append (l l' : List (Pull V)) : handed (l ++ l') = handed l ++ handed l' := by
  induction l with
  | nil => rfl
  | cons x l ih => cases x <;> simp [handed, ih]

/-- The consumer is handed the value at `read_offset`. -/
theorem Recorded.handOut {v : V} (h : Recorded s m) (hscope : s.consumer.scope = none)
    (hlt : s.readOffset < m.next) (hv : s.constructed[s.readOffset]? = some v) :
    Recorded { s with
      consumer := .holding idx b
      pulls := s.pulls ++ [.ok v]
      grabbed } m := by
  have hopen : Pull.closed ∉ s.pulls := fun hc => by
    have heq := (h.closed hc).2
    omega
  have hvalues := h.values
  rw [hscope] at hvalues
  refine { h with values := ?_, closed := fun hc => ?_, last := fun l l' hl => ?_ }
  · change handed (s.pulls ++ [.ok v]) = s.constructed.take (s.readOffset + 1)
    have hvalues : handed s.pulls = s.constructed.take s.readOffset := hvalues
    rw [handed_append, hvalues, List.take_add_one, hv]
    rfl
  · exact absurd (by simpa using hc) hopen
  · have hc : Pull.closed ∈ s.pulls ++ [.ok v] := by
      rw [show s.pulls ++ [.ok v] = l ++ Pull.closed :: l' from hl]
      simp
    exact absurd (by simpa using hc) hopen

/-- The call returns without a value. -/
theorem Recorded.returnPull {x : Pull V} (h : Recorded s m) (hscope : s.consumer.scope = none)
    (hx : x = .closed ∧ m.sealed = true ∧ s.readOffset = m.next ∨
      x = .empty ∧ ¬(m.sealed = true ∧ s.readOffset = m.next)) : Recorded (s.returnPull x) m := by
  have hvalues := h.values
  rw [hscope] at hvalues
  have hnil : handed [x] = [] := by
    rcases hx with ⟨rfl, -⟩ | ⟨rfl, -⟩ <;> rfl
  have hpulls : (s.returnPull x).pulls = s.pulls ++ [x] := rfl
  refine { h with values := ?_, closed := fun hc => ?_, last := fun l l' hl y hy => ?_ }
  · rw [hpulls, handed_append, hnil, List.append_nil]
    exact hvalues
  · rcases hx with ⟨-, hmark⟩ | ⟨rfl, -⟩
    · exact hmark
    · exact h.closed (by simpa [hpulls] using hc)
  · rw [hpulls] at hl
    rcases hx with ⟨rfl, -⟩ | ⟨rfl, hne⟩
    · rcases List.append_eq_append_iff.mp hl with ⟨l₁, rfl, hl₁⟩ | ⟨l₁, hpre, hl₁⟩
      · -- the sentinel is reported for the first time, or again
        cases l₁ with
        | nil =>
          cases hl₁
          cases hy
        | cons z l₁ => simp at hl₁
      · cases l₁ with
        | nil =>
          cases hl₁
          cases hy
        | cons z l₁ =>
          cases hl₁
          rcases List.mem_append.mp hy with hy | hy
          · exact h.last l l₁ hpre y hy
          · exact List.mem_singleton.mp hy
    · have hc : Pull.closed ∈ s.pulls ++ [.empty] := by
        rw [hl]
        simp
      exact absurd (h.closed (by simpa using hc)) hne

/-! ## The invariant without the consumer -/

structure Free (cfg : Config) (s : State V) (m : Map) : Prop where
  mem : Mem cfg s m
  producer : Knows cfg s m s.producer
  wakes : s.producer.wakes = none
  nulls : s.producer.nulls = false
  recorded : Recorded s m
  sound : s.broken = false

theorem Inv.free (h : Inv cfg s m) (hw : ∀ i b e, s.consumer ≠ .suspended i b e) :
    Free cfg s m := by
  have hwakes : s.producer.wakes = none := by
    cases hf : s.producer.wakes with
    | none => rfl
    | some f =>
      obtain ⟨-, i, b, hc, -⟩ := h.awake.wakes f hf
      exact absurd hc (hw i b _)
  refine ⟨h.mem, h.producer, hwakes, ?_, h.recorded, h.sound⟩
  cases hpc : s.producer with
  | closeResume f =>
    rw [hpc] at hwakes
    cases hwakes
  | _ => rfl

/-- A step of the consumer, as the producer sees it. -/
theorem Free.move (h : Free cfg s m) (hmem : Mem cfg s' m') (hl : Later s m s' m')
    (hproducer : s'.producer = s.producer) (hrecorded : Recorded s' m')
    (hsound : s'.broken = false) : Free cfg s' m' where
  mem := hmem
  producer := by
    rw [hproducer]
    exact h.producer.later hl fun hne => absurd h.wakes hne
  wakes := hproducer ▸ h.wakes
  nulls := hproducer ▸ h.nulls
  recorded := hrecorded
  sound := hsound

/-- The consumer goes on at `c`. -/
theorem Free.close {c : ConsumerPc} (h : Free cfg s m) (hk : ConsumerKnows cfg s m c)
    (hscope : c.scope = s.consumer.scope)
    (hw : ∀ i b e, c = .suspended i b e → e = false ∧ m.next ≤ i ∧ m.sealed = false) :
    Inv cfg (s.setConsumer c) m where
  mem := h.mem.congr rfl rfl rfl rfl rfl
  producer := h.producer.later ⟨.refl _, rfl, rfl, rfl, rfl, rfl, rfl⟩ fun _ => rfl
  consumer := hk.aside (.of_eq h.mem rfl rfl rfl rfl rfl rfl rfl rfl rfl) h.mem
  awake := by
    refine ⟨fun f hf => ?_, fun i b e hc hor => ?_, fun i b e hc => ?_⟩
    · cases h.wakes.symm.trans hf
    · obtain ⟨-, hge, hs⟩ := hw i b e hc
      rcases hor with hlt | hseal
      · omega
      · cases hs.symm.trans hseal
    · exact (hw i b e hc).1.trans h.nulls.symm
  recorded :=
    { h.recorded with
      values := by
        change handed s.pulls = s.constructed.take (s.readOffset + if c.scope.isSome then 1 else 0)
        rw [hscope]
        exact h.recorded.values }
  sound := h.sound

/-- The consumer goes on at a place where it does not wait. -/
theorem Free.go {c : ConsumerPc} (h : Free cfg s m) (hpc : s.consumer = cpc)
    (hk : ConsumerKnows cfg s m c) (hscope : c.scope = cpc.scope)
    (hw : ∀ i b e, c ≠ .suspended i b e) : Inv cfg (s.setConsumer c) m :=
  h.close hk (hpc ▸ hscope) fun i b e hc => absurd hc (hw i b e)

theorem Free.grow {c' : Chain} {h' : Heap Flags V} (h : Free cfg s m)
    (hg : m.chain.Grows cfg.toLayout s.heap c' h') :
    Free cfg { s with heap := h' } { m with chain := c' } :=
  h.move (h.mem.grow hg) ⟨hg.ext, rfl, rfl, rfl, rfl, rfl, rfl⟩ rfl { h.recorded with } h.sound

/-- The consumer writes the flags at `read_offset`. -/
theorem Mem.setFlags (h : Mem cfg s m) (hl : Looks cfg s m idx b) (f : Flags) :
    Mem cfg (s.setFlags cfg b idx f) m := by
  obtain ⟨rfl, hb⟩ := hl
  refine h.setElem le_rfl hb rfl rfl rfl rfl rfl rfl rfl le_rfl h.write_near (fun i hi => ?_)
    fun i hi => ?_
  · split
    · next heq =>
      rw [heq, hb.elem]
      exact h.data _ le_rfl
    · exact h.data i hi
  · rw [if_neg (by omega)]
    exact h.flags i hi

theorem Free.setFlags (h : Free cfg s m) (hl : Looks cfg s m idx b) (f : Flags) :
    Free cfg (s.setFlags cfg b idx f) m :=
  h.move (h.mem.setFlags hl f) ⟨.refl _, rfl, rfl, rfl, rfl, rfl, rfl⟩ rfl
    { h.recorded with } h.sound

/-- The value at `read_offset` is handed out. -/
theorem Free.handOut (h : Free cfg s m) (hc : Calm s m) (hl : Looks cfg s m idx b)
    (hscope : s.consumer.scope = none) (hlt : s.readOffset < m.next)
    (hflags : (m.cell cfg s s.readOffset).flags = if grabbed then .consumer s.frame else .data) :
    Inv cfg (s.handOut cfg idx b grabbed) m := by
  have hlen := h.recorded.length
  obtain ⟨v, hv⟩ : ∃ v, s.constructed[s.readOffset]? = some v :=
    ⟨_, List.getElem?_eq_getElem (by omega)⟩
  have hdata : (s.elem cfg b idx).data = some v := by
    rw [hl.2.elem, hl.1, h.mem.data _ le_rfl, hv]
  rw [State.handOut, hdata]
  exact
    { mem := h.mem.congr rfl rfl rfl rfl rfl
      producer := h.producer.later ⟨.refl _, rfl, rfl, rfl, rfl, rfl, rfl⟩ fun _ => rfl
      consumer := ⟨{ hc with }, hl, hlt, hflags⟩
      awake := ⟨fun f hf => (by cases h.wakes.symm.trans hf), fun _ _ _ hne => (by cases hne),
        fun _ _ _ hne => (by cases hne)⟩
      recorded := h.recorded.handOut hscope hlt hv
      sound := h.sound }

/-- The call returns without a value. -/
theorem Free.returnPull {x : Pull V} (h : Free cfg s m) (hc : Calm s m) (hcl : Clear cfg s m)
    (hscope : s.consumer.scope = none)
    (hx : x = .closed ∧ m.sealed = true ∧ s.readOffset = m.next ∨
      x = .empty ∧ ¬(m.sealed = true ∧ s.readOffset = m.next)) : Inv cfg (s.returnPull x) m where
  mem := h.mem.congr rfl rfl rfl rfl rfl
  producer := h.producer.later ⟨.refl _, rfl, rfl, rfl, rfl, rfl, rfl⟩ fun _ => rfl
  consumer := ⟨{ hc with }, hcl⟩
  awake := ⟨fun f hf => (by cases h.wakes.symm.trans hf), fun _ _ _ hne => (by cases hne),
    fun _ _ _ hne => (by cases hne)⟩
  recorded := h.recorded.returnPull hscope hx
  sound := h.sound

/-! ## `pull` and `try_pull` -/

theorem Mem.headAt (h : Mem cfg s m) :
    Find.At cfg.toLayout m.chain m.head s.readOffset m.head s.headBlock :=
  ⟨le_rfl, h.head_last, h.head, h.head_le_div le_rfl⟩

theorem Free.assertRead (h : Free cfg s m) (hpc : s.consumer = .assertRead call)
    (hk : ConsumerKnows cfg s m s.consumer) :
    Inv cfg ((s.check (cfg.less .natural (s.offset s.headBlock)
      (cfg.reg .natural (1 + s.readOffset)))).setConsumer
      (.find call s.readOffset (.load s.headBlock))) m := by
  rw [hpc] at hk
  obtain ⟨hc, hcl, hcall⟩ := hk
  have hle := (Nat.le_div_iff_mul_le cfg.blockSize_pos).mp h.mem.headAt.le
  have hcheck : cfg.less .natural (s.offset s.headBlock) (cfg.reg .natural (1 + s.readOffset)) =
      true := by
    rw [Layout.less_natural, Layout.reg_natural, h.mem.offset_head, decide_eq_true_iff]
    omega
  rw [hcheck, State.check_true]
  exact h.go hpc ⟨hc, hcl, rfl, ⟨m.head, h.mem.headAt⟩, hcall⟩ rfl fun i b e hne => by cases hne

/-- A step of the consumer's `find_block`. -/
theorem Free.findStep (h : Free cfg s m) {f : Find} (hf : f.Ok cfg.toLayout m.chain m.head n) :
    ∃ c', Aside cfg s m { s with heap := (f.step .natural cfg.toLayout n s.heap).1 }
        { m with chain := c' } ∧
      Free cfg { s with heap := (f.step .natural cfg.toLayout n s.heap).1 } { m with chain := c' } ∧
      (f.step .natural cfg.toLayout n s.heap).2.1 = true ∧
      (f.step .natural cfg.toLayout n s.heap).2.2.Ok cfg.toLayout c' m.head n := by
  obtain ⟨c', hg, hok, hf'⟩ := Find.step_spec h.mem.ok h.mem.first hf
  exact ⟨c', .grow h.mem hg, h.grow hg, hok, hf'⟩

theorem Free.find {f : Find} (h : Free cfg s m) (hpc : s.consumer = .find call idx f)
    (hk : ConsumerKnows cfg s m s.consumer) (hs : s.consumerStep .natural cfg = some s') :
    ∃ m', Inv cfg s' m' := by
  rw [hpc] at hk
  obtain ⟨hc, hcl, rfl, hf, hcall⟩ := hk
  obtain ⟨c', ha, hfree, hok, hf'⟩ := h.findStep hf
  have hc' := hc.aside ha
  have hcl' := ha.clear hcl
  rw [State.consumerStep, hpc] at hs
  dsimp only at hs
  generalize f.step .natural cfg.toLayout s.readOffset s.heap = x at hs ha hfree hok hf' hc' hcl'
  obtain ⟨heap, ok, f'⟩ := x
  obtain rfl : ok = true := hok
  simp only [State.check_true] at hs
  cases f' with
  | found t =>
    cases hs
    obtain ⟨-, hlast, ht⟩ := hf'
    exact ⟨_, hfree.go (c := .poll call s.readOffset t) hpc ⟨hc', hcl', ⟨rfl, hlast, ht⟩, hcall⟩ rfl
      fun i b e hne => by cases hne⟩
  | load t | next t off | cas t off | check t off =>
    cases hs
    exact ⟨_, hfree.go (c := .find call s.readOffset _) hpc ⟨hc', hcl', rfl, hf', hcall⟩ rfl
      fun i b e hne => by cases hne⟩

/-- What the flags say at `read_offset`. -/
theorem Mem.flags_cases (h : Mem cfg s m) (hcl : Clear cfg s m) (hl : Looks cfg s m idx b) :
    (s.elem cfg b idx).flags = .data ∧ s.readOffset < m.next ∨
      (s.elem cfg b idx).flags = .closed ∧ m.sealed = true ∧ s.readOffset = m.next ∨
      (s.elem cfg b idx).flags = .null ∧ m.sealed = false ∧ s.readOffset = m.next := by
  obtain ⟨rfl, hb⟩ := hl
  have hle := h.read_le
  rw [hb.elem, hcl, Map.mark]
  rcases Nat.lt_or_ge s.readOffset m.next with hlt | hge
  · rw [if_pos hlt]
    exact .inl ⟨rfl, hlt⟩
  · have heq : s.readOffset = m.next := Nat.le_antisymm hle hge
    rw [if_neg (by omega)]
    cases hs : m.sealed with
    | true => exact .inr (.inl ⟨if_pos ⟨rfl, heq⟩, rfl, heq⟩)
    | false => exact .inr (.inr ⟨if_neg (by simp), rfl, heq⟩)

theorem Free.poll (h : Free cfg s m) (hpc : s.consumer = .poll call idx b)
    (hk : ConsumerKnows cfg s m s.consumer) (hs : s.consumerStep .natural cfg = some s') :
    ∃ m', Inv cfg s' m' := by
  rw [hpc] at hk
  obtain ⟨hc, hcl, hl, hcall⟩ := hk
  have hscope : s.consumer.scope = none := by rw [hpc]; rfl
  have hwait : call = .pull → ∃ m', Inv cfg (s.setConsumer (.tryWait idx b)) m' := fun hp =>
    ⟨m, h.go hpc ⟨hc, hcl, hl, hcall hp⟩ rfl fun i b e hne => by cases hne⟩
  rw [State.consumerStep, hpc] at hs
  dsimp only at hs
  rcases h.mem.flags_cases hcl hl with ⟨hf, hlt⟩ | ⟨hf, hmark⟩ | ⟨hf, hopen, -⟩
  · rw [hf] at hs
    cases hs
    exact ⟨m, h.handOut hc hl hscope hlt (hcl.trans (Map.mark_of_lt hlt))⟩
  · rw [hf] at hs
    cases call with
    | pull =>
      cases hs
      exact hwait rfl
    | tryPull =>
      cases hs
      exact ⟨m, h.returnPull hc hcl hscope (.inl ⟨rfl, hmark⟩)⟩
  · rw [hf] at hs
    cases call with
    | pull =>
      cases hs
      exact hwait rfl
    | tryPull =>
      cases hs
      exact ⟨m, h.returnPull hc hcl hscope (.inr ⟨rfl, fun hm => by cases hopen.symm.trans hm.1⟩)⟩

theorem Free.tryWait (h : Free cfg s m) (hpc : s.consumer = .tryWait idx b)
    (hk : ConsumerKnows cfg s m s.consumer) (hs : s.consumerStep .natural cfg = some s') :
    ∃ m', Inv cfg s' m' := by
  rw [hpc] at hk
  obtain ⟨hc, hcl, hl, hcan⟩ := hk
  have hscope : s.consumer.scope = none := by rw [hpc]; rfl
  have hfree := h.setFlags hl (.consumer s.frame)
  have hcell := h.mem.cell_setFlags hl (.consumer s.frame)
  have hc' : Calm (s.setFlags cfg b idx (.consumer s.frame)) m := { hc with }
  rw [State.consumerStep, hpc] at hs
  dsimp only at hs
  rcases h.mem.flags_cases hcl hl with ⟨hf, hlt⟩ | ⟨hf, hmark⟩ | ⟨hf, hopen, heq⟩
  · rw [hf] at hs
    cases hs
    exact ⟨m, hfree.handOut hc' hl hscope hlt hcell⟩
  · rw [hf] at hs
    cases hs
    exact ⟨m, hfree.go (c := .storeClosed idx b) hpc ⟨hc', hl, hmark⟩ rfl
      fun i b e hne => by cases hne⟩
  · rw [hf] at hs
    cases hs
    refine ⟨m, hfree.close (c := .suspended idx b false) ⟨hc', hl, ?_, hcan⟩ hscope.symm
      fun i b' e hne => ?_⟩
    · refine hcell.trans ?_
      change _ = m.waiting s.frame s.readOffset
      rw [Map.waiting, if_neg (by omega), if_neg (by simp [hopen])]
    · cases hne
      exact ⟨rfl, by rw [hl.1, heq], hopen⟩

theorem Free.storeClosed (h : Free cfg s m) (hpc : s.consumer = .storeClosed idx b)
    (hk : ConsumerKnows cfg s m s.consumer) :
    Inv cfg ((s.setFlags cfg b idx .closed).returnPull .closed) m := by
  rw [hpc] at hk
  obtain ⟨hc, hl, hmark⟩ := hk
  have hscope : s.consumer.scope = none := by rw [hpc]; rfl
  refine (h.setFlags hl .closed).returnPull { hc with } ?_ hscope (.inl ⟨rfl, hmark⟩)
  refine (h.mem.cell_setFlags hl .closed).trans ?_
  change _ = m.mark s.readOffset
  rw [Map.mark, if_neg (by omega), if_pos hmark]

theorem Free.resumed {e : Bool} (h : Free cfg s m) (hpc : s.consumer = .resumed idx b e)
    (hk : ConsumerKnows cfg s m s.consumer) (hs : s.consumerStep .natural cfg = some s') :
    ∃ m', Inv cfg s' m' := by
  rw [hpc] at hk
  obtain ⟨hc, hcl, hl, hst⟩ := hk
  have hscope : s.consumer.scope = none := by rw [hpc]; rfl
  rw [State.consumerStep, hpc] at hs
  cases e with
  | true =>
    cases hs
    exact ⟨m, h.returnPull hc hcl hscope (.inl ⟨rfl, hst⟩)⟩
  | false =>
    cases hs
    have hlt : s.readOffset < m.next := hst
    exact ⟨m, h.handOut hc hl hscope hlt (hcl.trans (Map.mark_of_lt hlt))⟩

/-! ## `empty` -/

theorem Free.emptyFind {scope : Option (Nat × Nat)} {f : Find} (h : Free cfg s m)
    (hpc : s.consumer = .emptyFind scope f) (hk : ConsumerKnows cfg s m s.consumer)
    (hs : s.consumerStep .natural cfg = some s') : ∃ m', Inv cfg s' m' := by
  rw [hpc] at hk
  obtain ⟨hc, hf, hsc⟩ := hk
  obtain ⟨c', ha, hfree, hok, hf'⟩ := h.findStep hf
  have hc' := hc.aside ha
  have hsc' := hsc.aside ha
  rw [State.consumerStep, hpc] at hs
  dsimp only at hs
  generalize f.step .natural cfg.toLayout s.readOffset s.heap = x at hs ha hfree hok hf' hc' hsc'
  obtain ⟨heap, ok, f'⟩ := x
  obtain rfl : ok = true := hok
  simp only [State.check_true] at hs
  cases f' with
  | found t =>
    cases hs
    obtain ⟨-, hlast, ht⟩ := hf'
    exact ⟨_, hfree.go (c := .emptyPoll scope t) hpc ⟨hc', ⟨rfl, hlast, ht⟩, hsc'⟩ rfl
      fun i b e hne => by cases hne⟩
  | load t | next t off | cas t off | check t off =>
    cases hs
    exact ⟨_, hfree.go (c := .emptyFind scope _) hpc ⟨hc', hf', hsc'⟩ rfl
      fun i b e hne => by cases hne⟩

theorem Free.setEmpties (h : Free cfg s m) (l : List Bool) : Free cfg { s with empties := l } m :=
  h.move (h.mem.congr rfl rfl rfl rfl rfl) ⟨.refl _, rfl, rfl, rfl, rfl, rfl, rfl⟩ rfl
    { h.recorded with } h.sound

theorem Free.emptyPoll {scope : Option (Nat × Nat)} {l : List Bool} (h : Free cfg s m)
    (hpc : s.consumer = .emptyPoll scope b) (hk : ConsumerKnows cfg s m s.consumer) :
    Inv cfg ({ s with empties := l }.afterEmpty scope) m := by
  rw [hpc] at hk
  obtain ⟨hc, -, hsc⟩ := hk
  have hc' : Calm { s with empties := l } m := { hc with }
  cases scope with
  | none =>
    exact (h.setEmpties l).go (c := .idle) hpc ⟨hc', hsc⟩ rfl fun i b e hne => by cases hne
  | some x =>
    obtain ⟨hl, hlt, hflags⟩ : Scope cfg s m x.1 x.2 := hsc
    exact (h.setEmpties l).go (c := .holding x.1 x.2) hpc ⟨hc', hl, hlt, hflags⟩ rfl
      fun i b e hne => by cases hne

/-! ## `finish_read` and `reclaim_blocks` -/

/-- The value at `read_offset` is destroyed, and the head moves to the block at
position `k`. -/
theorem Mem.release (h : Mem cfg s m) (hl : Looks cfg s m idx b) (hread : s.readOffset < m.next)
    (hk : m.head ≤ k) (hr : m.chain.block k = r)
    (hlt : k * cfg.blockSize < idx + 1) (hnear : idx + 1 ≤ (k + 1) * cfg.blockSize) :
    Mem cfg { s.setElem cfg b idx { s.elem cfg b idx with data := none } with
      readOffset := idx + 1
      headBlock := r } { m with head := k } := by
  obtain ⟨rfl, hb⟩ := hl
  have hcell : ∀ {i}, m.chain.first ≤ i / cfg.blockSize →
      m.cell cfg (s.setElem cfg b s.readOffset { s.elem cfg b s.readOffset with data := none }) i =
        if i = s.readOffset then { s.elem cfg b s.readOffset with data := none }
        else m.cell cfg s i := fun hi => h.cell_setElem le_rfl hb _ hi
  exact
    { h with
      ok := h.ok.congr le_rfl (fun _ _ => Heap.offset_setElem) (fun _ _ => Heap.next_setElem)
      first := h.first.trans hk
      head := hr
      head_lt := .inr hlt
      read_near := hnear
      read_le := hread
      data := fun i hi => by
        have hi : s.readOffset + 1 ≤ i := hi
        have hc := hcell (h.first_le_div (Nat.le_of_succ_le hi))
        rw [if_neg (by omega)] at hc
        exact (congrArg _ hc).trans (h.data i (by omega))
      flags := fun i hi => by
        have hi : s.readOffset + 1 < i := hi
        have hc := hcell (h.first_le_div (n := i) (by omega))
        rw [if_neg (by omega)] at hc
        exact (congrArg _ hc).trans (h.flags i (by omega))
      drained := fun i hi hlt => by
        have hlt : i < s.readOffset + 1 := hlt
        have hc := hcell (h.first.trans (hk.trans hi))
        refine (congrArg _ hc).trans ?_
        split
        · rfl
        · exact h.drained i (hk.trans hi) (by omega) }

/-- The consumer releases the value of its scope. -/
theorem Free.release (h : Free cfg s m) (hs : Scope cfg s m idx b)
    (hscope : s.consumer.scope = some (idx, b)) (hk : m.head ≤ k) (hr : m.chain.block k = r)
    (hlt : k * cfg.blockSize < idx + 1) (hnear : idx + 1 ≤ (k + 1) * cfg.blockSize) :
    Free cfg ({ s.setElem cfg b idx { s.elem cfg b idx with data := none } with
      readOffset := idx + 1
      headBlock := r }.setConsumer .idle) { m with head := k } := by
  have hmem := h.mem.release hs.looks hs.lt hk hr hlt hnear
  refine h.move (hmem.congr rfl rfl rfl rfl rfl)
    ⟨.refl _, rfl, rfl, rfl, rfl, rfl, rfl⟩ rfl ?_ h.sound
  have hvalues := h.recorded.values
  rw [hscope] at hvalues
  refine { h.recorded with values := ?_, closed := fun hcl => ?_ }
  · change handed s.pulls = s.constructed.take (idx + 1 + 0)
    rw [hs.looks.1]
    exact hvalues
  · have hlt := hs.lt
    have heq := (h.recorded.closed hcl).2
    omega

/-- The flags after `read_offset`, once its value is destroyed. -/
theorem Mem.clear_release (h : Mem cfg s m) (hl : Looks cfg s m idx b) :
    Clear cfg { s.setElem cfg b idx { s.elem cfg b idx with data := none } with
      readOffset := idx + 1
      headBlock := r } { m with head := k } := by
  obtain ⟨rfl, hb⟩ := hl
  have hcell := h.cell_setElem le_rfl hb { s.elem cfg b s.readOffset with data := none }
    (h.first_le_div (Nat.le_succ s.readOffset))
  rw [if_neg (by omega)] at hcell
  exact (congrArg _ hcell).trans (h.flags _ (Nat.lt_succ_self _))

/-- The blocks before that of `read_offset` hold no values. -/
theorem Mem.drained_release (h : Mem cfg s m) (hfirst : m.chain.first = m.head)
    (hl : Looks cfg s m idx b) (e : Element Flags V) :
    Reclaim.Drained cfg.toLayout m.chain (s.setElem cfg b idx e).heap (idx / cfg.blockSize) := by
  obtain ⟨rfl, hb⟩ := hl
  intro k hk hlt i hi
  have hhas := h.has le_rfl hb
  have hkl : k ≤ m.chain.last := hlt.le.trans hb.1
  have hdiv : (k * cfg.blockSize + i) / cfg.blockSize = k := by
    rw [Nat.mul_comm, Nat.mul_add_div cfg.blockSize_pos, Nat.div_eq_of_lt hi, Nat.add_zero]
  have hmod : (k * cfg.blockSize + i) % cfg.blockSize = i := by
    rw [Nat.mul_comm, Nat.mul_add_mod, Nat.mod_eq_of_lt hi]
  have hbefore : k * cfg.blockSize + i < s.readOffset :=
    Nat.lt_of_div_lt_div (c := cfg.blockSize) (by rw [hdiv]; exact hlt)
  have hnone := h.drained (k * cfg.blockSize + i) (by rw [hdiv, ← hfirst]; exact hk) hbefore
  rw [Map.cell, Chain.cell, hdiv, if_pos hkl, hmod] at hnone
  rw [State.setElem, Heap.elem_setElem, if_neg]
  · exact hnone
  · rintro ⟨heq, -⟩
    have := h.ok.inj _ _ ⟨hk, hkl⟩ hhas (heq.trans hb.2.symm)
    omega

/-- The assertion of `try_reclaim_blocks` holds. -/
theorem State.tryReclaimBlocks_of {o : Offsets}
    (hassert : s.headBlock = b ∨ cfg.less o (s.offset s.headBlock) (s.offset b) = true) :
    s.tryReclaimBlocks o cfg b =
      { s with headBlock := b }.setConsumer (.reclaim (.gather [] s.headBlock b)) := by
  have htrue : (decide (s.headBlock = b) || cfg.less o (s.offset s.headBlock) (s.offset b)) =
      true := by
    rw [Bool.or_eq_true, decide_eq_true_iff]
    exact hassert
  rw [State.tryReclaimBlocks, htrue, State.check_true]

theorem Inv.release (h : Inv cfg s m) (hs : s.release .natural cfg = some s') :
    ∃ m', Inv cfg s' m' := by
  cases hpc : s.consumer with
  | holding idx b =>
    have hcon := h.consumer
    rw [hpc] at hcon
    obtain ⟨hcalm, hsc⟩ := hcon
    have hfree := h.free fun i c e hne => by rw [hpc] at hne; cases hne
    have hscope : s.consumer.scope = some (idx, b) := by rw [hpc]; rfl
    obtain ⟨hidx, hb⟩ := hsc.looks
    have hsome : (s.elem cfg b idx).data.isSome = true := by
      have hlen := h.recorded.length
      have hlt := hsc.lt
      rw [hb.elem, hidx, h.mem.data _ le_rfl, List.getElem?_eq_getElem (by omega)]
      rfl
    rw [State.release, hpc] at hs
    dsimp only at hs
    rw [hsome, State.check_true] at hs
    cases hs
    split
    · next hslot =>
      -- the first value of its block: the blocks before it are recycled
      have hle : m.head ≤ idx / cfg.blockSize := h.mem.head_le_div hidx.ge
      have hbase : idx / cfg.blockSize * cfg.blockSize = idx :=
        Nat.div_mul_cancel (Nat.dvd_of_mod_eq_zero hslot)
      have hpos := cfg.blockSize_pos
      have hnear : idx + 1 ≤ (idx / cfg.blockSize + 1) * cfg.blockSize := by
        rw [Nat.add_mul, hbase, Nat.one_mul]
        omega
      have hoff : ∀ p, ({ s.setElem cfg b idx { s.elem cfg b idx with data := none } with
          readOffset := idx + 1 } : State V).offset p = s.offset p := fun p => Heap.offset_setElem
      rw [State.tryReclaimBlocks_of]
      · have hrel := hfree.release hsc hscope hle hb.2 (by omega) hnear
        have hcl := h.mem.clear_release (r := b) (k := idx / cfg.blockSize) hsc.looks
        refine ⟨_, hrel.go (c := .reclaim (.gather [] s.headBlock b)) rfl
          ⟨hcl, ?_, ?_, ⟨?_, hb.1, ?_, hb.2⟩,
          hcalm.tail, fun i hi => absurd hi (Nat.not_lt_zero _), Nat.zero_le _⟩ rfl
          fun i b e hne => by cases hne⟩
        · exact hcalm.first.trans_le hle
        · exact h.mem.drained_release hcalm.first hsc.looks _
        · exact hcalm.first.trans_le hle
        · rw [List.length_nil, Nat.add_zero]
          exact (congrArg m.chain.block hcalm.first).trans h.mem.head
      · rcases Nat.eq_or_lt_of_le hle with heq | hlt
        · exact .inl (by rw [← hb.2, ← heq]; exact h.mem.head.symm)
        · refine .inr ?_
          have hoffb : s.offset b = idx / cfg.blockSize * cfg.blockSize := by
            rw [State.offset, ← hb.2]
            exact h.mem.ok.offset _ (h.mem.has hidx.ge hb)
          have hless : s.offset s.headBlock < s.offset b := by
            rw [h.mem.offset_head, hoffb]
            exact Nat.mul_lt_mul_of_pos_right hlt hpos
          rw [Layout.less_natural, decide_eq_true_iff]
          exact (hoff _).trans_lt (hless.trans_eq (hoff b).symm)
    · next hslot =>
      have hnear : idx + 1 ≤ (m.head + 1) * cfg.blockSize := by
        have hread := h.mem.read_near
        have hne : idx ≠ (m.head + 1) * cfg.blockSize := fun heq => hslot (by
          rw [Layout.slot, heq, Nat.mul_mod_left])
        omega
      have hlt : m.head * cfg.blockSize < idx + 1 :=
        Nat.lt_succ_of_le ((Nat.le_div_iff_mul_le cfg.blockSize_pos).mp (h.mem.head_le_div hidx.ge))
      have hrel := hfree.release hsc hscope le_rfl h.mem.head hlt hnear
      have hcl := h.mem.clear_release (r := s.headBlock) (k := m.head) hsc.looks
      exact ⟨_, hrel.go (c := .idle) rfl ⟨{ hcalm with }, hcl⟩ rfl
        fun i b e hne => by cases hne⟩
  | _ =>
    rw [State.release, hpc] at hs
    cases hs

/-- A step of `reclaim_blocks`. -/
theorem Free.recycle {c' : Chain} {h' : Heap Flags V} {t : Nat} (h : Free cfg s m)
    (ha : Reclaim.After cfg.toLayout m.chain s.heap m.head c' h') (hfirst : c'.first ≤ m.head) :
    Free cfg { s with heap := h', tailBlock := t } { m with chain := c' } := by
  have hcell : ∀ n, m.head ≤ n / cfg.blockSize →
      Map.cell cfg { m with chain := c' } { s with heap := h', tailBlock := t } n =
        m.cell cfg s n := ha.cell
  refine h.move ?_ ⟨ha.ext, rfl, rfl, rfl, rfl, rfl, rfl⟩ rfl { h.recorded with } h.sound
  exact
    { h.mem with
      ok := ha.ok
      first := hfirst
      write_le := h.mem.write_le.trans ha.ext.last
      head := (ha.ext.block _ h.mem.head_last).trans h.mem.head
      write := (ha.ext.block _ h.mem.write_le).trans h.mem.write
      data := fun n hn => (congrArg _ (hcell n (h.mem.head_le_div hn))).trans (h.mem.data n hn)
      flags := fun n hn => (congrArg _ (hcell n (h.mem.head_le_div hn.le))).trans (h.mem.flags n hn)
      drained := fun n hn hlt => (congrArg _ (hcell n hn)).trans (h.mem.drained n hn hlt) }

theorem Free.reclaimStep {r : Reclaim} (h : Free cfg s m) (hpc : s.consumer = .reclaim r)
    (hk : ConsumerKnows cfg s m s.consumer) (hs : s.consumerStep .natural cfg = some s') :
    ∃ m', Inv cfg s' m' := by
  rw [hpc] at hk
  obtain ⟨hcl, hr⟩ := hk
  obtain ⟨c', ha, hok, hr'⟩ := Reclaim.step_spec h.mem.ok hr
  rw [State.consumerStep, hpc] at hs
  dsimp only at hs
  generalize r.step .natural cfg.toLayout s.heap s.tailBlock = x at hs ha hok hr'
  obtain ⟨heap, t, ok, r'⟩ := x
  obtain rfl : ok = true := hok
  simp only [State.check_true] at hs
  have hfree := h.recycle (t := t) ha hr'.1
  have hcl' : Clear cfg { s with heap, tailBlock := t } { m with chain := c' } :=
    (congrArg _ (ha.cell _ (h.mem.head_le_div le_rfl))).trans hcl
  cases r' with
  | done =>
    cases hs
    obtain ⟨-, -, hfirst, ht, -⟩ := hr'
    exact ⟨_, hfree.go (c := .idle) hpc ⟨⟨hfirst, ht⟩, hcl'⟩ rfl fun i b e hne => by cases hne⟩
  | gather un old new | reset un i old new | tailNext un t' old new | unlink un t' old new
  | tailOffset un t' old new | setOffset un i boff t' old new | relink un t' old new
  | tailAgain un t' old new =>
    cases hs
    exact ⟨_, hfree.go (c := .reclaim _) hpc ⟨hcl', hr'⟩ rfl fun i b e hne => by cases hne⟩

/-- A step of the consumer keeps the invariant. -/
theorem Inv.consumerStep (h : Inv cfg s m) (hs : s.consumerStep .natural cfg = some s') :
    ∃ m', Inv cfg s' m' := by
  have hk := h.consumer
  have hfree : (∀ i b e, s.consumer ≠ .suspended i b e) → Free cfg s m := h.free
  cases hpc : s.consumer with
  | idle | suspended idx b e | holding idx b =>
    rw [State.consumerStep, hpc] at hs
    cases hs
  | assertRead k =>
    rw [State.consumerStep, hpc] at hs
    cases hs
    exact ⟨m, (hfree (by simp [hpc])).assertRead hpc hk⟩
  | find k idx f => exact (hfree (by simp [hpc])).find hpc hk hs
  | poll k idx b => exact (hfree (by simp [hpc])).poll hpc hk hs
  | tryWait idx b => exact (hfree (by simp [hpc])).tryWait hpc hk hs
  | storeClosed idx b =>
    rw [State.consumerStep, hpc] at hs
    cases hs
    exact ⟨m, (hfree (by simp [hpc])).storeClosed hpc hk⟩
  | resumed idx b e => exact (hfree (by simp [hpc])).resumed hpc hk hs
  | reclaim r => exact (hfree (by simp [hpc])).reclaimStep hpc hk hs
  | emptyFind scope f => exact (hfree (by simp [hpc])).emptyFind hpc hk hs
  | emptyPoll scope b =>
    rw [State.consumerStep, hpc] at hs
    cases hs
    exact ⟨m, (hfree (by simp [hpc])).emptyPoll hpc hk⟩

end CoroUtil.SpscUnbounded
