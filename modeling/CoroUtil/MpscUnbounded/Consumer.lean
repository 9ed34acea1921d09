import CoroUtil.MpscUnbounded.Moves

/-!
# The steps of the consumer keep the invariant

`Free` is the invariant without the consumer, which is taking a step and is not
waiting; `Free.close` puts it back.  Releasing the first value of a block moves
`read_block` there, a reclaim that has reached its cutoff moves `head_block`,
and the start of one moves `write_block`: these moves change the positions of
the map and leave what the tasks hold alone.
-/

namespace CoroUtil.MpscUnbounded

open CoroUtil.Blocks

variable {V : Type} {cfg : Config} {s s' : State V} {m m' : Map V} {n b k idx : Nat}
  {cpc : ConsumerPc} {r : Reclaim} {call : Call}

/-! ## History -/

theorem handed_append (l l' : List (Pull V)) : handed (l ++ l') = handed l ++ handed l' := by
  induction l with
  | nil => rfl
  | cons x l ih => cases x <;> simp [handed, ih]

/-- The consumer is handed the value at `read_offset`. -/
theorem Recorded.handOut {v : V} (h : Recorded s m) (hscope : s.consumer.scope = none)
    (hv : m.stage s.readOffset = .ready v) :
    Recorded { s with
      consumer := .holding s.readOffset b
      pulls := s.pulls ++ [.ok s.readOffset v] } m := by
  have hopen : Pull.closed ∉ s.pulls := fun hc => by cases hv.symm.trans (h.closed hc)
  have hind := h.indices
  rw [hscope] at hind
  refine ⟨h.constructed, ?_, fun n u hu => ?_, fun hc => ?_, fun l l' hl => ?_⟩
  · dsimp only
    rw [handed_append, List.map_append, hind]
    exact (List.range_succ ..).symm
  · dsimp only at hu
    rw [handed_append, List.mem_append] at hu
    rcases hu with hu | hu
    · exact h.values n u hu
    · cases List.mem_singleton.mp hu
      exact hv
  · exact absurd (by simpa using hc) hopen
  · have hc : Pull.closed ∈ s.pulls ++ [.ok s.readOffset v] := by
      rw [show s.pulls ++ [.ok s.readOffset v] = l ++ Pull.closed :: l' from hl]
      simp
    exact absurd (by simpa using hc) hopen

/-- The call returns without a value. -/
theorem Recorded.returnPull {x : Pull V} (h : Recorded s m) (hscope : s.consumer.scope = none)
    (hx : x = .closed ∧ m.stage s.readOffset = .mark ∨
      (∃ k, x = .empty k) ∧ m.stage s.readOffset ≠ .mark) : Recorded (s.returnPull x) m := by
  have hind := h.indices
  rw [hscope] at hind
  have hnil : handed [x] = [] := by
    rcases hx with ⟨rfl, -⟩ | ⟨⟨k, rfl⟩, -⟩ <;> rfl
  have hpulls : (s.returnPull x).pulls = s.pulls ++ [x] := rfl
  refine ⟨h.constructed, ?_, fun n u hu => ?_, fun hc => ?_, fun l l' hl y hy => ?_⟩
  · rw [hpulls, handed_append, hnil, List.append_nil]
    exact hind
  · rw [hpulls, handed_append, hnil, List.append_nil] at hu
    exact h.values n u hu
  · rcases hx with ⟨-, hmark⟩ | ⟨⟨k, rfl⟩, -⟩
    · exact hmark
    · exact h.closed (by simpa [hpulls] using hc)
  · rw [hpulls] at hl
    rcases hx with ⟨rfl, -⟩ | ⟨⟨k, rfl⟩, hne⟩
    · rcases List.append_eq_append_iff.mp hl with ⟨l₁, rfl, hl₁⟩ | ⟨l₁, hpre, hl₁⟩
      · -- the sentinel is reported for the first time, or again
        cases l₁ with
        | nil =>
          cases hl₁
          cases hy
        | cons z l₁ => simp at hl₁
      · cases l₁ with
        | nil =>
          cases hl₁
          cases hy
        | cons z l₁ =>
          cases hl₁
          rcases List.mem_append.mp hy with hy | hy
          · exact h.last l l₁ hpre y hy
          · exact List.mem_singleton.mp hy
    · have hc : Pull.closed ∈ s.pulls ++ [.empty k] := by
        rw [hl]
        simp
      exact absurd (h.closed (by simpa using hc)) hne

/-! ## The invariant without the consumer -/

structure Free (cfg : Config) (s : State V) (m : Map V) : Prop where
  ledger : (m.ledger s).Ok
  mem : Mem cfg s m
  task : ∀ p, Knows cfg s m (m.role p) (s.task p)
  ready : s.closedReady = true → m.cut = some s.writeClosedAt
  recorded : Recorded s m
  sound : 1 < cfg.blockSize → s.broken = false
  awake : ∀ n b e, s.consumer ≠ .suspended n b e

theorem Inv.free (h : Inv cfg s m) (hw : ∀ n b e, s.consumer ≠ .suspended n b e) :
    Free cfg s m :=
  { h with awake := hw }

/-- A step of the consumer, as the tasks see it. -/
theorem Free.move (h : Free cfg s m) (hledger : (m'.ledger s').Ok) (hmem : Mem cfg s' m')
    (hlater : Later s m s' m') (htask : s'.task = s.task) (hrole : m'.role = m.role)
    (hstage : m'.stage = m.stage) (hready : s'.closedReady = true → m'.cut = some s'.writeClosedAt)
    (hrecorded : Recorded s' m') (hsound : 1 < cfg.blockSize → s'.broken = false)
    (hawake : ∀ n b e, s'.consumer ≠ .suspended n b e) : Free cfg s' m' where
  ledger := hledger
  mem := hmem
  task p := by
    rw [htask]
    refine (h.task p).later h.ledger hledger hlater (congrFun hrole p)
      (fun n _ => congrFun hstage n) fun n f e _ hw => ?_
    obtain ⟨⟨b, hb⟩, -⟩ := hw
    exact absurd hb (h.awake n b e)
  ready := hready
  recorded := hrecorded
  sound := hsound
  awake := hawake

theorem Free.setConsumer_task (h : Free cfg s m) (c : ConsumerPc) (p : Tid) :
    Knows cfg (s.setConsumer c) m (m.role p) (s.task p) := by
  refine (h.task p).later h.ledger h.ledger
    ⟨.refl _, fun _ _ _ => rfl, le_rfl, id, id, fun _ _ => id⟩ rfl
    (fun _ _ => rfl) fun n f e _ hw => ?_
  obtain ⟨⟨b, hb⟩, -⟩ := hw
  exact absurd hb (h.awake n b e)

/-- The consumer goes on at `c`. -/
theorem Free.close {c : ConsumerPc} (h : Free cfg s m) (hk : ConsumerKnows cfg s m c)
    (hscope : c.scope = s.consumer.scope)
    (hw : ∀ n b e, c = .suspended n b e → m.stage n ≠ .mark ∧ ∀ v, m.stage n ≠ .ready v) :
    Inv cfg (s.setConsumer c) m where
  ledger := h.ledger
  mem := { h.mem with }
  task := h.setConsumer_task c
  consumer := hk.aside (.of_eq h.mem rfl rfl rfl rfl rfl rfl rfl rfl rfl le_rfl rfl) h.mem
  ready := h.ready
  wake n b e hc hs := by
    obtain ⟨hmark, hready⟩ := hw n b e hc
    rcases hs with hs | ⟨v, hv⟩
    · exact absurd hs hmark
    · exact absurd hv (hready v)
  recorded := h.recorded.congr rfl rfl rfl hscope rfl
  sound := h.sound

theorem Free.check {c : Bool} (h : Free cfg s m) (hc : 1 < cfg.blockSize → c = true) :
    Free cfg (s.check c) m := by
  refine h.move h.ledger { h.mem with }
    ⟨.refl _, fun _ _ _ => rfl, le_rfl, id, id, fun _ _ => id⟩ rfl rfl
    rfl h.ready (h.recorded.congr rfl rfl rfl rfl rfl) (fun hB => ?_) h.awake
  rw [State.check, h.sound hB, hc hB]
  rfl

theorem Free.grow {c' : Chain} {h' : Heap Flags V} (h : Free cfg s m)
    (hg : m.chain.Grows cfg.toLayout s.heap c' h') :
    Free cfg { s with heap := h' } { m with chain := c' } :=
  h.move h.ledger (h.mem.grow hg)
    ⟨hg.ext, fun _ _ _ => rfl, le_rfl, id, id, fun _ _ => id⟩ rfl rfl rfl
    h.ready (h.recorded.congr rfl rfl rfl rfl rfl) h.sound h.awake

theorem Map.setStage_eq : m.setStage n (m.stage n) = m := by
  rw [Map.setStage, Function.update_eq_self]

/-- The consumer writes the flags at `read_offset`. -/
theorem Mem.setFlags (h : Mem cfg s m) (hl : Looks cfg s m idx b) (f : Flags) :
    Mem cfg (s.setFlags cfg b idx f) m := by
  obtain ⟨rfl, hb⟩ := hl
  have hmem := h.setElem le_rfl hb (e := { s.elem cfg b s.readOffset with flags := f })
    (f := m.stage s.readOffset) ?_ fun hlt => absurd hlt (Nat.lt_irrefl _)
  · rw [Map.setStage_eq] at hmem
    exact hmem
  · rw [hb.elem]
    exact h.data _ le_rfl

theorem Mem.cell_setFlags (h : Mem cfg s m) (hl : Looks cfg s m idx b) (f : Flags) :
    (m.cell cfg (s.setFlags cfg b idx f) idx).flags = f := by
  obtain ⟨rfl, hb⟩ := hl
  rw [State.setFlags, h.cell_setElem le_rfl hb _ (h.first_le_div le_rfl), if_pos rfl]

theorem Free.setFlags (h : Free cfg s m) (hl : Looks cfg s m idx b) (f : Flags) :
    Free cfg (s.setFlags cfg b idx f) m :=
  h.move h.ledger (h.mem.setFlags hl f)
    ⟨.refl _, fun _ _ _ => rfl, le_rfl, id, id, fun _ _ => id⟩ rfl rfl
    rfl h.ready (h.recorded.congr rfl rfl rfl rfl rfl) h.sound h.awake

/-- The value at `read_offset` is handed out. -/
theorem Free.handOut {v : V} (h : Free cfg s m) (hc : Calm s m) (hl : Looks cfg s m idx b)
    (hscope : s.consumer.scope = none) (hv : m.stage idx = .ready v) :
    Inv cfg (s.handOut cfg idx b) m := by
  obtain ⟨rfl, hb⟩ := hl
  have hdata : (s.elem cfg b s.readOffset).data = some v := by
    rw [hb.elem, h.mem.data _ le_rfl, hv]
    rfl
  rw [State.handOut, hdata]
  exact
    { ledger := h.ledger
      mem := { h.mem with }
      task := h.setConsumer_task (.holding s.readOffset b)
      consumer := ⟨{ hc with }, ⟨rfl, hb⟩, v, hv⟩
      ready := h.ready
      wake := fun n b e hc => by cases hc
      recorded := h.recorded.handOut hscope hv
      sound := h.sound }

/-- The call returns without a value. -/
theorem Free.returnPull {x : Pull V} (h : Free cfg s m) (hc : Calm s m) (hcl : Clear cfg s m)
    (hscope : s.consumer.scope = none)
    (hx : x = .closed ∧ m.stage s.readOffset = .mark ∨
      (∃ k, x = .empty k) ∧ m.stage s.readOffset ≠ .mark) : Inv cfg (s.returnPull x) m where
  ledger := h.ledger
  mem := { h.mem with }
  task := h.setConsumer_task .idle
  consumer := ⟨{ hc with }, hcl⟩
  ready := h.ready
  wake n b e hc := by cases hc
  recorded := h.recorded.returnPull hscope hx
  sound := h.sound

/-! ## `pull` and `try_pull` -/

theorem Free.assertRead (h : Free cfg s m) (hpc : s.consumer = .assertRead call)
    (hk : ConsumerKnows cfg s m s.consumer) :
    Inv cfg ((s.check (cfg.less .natural (s.offset s.readBlock)
      (cfg.reg .natural (1 + s.readOffset)))).setConsumer
      (.find call s.readOffset (.load s.readBlock))) m := by
  rw [hpc] at hk
  obtain ⟨hc, hcl, hcall⟩ := hk
  have hat : Find.At cfg.toLayout m.chain m.read s.readOffset m.read s.readBlock :=
    ⟨le_rfl, h.mem.read_le, h.mem.read, h.mem.read_le_div le_rfl⟩
  have hoff : s.offset s.readBlock = m.read * cfg.blockSize := by
    rw [State.offset, ← h.mem.read]
    exact h.mem.ok.offset _
      ⟨h.mem.first.trans (h.mem.head_le.trans h.mem.write_le), h.mem.read_le⟩
  have hle := (Nat.le_div_iff_mul_le cfg.blockSize_pos).mp hat.le
  have hcheck : cfg.less .natural (s.offset s.readBlock) (cfg.reg .natural (1 + s.readOffset)) =
      true := by
    rw [Layout.less_natural, Layout.reg_natural, hoff, decide_eq_true_iff]
    omega
  refine (h.check fun _ => hcheck).close ⟨{ hc with }, hcl, rfl, ⟨m.read, hat⟩, hcall⟩ ?_
    fun n b e hne => by cases hne
  rw [show (s.check _).consumer = s.consumer from rfl, hpc]
  rfl

/-- A step of the consumer's `find_block`. -/
theorem Free.findStep (h : Free cfg s m) {f : Find}
    (hf : f.Ok cfg.toLayout m.chain m.read n) :
    ∃ c', Aside cfg s m { s with heap := (f.step .natural cfg.toLayout n s.heap).1 }
        { m with chain := c' } ∧
      Free cfg ({ s with heap := (f.step .natural cfg.toLayout n s.heap).1 }.check
        (f.step .natural cfg.toLayout n s.heap).2.1) { m with chain := c' } ∧
      (f.step .natural cfg.toLayout n s.heap).2.2.Ok cfg.toLayout c' m.read n := by
  obtain ⟨c', hg, hok, hf'⟩ := Find.step_spec h.mem.ok
    (h.mem.first.trans (h.mem.head_le.trans h.mem.write_le)) hf
  exact ⟨c', .grow h.mem hg, (h.grow hg).check fun _ => hok, hf'⟩

theorem Free.find {f : Find} {spurious : Bool} (h : Free cfg s m)
    (hpc : s.consumer = .find call idx f) (hk : ConsumerKnows cfg s m s.consumer)
    (hs : s.consumerStep .natural cfg spurious = some s') : ∃ m', Inv cfg s' m' := by
  rw [hpc] at hk
  obtain ⟨hc, hcl, rfl, hf, hcall⟩ := hk
  obtain ⟨c', ha, hfree, hf'⟩ := h.findStep hf
  have hc' := hc.aside ha
  have hcl' := ha.clear hcl
  rw [State.consumerStep, hpc] at hs
  dsimp only at hs
  have hscope : s.consumer.scope = none := by rw [hpc]; rfl
  generalize f.step .natural cfg.toLayout s.readOffset s.heap = x at hs ha hfree hf' hc' hcl'
  obtain ⟨heap, ok, f'⟩ := x
  cases f' with
  | found t =>
    cases hs
    obtain ⟨-, hlast, ht⟩ := hf'
    exact ⟨_, hfree.close (c := .poll call s.readOffset t)
      ⟨{ hc' with }, hcl', ⟨rfl, hlast, ht⟩, hcall⟩ hscope.symm fun n b e hne => by cases hne⟩
  | load t | next t off | cas t off | check t off =>
    cases hs
    exact ⟨_, hfree.close (c := .find call s.readOffset _)
      ⟨{ hc' with }, hcl', rfl, hf', hcall⟩ hscope.symm fun n b e hne => by cases hne⟩

/-- What the flags say at `read_offset`. -/
theorem Free.flags_cases (hcl : Clear cfg s m) (hl : Looks cfg s m idx b) :
    (s.elem cfg b idx).flags = .data ∧ (∃ v, m.stage idx = .ready v) ∨
      (s.elem cfg b idx).flags = .closed ∧ m.stage idx = .mark ∨
      (s.elem cfg b idx).flags = .null ∧ m.stage idx ≠ .mark ∧ ∀ v, m.stage idx ≠ .ready v := by
  obtain ⟨rfl, hb⟩ := hl
  rw [hb.elem, hcl]
  cases hs : m.stage s.readOffset with
  | ready v => exact .inl ⟨rfl, v, rfl⟩
  | mark => exact .inr (.inl ⟨rfl, rfl⟩)
  | blank | built v => exact .inr (.inr ⟨rfl, by simp, by simp⟩)

theorem Free.poll {spurious : Bool} (h : Free cfg s m) (hpc : s.consumer = .poll call idx b)
    (hk : ConsumerKnows cfg s m s.consumer)
    (hs : s.consumerStep .natural cfg spurious = some s') : ∃ m', Inv cfg s' m' := by
  rw [hpc] at hk
  obtain ⟨hc, hcl, hl, hcall⟩ := hk
  have hscope : s.consumer.scope = none := by rw [hpc]; rfl
  have hwait : call = .pull → ∃ m', Inv cfg (s.setConsumer (.tryWait idx b)) m' := fun hp =>
    ⟨m, h.close ⟨hc, hcl, hl, hcall hp⟩ hscope.symm fun n b e hne => by cases hne⟩
  rw [State.consumerStep, hpc] at hs
  dsimp only at hs
  rcases Free.flags_cases hcl hl with ⟨hf, v, hv⟩ | ⟨hf, hmark⟩ | ⟨hf, hmark, -⟩
  · rw [hf] at hs
    cases hs
    exact ⟨m, h.handOut hc hl hscope hv⟩
  · rw [hf] at hs
    cases call with
    | pull =>
      cases hs
      exact hwait rfl
    | tryPull =>
      cases hs
      exact ⟨m, h.returnPull hc hcl hscope (.inl ⟨rfl, hl.1 ▸ hmark⟩)⟩
  · rw [hf] at hs
    cases call with
    | pull =>
      cases hs
      exact hwait rfl
    | tryPull =>
      cases hs
      exact ⟨m, h.returnPull hc hcl hscope (.inr ⟨⟨_, rfl⟩, hl.1 ▸ hmark⟩)⟩

theorem Free.tryWait {spurious : Bool} (h : Free cfg s m) (hpc : s.consumer = .tryWait idx b)
    (hk : ConsumerKnows cfg s m s.consumer)
    (hs : s.consumerStep .natural cfg spurious = some s') : ∃ m', Inv cfg s' m' := by
  rw [hpc] at hk
  obtain ⟨hc, hcl, hl, hcan⟩ := hk
  have hscope : s.consumer.scope = none := by rw [hpc]; rfl
  have hfree := h.setFlags hl (.consumer s.frame)
  have hcell := h.mem.cell_setFlags hl (.consumer s.frame)
  rw [State.consumerStep, hpc] at hs
  dsimp only at hs
  rcases Free.flags_cases hcl hl with ⟨hf, v, hv⟩ | ⟨hf, hmark⟩ | ⟨hf, hmark, hready⟩
  · rw [hf] at hs
    cases hs
    exact ⟨m, hfree.handOut { hc with } hl hscope hv⟩
  · rw [hf] at hs
    cases hs
    exact ⟨m, hfree.close (c := .storeClosed idx b) ⟨{ hc with }, hl, hmark⟩ hscope.symm
      fun n b e hne => by cases hne⟩
  · rw [hf] at hs
    cases hs
    refine ⟨m, hfree.close (c := .suspended idx b false) ⟨{ hc with }, hl, ?_, by simp, hcan⟩
      hscope.symm fun n b' e hne => ?_⟩
    · rw [hcell]
      cases hst : m.stage idx with
      | blank | built v => rfl
      | ready v => exact absurd hst (hready v)
      | mark => exact absurd hst hmark
    · cases hne
      exact ⟨hmark, hready⟩

theorem Free.storeClosed (h : Free cfg s m) (hpc : s.consumer = .storeClosed idx b)
    (hk : ConsumerKnows cfg s m s.consumer) :
    Inv cfg ((s.setFlags cfg b idx .closed).returnPull .closed) m := by
  rw [hpc] at hk
  obtain ⟨hc, hl, hmark⟩ := hk
  have hscope : s.consumer.scope = none := by rw [hpc]; rfl
  have hcell := h.mem.cell_setFlags hl .closed
  refine (h.setFlags hl .closed).returnPull { hc with } ?_ hscope (.inl ⟨rfl, hl.1 ▸ hmark⟩)
  rw [hl.1] at hcell hmark
  rw [hl.1, Clear]
  exact hcell.trans (congrArg Stage.flags hmark).symm

theorem Free.resumed {e spurious : Bool} (h : Free cfg s m) (hpc : s.consumer = .resumed idx b e)
    (hk : ConsumerKnows cfg s m s.consumer)
    (hs : s.consumerStep .natural cfg spurious = some s') : ∃ m', Inv cfg s' m' := by
  rw [hpc] at hk
  obtain ⟨hc, hcl, hl, hst⟩ := hk
  have hscope : s.consumer.scope = none := by rw [hpc]; rfl
  rw [State.consumerStep, hpc] at hs
  cases e with
  | true =>
    cases hs
    exact ⟨m, h.returnPull hc hcl hscope (.inl ⟨rfl, hl.1 ▸ hst⟩)⟩
  | false =>
    cases hs
    obtain ⟨v, hv⟩ : ∃ v, m.stage idx = .ready v := hst
    exact ⟨m, h.handOut hc hl hscope hv⟩

/-! ## `empty` -/

theorem InScope.check {scope : Option (Nat × Nat)} {c : Bool} (h : InScope cfg s m scope) :
    InScope cfg (s.check c) m scope := by
  cases scope <;> exact h

theorem Free.emptyFind {scope : Option (Nat × Nat)} {f : Find} {spurious : Bool}
    (h : Free cfg s m) (hpc : s.consumer = .emptyFind scope f)
    (hk : ConsumerKnows cfg s m s.consumer)
    (hs : s.consumerStep .natural cfg spurious = some s') : ∃ m', Inv cfg s' m' := by
  rw [hpc] at hk
  obtain ⟨hc, hf, hsc⟩ := hk
  obtain ⟨c', ha, hfree, hf'⟩ := h.findStep hf
  have hc' := hc.aside ha
  have hsc' := hsc.aside ha
  have hscope : s.consumer.scope = scope := by rw [hpc]; rfl
  rw [State.consumerStep, hpc] at hs
  dsimp only at hs
  generalize f.step .natural cfg.toLayout s.readOffset s.heap = x at hs ha hfree hf' hc' hsc'
  obtain ⟨heap, ok, f'⟩ := x
  cases f' with
  | found t =>
    cases hs
    obtain ⟨-, hlast, ht⟩ := hf'
    exact ⟨_, hfree.close (c := .emptyPoll scope t)
      ⟨{ hc' with }, ⟨rfl, hlast, ht⟩, hsc'.check⟩ hscope.symm
      fun n b e hne => by cases hne⟩
  | load t | next t off | cas t off | check t off =>
    cases hs
    exact ⟨_, hfree.close (c := .emptyFind scope _) ⟨{ hc' with }, hf', hsc'.check⟩
      hscope.symm fun n b e hne => by cases hne⟩

theorem Free.setEmpties (h : Free cfg s m) (l : List Bool) : Free cfg { s with empties := l } m :=
  h.move h.ledger { h.mem with }
    ⟨.refl _, fun _ _ _ => rfl, le_rfl, id, id, fun _ _ => id⟩ rfl rfl rfl
    h.ready (h.recorded.congr rfl rfl rfl rfl rfl) h.sound h.awake

theorem Free.emptyPoll {scope : Option (Nat × Nat)} {l : List Bool} (h : Free cfg s m)
    (hpc : s.consumer = .emptyPoll scope b) (hk : ConsumerKnows cfg s m s.consumer) :
    Inv cfg ({ s with empties := l }.afterEmpty scope) m := by
  rw [hpc] at hk
  obtain ⟨hc, -, hsc⟩ := hk
  have hscope : s.consumer.scope = scope := by rw [hpc]; rfl
  cases scope with
  | none =>
    exact (h.setEmpties l).close (c := .idle) ⟨{ hc with }, hsc⟩ hscope.symm
      fun n b e hne => by cases hne
  | some x =>
    exact (h.setEmpties l).close (c := .holding x.1 x.2) ⟨{ hc with }, hsc⟩ hscope.symm
      fun n b e hne => by cases hne

end CoroUtil.MpscUnbounded
