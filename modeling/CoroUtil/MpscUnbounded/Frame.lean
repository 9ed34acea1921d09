import CoroUtil.MpscUnbounded.Invariant

/-!
# What a step leaves alone

`Later` is what the other tasks see of a step, `Aside` what the consumer sees of
a step of a task.  `Open` is the invariant without task `p`, which is taking a
step; `Open.move` carries it over the step and `Open.inv` puts the task back.
-/

namespace CoroUtil.MpscUnbounded

open CoroUtil.Blocks

variable {V : Type} {cfg : Config} {s s' : State V} {m m' : Map V} {p q : Tid} {pc : Pc V}
  {cpc : ConsumerPc} {n b k lo lo' idx : Nat} {j : Job V} {w : Put V}

theorem Map.BlockOf.mono (h : m.BlockOf cfg n b) (hext : m.chain.Extends m'.chain) :
    m'.BlockOf cfg n b := ⟨h.1.trans hext.last, (hext.block _ h.1).trans h.2⟩

theorem Map.Sees.mono (h : m.Sees lo k b) (hext : m.chain.Extends m'.chain) (hlo : lo' ≤ lo) :
    m'.Sees lo' k b :=
  ⟨hlo.trans h.1, h.2.1.trans hext.last, (hext.block _ h.2.1).trans h.2.2⟩

/-! ## Positions -/

theorem Mem.write_lt (h : Mem cfg s m) : m.write = 0 ∨ m.write * cfg.blockSize < s.readOffset := by
  have hle := h.write_le
  have hmul := Nat.mul_le_mul_right cfg.blockSize hle
  rcases h.read_lt with h0 | hlt
  · exact .inl (by omega)
  · exact .inr (by omega)

theorem Mem.write_le_div (h : Mem cfg s m) (hn : s.readOffset ≤ n) : m.write ≤ n / cfg.blockSize := by
  rcases h.write_lt with h0 | hlt
  · exact h0.trans_le (Nat.zero_le _)
  · exact (Nat.le_div_iff_mul_le cfg.blockSize_pos).mpr (by omega)

theorem Mem.read_le_div (h : Mem cfg s m) (hn : s.readOffset ≤ n) : m.read ≤ n / cfg.blockSize := by
  rcases h.read_lt with h0 | hlt
  · exact h0.trans_le (Nat.zero_le _)
  · exact (Nat.le_div_iff_mul_le cfg.blockSize_pos).mpr (by omega)

theorem Mem.head_le_floor (h : Mem cfg s m) (n : Nat) : m.head ≤ m.floor s n := by
  have hle := h.head_le
  rw [Map.floor]
  split
  · split
    · exact hle
    · exact le_rfl
  · exact le_rfl

theorem Mem.floor_le_write (h : Mem cfg s m) (n : Nat) : m.floor s n ≤ m.write := by
  have hle := h.head_le
  rw [Map.floor]
  split
  · split
    · exact le_rfl
    · exact hle
  · exact hle

theorem Mem.first_le_floor (h : Mem cfg s m) (n : Nat) : m.chain.first ≤ m.floor s n :=
  h.first.trans (h.head_le_floor n)

theorem Mem.head_le_div (h : Mem cfg s m) (hn : s.readOffset ≤ n) : m.head ≤ n / cfg.blockSize :=
  h.head_le.trans (h.write_le_div hn)

theorem Mem.first_le_div (h : Mem cfg s m) (hn : s.readOffset ≤ n) :
    m.chain.first ≤ n / cfg.blockSize := h.first.trans (h.head_le_div hn)

theorem Mem.has (h : Mem cfg s m) (hn : s.readOffset ≤ n) (hb : m.BlockOf cfg n b) :
    m.chain.Has (n / cfg.blockSize) := ⟨h.first_le_div hn, hb.1⟩

/-- The element of an index in its block. -/
theorem Map.BlockOf.elem (hb : m.BlockOf cfg n b) : s.elem cfg b n = m.cell cfg s n := by
  rw [State.elem, Map.cell, Chain.cell, if_pos hb.1, hb.2]
  rfl

/-- A write to the element of an index changes it and no other. -/
theorem Mem.cell_setElem (h : Mem cfg s m) (hn : s.readOffset ≤ n) (hb : m.BlockOf cfg n b)
    (e : Element Flags V) {i : Nat} (hi : m.chain.first ≤ i / cfg.blockSize) :
    m.cell cfg (s.setElem cfg b n e) i = if i = n then e else m.cell cfg s i := by
  have hdiv : n / cfg.blockSize * cfg.blockSize + n % cfg.blockSize = n := Nat.div_add_mod' ..
  have hcell := Chain.cell_setElem h.ok (h.has hn hb) (Nat.mod_lt n cfg.blockSize_pos) e hi
  rw [hdiv, hb.2] at hcell
  exact hcell

theorem InUse.mono (h : InUse cfg s k) (hw : s.writeOffset ≤ s'.writeOffset) : InUse cfg s' k :=
  h.imp_right fun hlt => hlt.trans_le hw

/-! ## The other tasks -/

theorem Ledger.Ok.role_covers (hg : (m.ledger s).Ok) (hr : m.role p = j.role idx) :
    (m.role p).Covers idx := by
  cases j with
  | put w =>
    have hpos := (hg.put p w idx 0 true hr).pos
    rw [hr]
    exact ⟨le_rfl, by omega⟩
  | close =>
    rw [hr]
    rfl

/-- What the other tasks see of a step. -/
structure Later (s : State V) (m : Map V) (s' : State V) (m' : Map V) : Prop where
  ext : m.chain.Extends m'.chain
  floor : ∀ n, s'.readOffset ≤ n → n < s.writeOffset → m'.floor s' n = m.floor s n
  write : s.writeOffset ≤ s'.writeOffset
  closed : s.closed = true → s'.closed = true
  ready : s.closedReady = true → s'.closedReady = true
  closedAt : ∀ c, m.cut = some c → s.writeClosedAt = c → s'.writeClosedAt = c

theorem Knows.later (hg : (m.ledger s).Ok) (hg' : (m'.ledger s').Ok) (hl : Later s m s' m')
    (hr : m'.role p = m.role p) (hs : ∀ n, (m.role p).Covers n → m'.stage n = m.stage n)
    (hw : ∀ n f e, pc.wakes = some n → Waits s n f e → Waits s' n f e)
    (h : Knows cfg s m (m.role p) pc) : Knows cfg s' m' (m'.role p) pc := by
  have hheld : ∀ {j : Job V} {idx : Nat}, m.role p = j.role idx ∧ m.stage idx = .blank →
      (m'.role p = j.role idx ∧ m'.stage idx = .blank) ∧ m'.floor s' idx = m.floor s idx := by
    rintro j idx ⟨hrole, hblank⟩
    have hcov := hg.role_covers hrole
    have hblank' := (hs idx hcov).trans hblank
    have hread : s'.readOffset ≤ idx := hg'.read_le_of fun v hv => by cases hblank'.symm.trans hv
    exact ⟨⟨hr.trans hrole, hblank'⟩, hl.floor idx hread (hg.covers_lt hcov)⟩
  have hput : ∀ {w idx}, m.role p = .put w idx 0 true ∧ m.stage idx = .blank →
      (m'.role p = .put w idx 0 true ∧ m'.stage idx = .blank) ∧
        m'.floor s' idx = m.floor s idx := fun {w idx} h => hheld (j := .put w) h
  have hclose : ∀ {idx}, m.role p = .closer idx ∧ m.stage idx = .blank →
      m'.role p = .closer idx ∧ m'.stage idx = .blank := fun {idx} h => (hheld (j := .close) h).1
  have hitem : ∀ {w idx k x}, m.role p = .put w idx k true ∧ m.stage (idx + k) = x → k < w.count →
      m'.role p = .put w idx k true ∧ m'.stage (idx + k) = x := by
    rintro w idx k x ⟨hrole, hst⟩ hk
    refine ⟨hr.trans hrole, (hs _ ?_).trans hst⟩
    rw [hrole]
    exact Role.covers_put hk
  have hnext : ∀ {w idx k}, m.role p = .put w idx k true ∧
      (k < w.count → m.stage (idx + k) = .blank) → m'.role p = .put w idx k true ∧
        (k < w.count → m'.stage (idx + k) = .blank) :=
    fun {w idx k} h => ⟨hr.trans h.1, fun hk => (hitem ⟨h.1, h.2 hk⟩ hk).2⟩
  cases pc with
  | idle | closeCas | loadClosed w idx | closeTicket => exact hr.trans h
  | fetchTicket w => exact ⟨hr.trans h.1, h.2⟩
  | spinReady w idx => exact ⟨hr.trans h.1, hl.closed h.2⟩
  | loadClosedAt w idx => exact ⟨hr.trans h.1, hl.ready h.2⟩
  | loadHint j idx | loadWriteBlock j idx => exact (hheld h).1
  | hintOffset j idx b =>
    obtain ⟨hh, k, hk, hu⟩ := h
    obtain ⟨hh', hfl⟩ := hheld hh
    exact ⟨hh', k, hk.mono hl.ext hfl.le, hu.mono hl.write⟩
  | assertWriteBlock j idx b =>
    obtain ⟨hh, k, hk⟩ := h
    obtain ⟨hh', hfl⟩ := hheld hh
    exact ⟨hh', k, hk.mono hl.ext hfl.le⟩
  | assertObserved w idx b =>
    obtain ⟨hh, k, hk⟩ := h
    obtain ⟨hh', hfl⟩ := hput hh
    exact ⟨hh', k, hk.mono hl.ext hfl.le⟩
  | find j idx observed f =>
    obtain ⟨hh, ⟨k, hk⟩, hf⟩ := h
    obtain ⟨hh', hfl⟩ := hheld hh
    exact ⟨hh', ⟨k, hk.mono hl.ext hfl.le⟩, hf.mono hl.ext hfl.le⟩
  | findEnd w idx observed b f =>
    obtain ⟨hh, ⟨k, hk⟩, hb, hf⟩ := h
    obtain ⟨hh', hfl⟩ := hput hh
    exact ⟨hh', ⟨k, hk.mono hl.ext hfl.le⟩, hb.mono hl.ext, hf.mono hl.ext hfl.le⟩
  | hintCurrent w idx b current target =>
    obtain ⟨hh, hb, ht, k, hk, hu⟩ := h
    obtain ⟨hh', hfl⟩ := hput hh
    exact ⟨hh', hb.mono hl.ext, ht.mono hl.ext, k, hk.mono hl.ext hfl.le, hu.mono hl.write⟩
  | hintTarget w idx b current target offset =>
    obtain ⟨hh, hb, ht, k, hk, hu, hoff⟩ := h
    obtain ⟨hh', hfl⟩ := hput hh
    exact ⟨hh', hb.mono hl.ext, ht.mono hl.ext, k, hk.mono hl.ext hfl.le, hu.mono hl.write, hoff⟩
  | hintCas w idx b current target =>
    obtain ⟨hh, hb, ht, k, hk, hlt⟩ := h
    obtain ⟨hh', hfl⟩ := hput hh
    exact ⟨hh', hb.mono hl.ext, ht.mono hl.ext, k, hk.mono hl.ext hfl.le, hlt⟩
  | emplace w idx k b =>
    obtain ⟨hh, hk, hb, hlast⟩ := h
    exact ⟨hitem hh hk, hk, hb.mono hl.ext, hlast.trans hl.ext.last⟩
  | publish w idx k b =>
    obtain ⟨hh, hk, hb, hlast⟩ := h
    exact ⟨hitem hh hk, hk, hb.mono hl.ext, hlast.trans hl.ext.last⟩
  | resumeConsumer w idx k b frame =>
    obtain ⟨hh, hk, hb, hlast, hwait⟩ := h
    exact ⟨hnext hh, hk, hb.mono hl.ext, hlast.trans hl.ext.last, hw _ _ _ rfl hwait⟩
  | nextBlock w idx k b =>
    obtain ⟨hh, hpos, hslot, hb, hlast⟩ := h
    exact ⟨hnext hh, hpos, hslot, hb.mono hl.ext, hlast.trans hl.ext.last⟩
  | storeClosedAt idx => exact hclose h
  | storeReady idx => exact ⟨hclose h.1, hl.closedAt idx (hg.closer p idx h.1.1) h.2⟩
  | exchangeClosed idx b => exact ⟨hclose h.1, h.2.mono hl.ext⟩
  | elemNull idx frame | closeResume idx frame =>
    obtain ⟨⟨hrole, hmark⟩, hwait⟩ := h
    refine ⟨⟨hr.trans hrole, (hs idx ?_).trans hmark⟩, hw _ _ _ rfl hwait⟩
    rw [hrole]
    rfl

/-- A task that is about to resume the consumer holds the index it waits for. -/
theorem Knows.covers (h : Knows cfg s m (m.role p) pc) (hw : pc.wakes = some n) :
    (m.role p).Covers n := by
  cases pc with
  | resumeConsumer w idx k b frame =>
    cases hw
    rw [h.1.1]
    exact Role.covers_put h.2.1
  | elemNull idx frame | closeResume idx frame =>
    cases hw
    rw [h.1.1]
    rfl
  | _ => cases hw

/-! ## The consumer -/

/-- What the consumer sees of a step of a task. -/
structure Aside (cfg : Config) (s : State V) (m : Map V) (s' : State V) (m' : Map V) : Prop where
  read : s'.readOffset = s.readOffset
  pending : s'.pendingReclaim = s.pendingReclaim
  tail : s'.tailBlock = s.tailBlock
  frame : s'.frame = s.frame
  headPos : m'.head = m.head
  writePos : m'.write = m.write
  readPos : m'.read = m.read
  hint : m.hint ≤ m'.hint
  blocks : Reclaim.Beside cfg.toLayout m.chain s.heap m.head m'.chain s'.heap
  clear : Clear cfg s m → Clear cfg s' m'
  waits : (m.cell cfg s s.readOffset).flags = (m.stage s.readOffset).waitFlags s.frame →
    (m'.cell cfg s' s.readOffset).flags = (m'.stage s.readOffset).waitFlags s.frame
  ready : ∀ v, m.stage s.readOffset = .ready v → m'.stage s.readOffset = .ready v
  mark : m.stage s.readOffset = .mark → m'.stage s.readOffset = .mark

section Aside

variable (ha : Aside cfg s m s' m')
include ha

theorem Calm.aside (h : Calm s m) : Calm s' m' where
  first := by rw [ha.blocks.first, ha.headPos, h.first]
  tail := ha.tail ▸ h.tail.beside ha.blocks
  write hp := by rw [ha.writePos, ha.headPos, h.write (ha.pending ▸ hp)]

theorem Looks.aside (h : Looks cfg s m idx b) : Looks cfg s' m' idx b :=
  ⟨h.1.trans ha.read.symm, h.2.mono ha.blocks.ext⟩

theorem Scope.aside (h : Scope cfg s m idx b) : Scope cfg s' m' idx b := by
  obtain ⟨hl, v, hv⟩ := h
  refine ⟨hl.aside ha, v, ?_⟩
  rw [hl.1] at hv ⊢
  exact ha.ready v hv

theorem InScope.aside {scope : Option (Nat × Nat)} (h : InScope cfg s m scope) :
    InScope cfg s' m' scope := by
  cases scope with
  | none => exact ha.clear h
  | some x => exact Scope.aside ha h

theorem Entered.aside (hm : Mem cfg s m) (h : Entered cfg s m b) : Entered cfg s' m' b := by
  refine ⟨?_, ?_⟩
  · rw [ha.readPos, ha.blocks.ext.block _ hm.read_le, h.1]
  · rw [ha.read, ha.readPos, h.2]

theorem Starting.aside (hm : Mem cfg s m) (h : Starting cfg s m b) : Starting cfg s' m' b where
  first := by rw [ha.blocks.first, ha.headPos, h.first]
  tail := ha.tail ▸ h.tail.beside ha.blocks
  write := by rw [ha.writePos, ha.readPos, h.write]
  pending := ha.pending.trans h.pending
  clear := ha.clear h.clear
  entered := h.entered.aside ha hm

theorem ConsumerKnows.aside (hm : Mem cfg s m) (h : ConsumerKnows cfg s m cpc) :
    ConsumerKnows cfg s' m' cpc := by
  have hfind : ∀ {f : Find} {i}, f.Ok cfg.toLayout m.chain m.read i →
      f.Ok cfg.toLayout m'.chain m'.read i := fun hf => hf.mono ha.blocks.ext ha.readPos.le
  have hsees : ∀ {k b}, m.Sees m.head k b → m'.Sees m'.head k b :=
    fun hk => hk.mono ha.blocks.ext ha.headPos.le
  cases cpc with
  | idle => exact ⟨h.1.aside ha, ha.clear h.2⟩
  | assertRead k => exact ⟨h.1.aside ha, ha.clear h.2.1, h.2.2⟩
  | find k idx f =>
    obtain ⟨hc, hcl, hidx, hf, hk⟩ := h
    exact ⟨hc.aside ha, ha.clear hcl, hidx.trans ha.read.symm, hfind hf, hk⟩
  | poll k idx b | tryWait idx b =>
    obtain ⟨hc, hcl, hl, hk⟩ := h
    exact ⟨hc.aside ha, ha.clear hcl, hl.aside ha, hk⟩
  | storeClosed idx b =>
    obtain ⟨hc, hl, hmark⟩ := h
    refine ⟨hc.aside ha, hl.aside ha, ?_⟩
    rw [hl.1] at hmark ⊢
    exact ha.mark hmark
  | suspended idx b e =>
    obtain ⟨hc, hl, hflags, hmark, hk⟩ := h
    refine ⟨hc.aside ha, hl.aside ha, ?_, fun he => ?_, hk⟩
    · rw [hl.1] at hflags ⊢
      rw [ha.frame]
      exact ha.waits hflags
    · have hmark := hmark he
      rw [hl.1] at hmark ⊢
      exact ha.mark hmark
  | resumed idx b e =>
    obtain ⟨hc, hcl, hl, hst⟩ := h
    refine ⟨hc.aside ha, ha.clear hcl, hl.aside ha, ?_⟩
    rw [hl.1] at hst ⊢
    split
    · next he =>
      rw [if_pos he] at hst
      exact ha.mark hst
    · next he =>
      rw [if_neg he] at hst
      obtain ⟨v, hv⟩ := hst
      exact ⟨v, ha.ready v hv⟩
  | holding idx b => exact ⟨h.1.aside ha, h.2.aside ha⟩
  | reclaim b r last =>
    obtain ⟨hcl, hr, hw, hp, hent⟩ := h
    refine ⟨ha.clear hcl, ?_, by rw [ha.writePos, ha.headPos, hw], ha.pending.trans hp,
      hent.aside ha hm⟩
    rw [ha.headPos, ha.tail]
    exact hr.frame ha.blocks hm.ok
  | assertHead b | oldOffset b | storeWriteBlock b =>
    obtain ⟨hc, hcl, hp, hent⟩ := h
    exact ⟨hc.aside ha, ha.clear hcl, ha.pending.trans hp, hent.aside ha hm⟩
  | startHint b => exact h.aside ha hm
  | startCurrent b current =>
    obtain ⟨hs, k, hk, hle⟩ := h
    exact ⟨hs.aside ha hm, k, hsees hk, hle.trans ha.hint⟩
  | startTarget b current offset =>
    obtain ⟨hs, k, hk, hle, hoff⟩ := h
    exact ⟨hs.aside ha hm, k, hsees hk, hle.trans ha.hint, hoff⟩
  | startCas b current =>
    obtain ⟨hs, k, hk, hlt⟩ := h
    exact ⟨hs.aside ha hm, k, hsees hk, ha.writePos ▸ hlt⟩
  | loadCutoff b => exact ⟨h.1.aside ha hm, ha.writePos ▸ h.2.trans ha.hint⟩
  | emptyFind scope f =>
    obtain ⟨hc, hf, hs⟩ := h
    refine ⟨hc.aside ha, ?_, hs.aside ha⟩
    rw [ha.read]
    exact hfind hf
  | emptyPoll scope b =>
    obtain ⟨hc, hl, hs⟩ := h
    refine ⟨hc.aside ha, ?_, hs.aside ha⟩
    rw [ha.read]
    exact hl.aside ha

end Aside

/-! ## A task at a time -/

/-- The invariant without task `p`, which is about to resume the consumer that
waits for index `w`. -/
structure Open (cfg : Config) (s : State V) (m : Map V) (p : Tid) (w : Option Nat) : Prop where
  ledger : (m.ledger s).Ok
  mem : Mem cfg s m
  task : ∀ q, q ≠ p → Knows cfg s m (m.role q) (s.task q)
  consumer : ConsumerKnows cfg s m s.consumer
  ready : s.closedReady = true → m.cut = some s.writeClosedAt
  wake : ∀ n b e, s.consumer = .suspended n b e → m.stage n = .mark ∨ (∃ v, m.stage n = .ready v) →
    (∃ q, q ≠ p ∧ (s.task q).wakes = some n) ∨ w = some n
  recorded : Recorded s m
  sound : 1 < cfg.blockSize → s.broken = false

theorem Inv.open (h : Inv cfg s m) (p : Tid) : Open cfg s m p (s.task p).wakes where
  ledger := h.ledger
  mem := h.mem
  task q _ := h.task q
  consumer := h.consumer
  ready := h.ready
  wake n b e hc hs := by
    obtain ⟨q, hq⟩ := h.wake n b e hc hs
    by_cases hqp : q = p
    · exact .inr (hqp ▸ hq)
    · exact .inl ⟨q, hqp, hq⟩
  recorded := h.recorded
  sound := h.sound

theorem Open.inv {x : Option Nat} (h : Open cfg s m p x) (hk : Knows cfg s m (m.role p) (s.task p))
    (hx : (s.task p).wakes = x) : Inv cfg s m where
  ledger := h.ledger
  mem := h.mem
  task q := by
    by_cases hqp : q = p
    · exact hqp ▸ hk
    · exact h.task q hqp
  consumer := h.consumer
  ready := h.ready
  wake n b e hc hs := by
    rcases h.wake n b e hc hs with ⟨q, -, hq⟩ | hn
    · exact ⟨q, hq⟩
    · exact ⟨p, hx.trans hn⟩
  recorded := h.recorded
  sound := h.sound

/-- A step of task `p`. -/
theorem Open.move {x x' : Option Nat} (h : Open cfg s m p x) (hledger : (m'.ledger s').Ok)
    (hmem : Mem cfg s' m') (hlater : Later s m s' m') (haside : Aside cfg s m s' m')
    (htask : ∀ q, q ≠ p → s'.task q = s.task q) (hconsumer : s'.consumer = s.consumer)
    (hrole : ∀ q, q ≠ p → m'.role q = m.role q)
    (hstage : ∀ q n, q ≠ p → (m.role q).Covers n → m'.stage n = m.stage n)
    (hready : s'.closedReady = true → m'.cut = some s'.writeClosedAt)
    (hwake : ∀ n b e, s.consumer = .suspended n b e →
      m'.stage n = .mark ∨ (∃ v, m'.stage n = .ready v) →
      (m.stage n = .mark ∨ (∃ v, m.stage n = .ready v)) ∧ (x = some n → x' = some n) ∨
        x' = some n)
    (hrecorded : Recorded s' m') (hsound : 1 < cfg.blockSize → s'.broken = false) :
    Open cfg s' m' p x' where
  ledger := hledger
  mem := hmem
  task q hq := by
    rw [htask q hq]
    refine (h.task q hq).later h.ledger hledger hlater (hrole q hq)
      (fun n hn => hstage q n hq hn) fun n f e _ hw => ?_
    obtain ⟨⟨b, hb⟩, hf⟩ := hw
    exact ⟨⟨b, hconsumer.trans hb⟩, hf.trans haside.frame.symm⟩
  consumer := hconsumer ▸ h.consumer.aside haside h.mem
  ready := hready
  wake n b e hc hs := by
    rw [hconsumer] at hc
    rcases hwake n b e hc hs with ⟨hs', hx⟩ | hx
    · rcases h.wake n b e hc hs' with ⟨q, hq, hqn⟩ | hn
      · exact .inl ⟨q, hq, by rw [htask q hq]; exact hqn⟩
      · exact .inr (hx hn)
    · exact .inr hx
  recorded := hrecorded
  sound := hsound

end CoroUtil.MpscUnbounded
