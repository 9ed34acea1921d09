import CoroUtil.MpscUnbounded.Frame

/-!
# The moves of a task

Each atomic operation of a producer or a closer is one of these moves.  A move
changes the memory and the map of a state whose task `p` is in the middle of its
step.
-/

namespace CoroUtil.MpscUnbounded

open CoroUtil.Blocks

variable {V : Type} {cfg : Config} {s s' : State V} {m m' : Map V} {p q : Tid} {pc : Pc V}
  {n b k idx : Nat} {w : Put V} {x : Option Nat} {acc : Bool}

/-! ## Moves that leave the elements alone -/

/-- The blocks are as they were. -/
theorem Aside.of_eq (hm : Mem cfg s m) (hheap : s'.heap = s.heap)
    (hread : s'.readOffset = s.readOffset) (hpending : s'.pendingReclaim = s.pendingReclaim)
    (htail : s'.tailBlock = s.tailBlock) (hframe : s'.frame = s.frame)
    (hchain : m'.chain = m.chain) (hhead : m'.head = m.head) (hwrite : m'.write = m.write)
    (hreadPos : m'.read = m.read) (hhint : m.hint ≤ m'.hint) (hstage : m'.stage = m.stage) :
    Aside cfg s m s' m' := by
  have hcell : ∀ n, m'.cell cfg s' n = m.cell cfg s n := fun n => by
    rw [Map.cell, Map.cell, hchain, hheap]
  refine ⟨hread, hpending, htail, hframe, hhead, hwrite, hreadPos, hhint, ?_, fun hc => ?_,
    fun hw => ?_, fun v hv => ?_, fun hv => ?_⟩
  · rw [hchain, hheap]
    exact .of_grows hm.ok (.refl hm.ok)
  · rw [Clear, hcell, hread, hstage]
    exact hc
  · rw [hcell, hstage]
    exact hw
  · rw [hstage]
    exact hv
  · rw [hstage]
    exact hv

/-- What the history says does not depend on the rest of the state. -/
theorem Recorded.congr (h : Recorded s m) (hc : s'.constructed = s.constructed)
    (hp : s'.pulls = s.pulls) (hr : s'.readOffset = s.readOffset)
    (hs : s'.consumer.scope = s.consumer.scope) (hstage : m'.stage = m.stage) :
    Recorded s' m' where
  constructed n v := by rw [hc, hstage]; exact h.constructed n v
  indices := by rw [hp, hr, hs]; exact h.indices
  values n v hv := by rw [hstage]; exact h.values n v (hp ▸ hv)
  closed hcl := by rw [hstage, hr]; exact h.closed (hp ▸ hcl)
  last l l' hl := h.last l l' (hp ▸ hl)

theorem Open.setTask (h : Open cfg s m p x) (pc : Pc V) : Open cfg (s.setTask p pc) m p x := by
  refine h.move h.ledger { h.mem with }
    ⟨.refl _, fun _ _ _ => rfl, le_rfl, id, id, fun _ _ => id⟩
    (.of_eq h.mem rfl rfl rfl rfl rfl rfl rfl rfl rfl le_rfl rfl) (fun q hq => ?_) rfl
    (fun _ _ => rfl) (fun _ _ _ _ => rfl) h.ready (fun _ _ _ _ hs => .inl ⟨hs, id⟩)
    (h.recorded.congr rfl rfl rfl rfl rfl) h.sound
  exact Function.update_of_ne hq ..

theorem Open.check (h : Open cfg s m p x) {c : Bool} (hc : 1 < cfg.blockSize → c = true) :
    Open cfg (s.check c) m p x := by
  refine h.move h.ledger { h.mem with }
    ⟨.refl _, fun _ _ _ => rfl, le_rfl, id, id, fun _ _ => id⟩
    (.of_eq h.mem rfl rfl rfl rfl rfl rfl rfl rfl rfl le_rfl rfl) (fun _ _ => rfl) rfl
    (fun _ _ => rfl) (fun _ _ _ _ => rfl) h.ready (fun _ _ _ _ hs => .inl ⟨hs, id⟩)
    (h.recorded.congr rfl rfl rfl rfl rfl) fun hB => ?_
  rw [State.check, h.sound hB, hc hB]
  rfl

/-- `find_block` has made the chain longer. -/
theorem Mem.grow {c' : Chain} {h' : Heap Flags V} (h : Mem cfg s m)
    (hg : m.chain.Grows cfg.toLayout s.heap c' h') :
    Mem cfg { s with heap := h' } { m with chain := c' } := by
  have hwrite := h.write_le.trans h.read_le
  have hhead := h.head_le.trans hwrite
  have hcell : ∀ n, m.chain.first ≤ n / cfg.blockSize →
      Map.cell cfg { m with chain := c' } { s with heap := h' } n = m.cell cfg s n := hg.cell
  exact
    { ok := hg.ok
      first := hg.first ▸ h.first
      head_le := h.head_le
      write_le := h.write_le
      read_le := h.read_le.trans hg.ext.last
      head_hint := h.head_hint
      hint_le := h.hint_le.trans hg.ext.last
      head := (hg.ext.block _ hhead).trans h.head
      write := (hg.ext.block _ hwrite).trans h.write
      read := (hg.ext.block _ h.read_le).trans h.read
      hint := (hg.ext.block _ h.hint_le).trans h.hint
      read_lt := h.read_lt
      read_near := h.read_near
      hint_lt := h.hint_lt
      pending := h.pending
      data := fun n hn => (congrArg _ (hcell n (h.first_le_div hn))).trans (h.data n hn)
      flags := fun n hn => (congrArg _ (hcell n (h.first_le_div hn.le))).trans (h.flags n hn)
      drained := fun n hn hlt =>
        (congrArg _ (hcell n (h.first.trans hn))).trans (h.drained n hn hlt) }

theorem Aside.grow {c' : Chain} {h' : Heap Flags V} (h : Mem cfg s m)
    (hg : m.chain.Grows cfg.toLayout s.heap c' h') :
    Aside cfg s m { s with heap := h' } { m with chain := c' } := by
  have hcell : Map.cell cfg { m with chain := c' } { s with heap := h' } s.readOffset =
      m.cell cfg s s.readOffset := hg.cell _ (h.first_le_div le_rfl)
  refine ⟨rfl, rfl, rfl, rfl, rfl, rfl, rfl, le_rfl, .of_grows h.ok hg, fun hc => ?_,
    fun hw => ?_, fun _ => id, id⟩
  · rw [Clear, hcell]
    exact hc
  · rw [hcell]
    exact hw

theorem Open.grow {c' : Chain} {h' : Heap Flags V} (h : Open cfg s m p x)
    (hg : m.chain.Grows cfg.toLayout s.heap c' h') :
    Open cfg { s with heap := h' } { m with chain := c' } p x :=
  h.move h.ledger (h.mem.grow hg) ⟨hg.ext, fun _ _ _ => rfl, le_rfl, id, id, fun _ _ => id⟩
    (.grow h.mem hg) (fun _ _ => rfl) rfl (fun _ _ => rfl) (fun _ _ _ _ => rfl) h.ready
    (fun _ _ _ _ hs => .inl ⟨hs, id⟩) (h.recorded.congr rfl rfl rfl rfl rfl) h.sound

/-- `write_block_hint` moves forward. -/
theorem Mem.setHint (h : Mem cfg s m) (hk : m.hint ≤ k) (hb : m.Sees m.head k b)
    (hlt : InUse cfg s k) :
    Mem cfg { s with writeBlockHint := b } { m with hint := k } :=
  { h with
    head_hint := hb.1
    hint_le := hb.2.1
    hint := hb.2.2
    hint_lt := hlt
    pending := fun old new hp => by
      obtain ⟨ho, hn, hle, hlo, hhi⟩ := h.pending old new hp
      exact ⟨ho, hn, hle.trans hk, hlo, hhi⟩ }

theorem Open.setHint (h : Open cfg s m p x) (hk : m.hint ≤ k) (hb : m.Sees m.head k b)
    (hlt : InUse cfg s k) :
    Open cfg { s with writeBlockHint := b } { m with hint := k } p x :=
  h.move h.ledger (h.mem.setHint hk hb hlt)
    ⟨.refl _, fun _ _ _ => rfl, le_rfl, id, id, fun _ _ => id⟩
    (.of_eq h.mem rfl rfl rfl rfl rfl rfl rfl rfl rfl hk rfl) (fun _ _ => rfl) rfl
    (fun _ _ => rfl) (fun _ _ _ _ => rfl) h.ready (fun _ _ _ _ hs => .inl ⟨hs, id⟩)
    (h.recorded.congr rfl rfl rfl rfl rfl) h.sound

/-- `write_offset` counts up. -/
theorem Mem.addWrite (h : Mem cfg s m) (n : Nat) {m' : Map V} (hc : m'.chain = m.chain)
    (hh : m'.head = m.head) (hw : m'.write = m.write) (hr : m'.read = m.read)
    (hi : m'.hint = m.hint) (hs : m'.stage = m.stage) :
    Mem cfg { s with writeOffset := s.writeOffset + n } m' := by
  obtain ⟨c, hd, wr, rd, ht, st, cut, role⟩ := m'
  dsimp only at hc hh hw hr hi hs
  subst hc hh hw hr hi hs
  exact
    { h with
      hint_lt := h.hint_lt.mono (Nat.le_add_right ..)
      pending := fun old new hp => by
        obtain ⟨ho, hn, hle, hlo, hhi⟩ := h.pending old new hp
        exact ⟨ho, hn, hle, hlo, Nat.le_add_right_of_le hhi⟩ }

theorem Open.reserve (h : Open cfg s m p x) (hp : m.role p = .out) (hw : 0 < w.count) :
    Open cfg { s with writeOffset := s.writeOffset + w.count }
      (m.setRole p (.put w s.writeOffset 0 false)) p x := by
  refine h.move (h.ledger.reserve hp hw) (h.mem.addWrite _ rfl rfl rfl rfl rfl rfl)
    ⟨.refl _, fun _ _ _ => rfl, Nat.le_add_right .., id, id, fun _ _ => id⟩
    (.of_eq h.mem rfl rfl rfl rfl rfl rfl rfl rfl rfl le_rfl rfl) (fun _ _ => rfl) rfl
    (fun q hq => ?_) (fun _ _ _ _ => rfl) h.ready (fun _ _ _ _ hs => .inl ⟨hs, id⟩)
    (h.recorded.congr rfl rfl rfl rfl rfl) h.sound
  exact Function.update_of_ne hq ..

/-- The closed test lets the call pass. -/
theorem Open.accept (h : Open cfg s m p x) (hp : m.role p = .put w idx k acc)
    (hc : ∀ c, m.cut = some c → idx + w.count ≤ c) :
    Open cfg s (m.setRole p (.put w idx k true)) p x := by
  refine h.move (h.ledger.accept hp hc) { h.mem with }
    ⟨.refl _, fun _ _ _ => rfl, le_rfl, id, id, fun _ _ => id⟩
    (.of_eq h.mem rfl rfl rfl rfl rfl rfl rfl rfl rfl le_rfl rfl) (fun _ _ => rfl) rfl
    (fun q hq => ?_) (fun _ _ _ _ => rfl) h.ready (fun _ _ _ _ hs => .inl ⟨hs, id⟩)
    (h.recorded.congr rfl rfl rfl rfl rfl) h.sound
  exact Function.update_of_ne hq ..

/-- The call returns. -/
theorem Open.reply (h : Open cfg s m p x) (hp : m.role p = .put w idx k acc) {ok : Bool}
    (hok : (m.ledger s).PostOk ⟨p, idx, w, ok⟩) :
    Open cfg (s.returnPost p w idx ok) (m.setRole p .out) p x := by
  refine h.move (h.ledger.reply (x := ⟨p, idx, w, ok⟩) hp ⟨rfl, rfl⟩ hok) { h.mem with }
    ⟨.refl _, fun _ _ _ => rfl, le_rfl, id, id, fun _ _ => id⟩
    (.of_eq h.mem rfl rfl rfl rfl rfl rfl rfl rfl rfl le_rfl rfl) (fun q hq => ?_) rfl
    (fun q hq => ?_) (fun _ _ _ _ => rfl) h.ready (fun _ _ _ _ hs => .inl ⟨hs, id⟩)
    (h.recorded.congr rfl rfl rfl rfl rfl) h.sound
  · exact Function.update_of_ne hq ..
  · exact Function.update_of_ne hq ..

/-- `close()` returns. -/
theorem Open.returnClose (h : Open cfg s m p x) : Open cfg (s.returnClose p) m p x := by
  refine h.move h.ledger { h.mem with } ⟨.refl _, fun _ _ _ => rfl, le_rfl, id, id, fun _ _ => id⟩
    (.of_eq h.mem rfl rfl rfl rfl rfl rfl rfl rfl rfl le_rfl rfl) (fun q hq => ?_) rfl
    (fun _ _ => rfl) (fun _ _ _ _ => rfl) h.ready (fun _ _ _ _ hs => .inl ⟨hs, id⟩)
    (h.recorded.congr rfl rfl rfl rfl rfl) h.sound
  exact Function.update_of_ne hq ..

theorem Open.win (h : Open cfg s m p x) (hp : m.role p = .out) (hc : s.closed = false) :
    Open cfg { s with closed := true }
      (m.setRole p .winner) p x := by
  refine h.move (h.ledger.win hp hc) { h.mem with }
    ⟨.refl _, fun _ _ _ => rfl, le_rfl, fun _ => rfl, id, fun _ _ => id⟩
    (.of_eq h.mem rfl rfl rfl rfl rfl rfl rfl rfl rfl le_rfl rfl) (fun _ _ => rfl) rfl
    (fun q hq => ?_) (fun _ _ _ _ => rfl) h.ready (fun _ _ _ _ hs => .inl ⟨hs, id⟩)
    (h.recorded.congr rfl rfl rfl rfl rfl) h.sound
  exact Function.update_of_ne hq ..

theorem Open.takeCut (h : Open cfg s m p x) (hp : m.role p = .winner) :
    Open cfg { s with writeOffset := s.writeOffset + 1 }
      { m with
        cut := some s.writeOffset
        role := Function.update m.role p (.closer s.writeOffset) } p x := by
  have hcut := (h.ledger.winner p hp).2.1
  refine h.move (h.ledger.takeCut hp) (h.mem.addWrite _ rfl rfl rfl rfl rfl rfl)
    ⟨.refl _, fun _ _ _ => rfl, Nat.le_add_right .., id, id, fun _ _ => id⟩
    (.of_eq h.mem rfl rfl rfl rfl rfl rfl rfl rfl rfl le_rfl rfl) (fun _ _ => rfl) rfl
    (fun q hq => ?_) (fun _ _ _ _ => rfl) (fun hr => ?_) (fun _ _ _ _ hs => .inl ⟨hs, id⟩)
    (h.recorded.congr rfl rfl rfl rfl rfl) h.sound
  · exact Function.update_of_ne hq ..
  · cases hcut.symm.trans (h.ready hr)

theorem Open.storeClosedAt (h : Open cfg s m p x) (hp : m.role p = .closer idx) :
    Open cfg { s with writeClosedAt := idx } m p x := by
  have hcut := h.ledger.closer p idx hp
  exact h.move h.ledger { h.mem with }
    ⟨.refl _, fun _ _ _ => rfl, le_rfl, id, id, fun c hc _ => Option.some.inj (hcut.symm.trans hc)⟩
    (.of_eq h.mem rfl rfl rfl rfl rfl rfl rfl rfl rfl le_rfl rfl) (fun _ _ => rfl) rfl
    (fun _ _ => rfl) (fun _ _ _ _ => rfl) (fun _ => hcut) (fun _ _ _ _ hs => .inl ⟨hs, id⟩)
    (h.recorded.congr rfl rfl rfl rfl rfl) h.sound

theorem Open.storeReady (h : Open cfg s m p x) (hp : m.role p = .closer idx)
    (hc : s.writeClosedAt = idx) : Open cfg { s with closedReady := true } m p x := by
  have hcut := h.ledger.closer p idx hp
  exact h.move h.ledger { h.mem with }
    ⟨.refl _, fun _ _ _ => rfl, le_rfl, id, fun _ => rfl, fun _ _ => id⟩
    (.of_eq h.mem rfl rfl rfl rfl rfl rfl rfl rfl rfl le_rfl rfl) (fun _ _ => rfl) rfl
    (fun _ _ => rfl) (fun _ _ _ _ => rfl) (fun _ => hcut.trans (congrArg some hc.symm))
    (fun _ _ _ _ hs => .inl ⟨hs, id⟩) (h.recorded.congr rfl rfl rfl rfl rfl) h.sound

theorem Open.leave (h : Open cfg s m p x) (hp : m.role p = .closer idx)
    (hm : m.stage idx = .mark) :
    Open cfg s (m.setRole p .out) p x := by
  refine h.move (h.ledger.leave hp hm) { h.mem with }
    ⟨.refl _, fun _ _ _ => rfl, le_rfl, id, id, fun _ _ => id⟩
    (.of_eq h.mem rfl rfl rfl rfl rfl rfl rfl rfl rfl le_rfl rfl) (fun _ _ => rfl) rfl
    (fun q hq => ?_) (fun _ _ _ _ => rfl) h.ready (fun _ _ _ _ hs => .inl ⟨hs, id⟩)
    (h.recorded.congr rfl rfl rfl rfl rfl) h.sound
  exact Function.update_of_ne hq ..

/-! ## Moves that write an element -/

theorem Mem.setElem (h : Mem cfg s m) (hn : s.readOffset ≤ n) (hb : m.BlockOf cfg n b)
    {e : Element Flags V} {f : Stage V} (hd : e.data = f.data)
    (hf : s.readOffset < n → e.flags = f.flags) :
    Mem cfg (s.setElem cfg b n e) (m.setStage n f) := by
  have hcell : ∀ {i}, m.chain.first ≤ i / cfg.blockSize →
      (m.setStage n f).cell cfg (s.setElem cfg b n e) i =
        if i = n then e else m.cell cfg s i := fun hi => h.cell_setElem hn hb e hi
  exact
    { h with
      ok := h.ok.congr le_rfl (fun _ _ => Heap.offset_setElem) (fun _ _ => Heap.next_setElem)
      data := fun i hi => by
        rw [hcell (h.first_le_div hi), Map.stage_setStage]
        split
        · exact hd
        · exact h.data i hi
      flags := fun i hi => by
        rw [hcell (h.first_le_div hi.le), Map.stage_setStage]
        split
        · next heq => exact hf (heq ▸ hi)
        · exact h.flags i hi
      drained := fun i hi hlt => by
        have hlt' : i < s.readOffset := hlt
        rw [hcell (h.first.trans hi), if_neg (by omega)]
        exact h.drained i hi hlt' }

theorem Aside.setElem (h : Mem cfg s m) (hn : s.readOffset ≤ n) (hb : m.BlockOf cfg n b)
    {e : Element Flags V} {f : Stage V} (hclear : Clear cfg s m → e.flags = f.flags)
    (hwait : (m.cell cfg s n).flags = (m.stage n).waitFlags s.frame →
      e.flags = f.waitFlags s.frame)
    (hready : ∀ v, m.stage n ≠ .ready v) (hmark : m.stage n ≠ .mark) :
    Aside cfg s m (s.setElem cfg b n e) (m.setStage n f) := by
  have hcell : (m.setStage n f).cell cfg (s.setElem cfg b n e)
      s.readOffset = if s.readOffset = n then e else m.cell cfg s s.readOffset :=
    h.cell_setElem hn hb e (h.first_le_div le_rfl)
  refine ⟨rfl, rfl, rfl, rfl, rfl, rfl, rfl, le_rfl, ?_, fun hc => ?_, fun hw => ?_,
    fun v hv => ?_, fun hv => ?_⟩
  · rw [← hb.2]
    exact .of_setElem h.ok (h.has hn hb) (h.head_le_div hn) e
  · rw [Clear, show (s.setElem cfg b n e).readOffset = s.readOffset from rfl, hcell,
      Map.stage_setStage]
    split
    · exact hclear hc
    · exact hc
  · rw [hcell, Map.stage_setStage]
    split
    · next heq =>
      rw [heq] at hw
      exact hwait hw
    · exact hw
  · rw [Map.stage_setStage, if_neg]
    · exact hv
    · rintro rfl
      exact hready v hv
  · rw [Map.stage_setStage, if_neg]
    · exact hv
    · rintro rfl
      exact hmark hv

/-- What is in the flags of an element that has not been published. -/
theorem Open.flags (h : Open cfg s m p x) (hn : s.readOffset ≤ n)
    (hready : ∀ v, m.stage n ≠ .ready v) (hmark : m.stage n ≠ .mark) :
    ((m.cell cfg s n).flags = .null ∧ ∀ b e, s.consumer ≠ .suspended n b e) ∨
      (m.cell cfg s n).flags = .consumer s.frame ∧ ∃ b, s.consumer = .suspended n b false := by
  have hnull : (m.stage n).flags = .null := by
    cases hs : m.stage n with
    | blank | built v => rfl
    | ready v => exact absurd hs (hready v)
    | mark => exact absurd hs hmark
  have hk := h.consumer
  rcases Nat.eq_or_lt_of_le hn with heq | hlt
  · subst heq
    have hclear : Clear cfg s m → (m.cell cfg s s.readOffset).flags = .null :=
      fun hc => hc.trans hnull
    have hscope : ∀ {idx b}, ¬Scope cfg s m idx b := by
      rintro idx b ⟨⟨rfl, -⟩, v, hv⟩
      exact hready v hv
    cases hc : s.consumer with
    | suspended idx b e =>
      rw [hc] at hk
      obtain ⟨-, ⟨rfl, -⟩, hf, he, -⟩ := hk
      refine .inr ⟨?_, b, ?_⟩
      · rw [hf]
        cases hs : m.stage s.readOffset with
        | blank | built v => rfl
        | ready v => exact absurd hs (hready v)
        | mark => exact absurd hs hmark
      · cases e with
        | true => exact absurd (he rfl) hmark
        | false => rfl
    | storeClosed idx b =>
      rw [hc] at hk
      exact absurd (hk.2.1.1 ▸ hk.2.2) hmark
    | holding idx b =>
      rw [hc] at hk
      exact (hscope hk.2).elim
    | emptyFind scope f | emptyPoll scope b =>
      rw [hc] at hk
      obtain ⟨-, -, hs⟩ := hk
      cases scope with
      | none => exact .inl ⟨hclear hs, by simp⟩
      | some y => exact (hscope hs).elim
    | idle | assertRead k | find k idx f | poll k idx b | tryWait idx b | resumed idx b e
    | assertHead b | oldOffset b | storeWriteBlock b =>
      rw [hc] at hk
      first
        | exact .inl ⟨hclear hk.2.1, by simp⟩
        | exact .inl ⟨hclear hk.2, by simp⟩
    | reclaim b r last =>
      rw [hc] at hk
      exact .inl ⟨hclear hk.1, by simp⟩
    | startHint b =>
      rw [hc] at hk
      exact .inl ⟨hclear hk.clear, by simp⟩
    | startCurrent b current | startTarget b current offset | startCas b current | loadCutoff b =>
      rw [hc] at hk
      exact .inl ⟨hclear hk.1.clear, by simp⟩
  · refine .inl ⟨(h.mem.flags n hlt).trans hnull, fun b e hc => ?_⟩
    rw [hc] at hk
    have := hk.2.1.1
    omega

/-- The history after a task has changed the stage of an index that holds no
published value. -/
theorem Recorded.setStage {f : Stage V} (h : Recorded s m) (hp : s'.pulls = s.pulls)
    (hr : s'.readOffset = s.readOffset) (hs : s'.consumer.scope = s.consumer.scope)
    (hready : ∀ v, m.stage n ≠ .ready v) (hmark : m.stage n ≠ .mark)
    (hc : ∀ v, (n, v) ∈ s'.constructed ↔ f = .built v ∨ f = .ready v)
    (hother : ∀ i v, i ≠ n → ((i, v) ∈ s'.constructed ↔ (i, v) ∈ s.constructed)) :
    Recorded s' (m.setStage n f) where
  constructed i v := by
    rw [Map.stage_setStage]
    split
    · next heq =>
      rw [heq]
      exact hc v
    · next heq =>
      rw [hother i v heq]
      exact h.constructed i v
  indices := by rw [hp, hr, hs]; exact h.indices
  values i v hv := by
    have hv := h.values i v (hp ▸ hv)
    rw [Map.stage_setStage, if_neg]
    · exact hv
    · rintro rfl
      exact hready v hv
  closed hcl := by
    have hv := h.closed (hp ▸ hcl)
    rw [hr, Map.stage_setStage, if_neg]
    · exact hv
    · rintro rfl
      exact hmark hv
  last l l' hl := h.last l l' (hp ▸ hl)

/-- A step of task `p` that changes the element and the stage of an index of its own. -/
theorem Open.write {x' : Option Nat} {e : Element Flags V} {f : Stage V} {r : Role V}
    {l : List (Nat × V)} (h : Open cfg s m p x)
    (hledger : (((m.setStage n f).setRole p r).ledger s).Ok) (hcov : (m.role p).Covers n)
    (hready : ∀ v, m.stage n ≠ .ready v) (hmark : m.stage n ≠ .mark) (hb : m.BlockOf cfg n b)
    (hd : e.data = f.data) (hf : (m.cell cfg s n).flags = .null → e.flags = f.flags)
    (hw : (m.cell cfg s n).flags = .consumer s.frame → e.flags = f.waitFlags s.frame)
    (hx : f = .mark ∨ (∃ v, f = .ready v) → x' = some n) (hx' : x = x' ∨ x = none)
    (hc : ∀ v, (n, v) ∈ l ↔ f = .built v ∨ f = .ready v)
    (hother : ∀ i v, i ≠ n → ((i, v) ∈ l ↔ (i, v) ∈ s.constructed)) :
    Open cfg { s.setElem cfg b n e with constructed := l }
      ((m.setStage n f).setRole p r) p x' := by
  have hread : s.readOffset ≤ n := h.ledger.read_le_of hready
  have hnull : (m.stage n).flags = .null := by
    cases hs : m.stage n with
    | blank | built v => rfl
    | ready v => exact absurd hs (hready v)
    | mark => exact absurd hs hmark
  have hwait : (m.stage n).waitFlags s.frame = .consumer s.frame := by
    cases hs : m.stage n with
    | blank | built v => rfl
    | ready v => exact absurd hs (hready v)
    | mark => exact absurd hs hmark
  have hmem := h.mem.setElem hread hb hd fun hlt => hf ((h.mem.flags n hlt).trans hnull)
  have haside : Aside cfg s m (s.setElem cfg b n e) (m.setStage n f) := by
    by_cases heq : n = s.readOffset
    · exact .setElem h.mem hread hb (fun hcl => hf (by rw [heq, hcl, ← heq, hnull]))
        (fun hfl => hw (hfl.trans hwait)) hready hmark
    · have hlt : s.readOffset < n := by omega
      exact .setElem h.mem hread hb (fun _ => hf ((h.mem.flags n hlt).trans hnull))
        (fun hfl => hw (hfl.trans hwait)) hready hmark
  have hrecorded : Recorded { s.setElem cfg b n e with constructed := l } (m.setStage n f) :=
    h.recorded.setStage rfl rfl rfl hready hmark hc hother
  refine h.move hledger { hmem with }
    ⟨.refl _, fun _ _ _ => rfl, le_rfl, id, id, fun _ _ => id⟩ { haside with } (fun _ _ => rfl) rfl
    (fun q hq => Map.role_setRole.trans (if_neg hq)) (fun q i hq hi => ?_) h.ready
    (fun i _ _ _ hi => ?_) { hrecorded with } h.sound
  · refine Map.stage_setStage.trans (if_neg ?_)
    rintro rfl
    exact hq (h.ledger.owner q p _ hi hcov)
  · by_cases heq : i = n
    · subst heq
      have hstage : ((m.setStage i f).setRole p r).stage i = f :=
        Map.stage_setStage.trans (if_pos rfl)
      rw [hstage] at hi
      exact .inr (hx hi)
    · have hstage : ((m.setStage n f).setRole p r).stage i = m.stage i :=
        Map.stage_setStage.trans (if_neg heq)
      rw [hstage] at hi
      refine .inl ⟨hi, fun hxi => ?_⟩
      rcases hx' with rfl | rfl
      · exact hxi
      · cases hxi

/-- A value is constructed in the next element. -/
theorem Open.build (h : Open cfg s m p x) (hp : m.role p = .put w idx k true) (hk : k < w.count)
    (hs : m.stage (idx + k) = .blank) (hb : m.BlockOf cfg (idx + k) b) :
    Open cfg
      { s.setElem cfg b (idx + k) { s.elem cfg b (idx + k) with data := some (w.item k) } with
        constructed := s.constructed ++ [(idx + k, w.item k)] }
      ((m.setStage (idx + k) (.built (w.item k))).setRole p (.put w idx k true)) p x := by
  have hledger := h.ledger.build hp hk
  have hrole : (m.setStage (idx + k) (.built (w.item k))).setRole p (.put w idx k true) =
      m.setStage (idx + k) (.built (w.item k)) := by
    rw [← hp, Map.setRole, Map.setStage, Function.update_eq_self]
  refine h.write ?_ ?_ (by simp [hs]) (by simp [hs]) hb rfl (fun hf => ?_) (fun hf => ?_)
    (by simp) (.inl rfl) (fun v => ?_) (fun i v hi => ?_)
  · rw [hrole]
    exact hledger
  · rw [hp]
    exact Role.covers_put hk
  · rw [hb.elem]
    exact hf
  · rw [hb.elem]
    exact hf
  · rw [List.mem_append, h.recorded.constructed, hs]
    simp [eq_comm]
  · rw [List.mem_append, List.mem_singleton, Prod.mk.injEq]
    exact or_iff_left fun heq => hi heq.1

/-- The next element is published. -/
theorem Open.publish (h : Open cfg s m p none) (hp : m.role p = .put w idx k true)
    (hk : k < w.count) (hs : m.stage (idx + k) = .built (w.item k))
    (hb : m.BlockOf cfg (idx + k) b) :
    Open cfg (s.setFlags cfg b (idx + k) .data)
      ((m.setStage (idx + k) (.ready (w.item k))).setRole p (.put w idx (k + 1) true)) p
      (some (idx + k)) := by
  have hread := (h.ledger.put p w idx k true hp).read_le h.ledger hk
  refine h.write (l := s.constructed) (h.ledger.publish hp hk) ?_ (by simp [hs]) (by simp [hs]) hb
    ?_ (fun _ => rfl) (fun _ => rfl) (fun _ => rfl) (.inr rfl) (fun v => ?_) (fun _ _ _ => Iff.rfl)
  · rw [hp]
    exact Role.covers_put hk
  · rw [hb.elem]
    exact (h.mem.data _ hread).trans (by rw [hs]; rfl)
  · rw [h.recorded.constructed, hs]
    simp

/-- The sentinel is published. -/
theorem Open.setMark (h : Open cfg s m p none) (hp : m.role p = .closer idx)
    (hs : m.stage idx = .blank) (hb : m.BlockOf cfg idx b) :
    Open cfg (s.setFlags cfg b idx .closed)
      ((m.setStage idx .mark).setRole p (.closer idx)) p (some idx) := by
  have hread : s.readOffset ≤ idx := h.ledger.read_le_of fun v hv => by cases hs.symm.trans hv
  have hrole : (m.setStage idx .mark).setRole p (.closer idx) = m.setStage idx .mark := by
    rw [← hp, Map.setRole, Map.setStage, Function.update_eq_self]
  refine h.write (l := s.constructed) ?_ ?_ (by simp [hs]) (by simp [hs]) hb
    ?_ (fun _ => rfl) (fun _ => rfl) (fun _ => rfl) (.inr rfl) (fun v => ?_) (fun _ _ _ => Iff.rfl)
  · rw [hrole]
    exact h.ledger.setMark hp hs
  · rw [hp]
    rfl
  · rw [hb.elem]
    exact (h.mem.data _ hread).trans (by rw [hs]; rfl)
  · rw [h.recorded.constructed, hs]
    simp

/-! ## Moves that touch the consumer -/

/-- The consumer does not wait for what task `p` has published. -/
theorem Open.drop (h : Open cfg s m p x) (x' : Option Nat)
    (hx : ∀ n b e, s.consumer = .suspended n b e → x ≠ some n) : Open cfg s m p x' :=
  { h with
    wake := fun n b e hc hs => by
      rcases h.wake n b e hc hs with hq | hn
      · exact .inl hq
      · exact absurd hn (hx n b e hc) }

/-- The consumer's state changes while it waits for an index of task `p`. -/
theorem Open.setConsumer {y : Option Nat} {b : Nat} {e : Bool} (h : Open cfg s m p x)
    (hc : s.consumer = .suspended n b e) (hcov : (m.role p).Covers n) {c : ConsumerPc}
    (hscope : c.scope = none) (hk : ConsumerKnows cfg (s.setConsumer c) m c)
    (hw : ∀ i b e, c = .suspended i b e → y = some i) :
    Open cfg (s.setConsumer c) m p y where
  ledger := h.ledger
  mem := { h.mem with }
  task q hq := by
    refine (h.task q hq).later (p := q) h.ledger h.ledger
      ⟨.refl _, fun _ _ _ => rfl, le_rfl, id, id, fun _ _ => id⟩ rfl
        (fun _ _ => rfl) fun i f e' hwk hwait => ?_
    obtain ⟨⟨b', hb'⟩, -⟩ := hwait
    cases hc.symm.trans hb'
    refine absurd (h.ledger.owner q p n ?_ hcov) hq
    exact (h.task q hq).covers hwk
  consumer := hk
  ready := h.ready
  wake i b e hc' _ := .inr (hw i b e hc')
  recorded := h.recorded.congr rfl rfl rfl (by rw [hc]; exact hscope) rfl
  sound := h.sound

end CoroUtil.MpscUnbounded
