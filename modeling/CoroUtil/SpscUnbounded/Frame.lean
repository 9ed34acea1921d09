import CoroUtil.SpscUnbounded.Invariant

/-!
# What a step leaves alone

`Later` is what the producer sees of a step of the consumer, `Aside` what the
consumer sees of a step of the producer.  `Inv.produce` and `Inv.consume` put the
invariant together after a step of the one or the other.
-/

namespace CoroUtil.SpscUnbounded

open CoroUtil.Blocks

variable {V : Type} {cfg : Config} {s s' : State V} {m m' : Map} {pc pc' : ProducerPc V}
  {cpc : ConsumerPc} {n b k lo lo' idx : Nat} {j : Job V} {w : Put V}

theorem Map.BlockOf.mono (h : m.BlockOf cfg n b) (hext : m.chain.Extends m'.chain) :
    m'.BlockOf cfg n b := ⟨h.1.trans hext.last, (hext.block _ h.1).trans h.2⟩

theorem Ready.mono {count : Nat} (h : Ready cfg m idx count) (hext : m.chain.Extends m'.chain) :
    Ready cfg m' idx count := Nat.le_trans h hext.last

/-! ## Positions -/

theorem Mem.head_le_div (h : Mem cfg s m) (hn : s.readOffset ≤ n) : m.head ≤ n / cfg.blockSize := by
  rcases h.head_lt with h0 | hlt
  · exact h0.trans_le (Nat.zero_le _)
  · exact (Nat.le_div_iff_mul_le cfg.blockSize_pos).mpr (by omega)

/-- The producer is not behind the consumer's head. -/
theorem Mem.head_le (h : Mem cfg s m) : m.head ≤ m.write := by
  rcases h.head_lt with h0 | hlt
  · exact h0.trans_le (Nat.zero_le _)
  · have hmul : m.head * cfg.blockSize < (m.write + 1) * cfg.blockSize :=
      hlt.trans_le (h.read_le.trans h.write_near)
    exact Nat.le_of_lt_succ (Nat.lt_of_mul_lt_mul_right hmul)

theorem Mem.first_le (h : Mem cfg s m) : m.chain.first ≤ m.write := h.first.trans h.head_le

theorem Mem.head_last (h : Mem cfg s m) : m.head ≤ m.chain.last := h.head_le.trans h.write_le

theorem Mem.first_le_div (h : Mem cfg s m) (hn : s.readOffset ≤ n) :
    m.chain.first ≤ n / cfg.blockSize := h.first.trans (h.head_le_div hn)

theorem Mem.has (h : Mem cfg s m) (hn : s.readOffset ≤ n) (hb : m.BlockOf cfg n b) :
    m.chain.Has (n / cfg.blockSize) := ⟨h.first_le_div hn, hb.1⟩

theorem Mem.write_le_div (h : Mem cfg s m) (hn : m.next ≤ n) : m.write ≤ n / cfg.blockSize :=
  (Nat.le_div_iff_mul_le cfg.blockSize_pos).mpr (h.write_mul.trans hn)

theorem Mem.offset_head (h : Mem cfg s m) : s.offset s.headBlock = m.head * cfg.blockSize := by
  rw [State.offset, ← h.head]
  exact h.ok.offset _ ⟨h.first, h.head_last⟩

theorem Mem.offset_write (h : Mem cfg s m) : s.offset s.writeBlock = m.write * cfg.blockSize := by
  rw [State.offset, ← h.write]
  exact h.ok.offset _ ⟨h.first_le, h.write_le⟩

/-- The element of an index in its block. -/
theorem Map.BlockOf.elem (hb : m.BlockOf cfg n b) : s.elem cfg b n = m.cell cfg s n := by
  rw [State.elem, Map.cell, Chain.cell, if_pos hb.1, hb.2]
  rfl

/-- A write to the element of an index changes it and no other. -/
theorem Mem.cell_setElem (h : Mem cfg s m) (hn : s.readOffset ≤ n) (hb : m.BlockOf cfg n b)
    (e : Element Flags V) {i : Nat} (hi : m.chain.first ≤ i / cfg.blockSize) :
    m.cell cfg (s.setElem cfg b n e) i = if i = n then e else m.cell cfg s i := by
  have hdiv : n / cfg.blockSize * cfg.blockSize + n % cfg.blockSize = n := Nat.div_add_mod' ..
  have hcell := Chain.cell_setElem h.ok (h.has hn hb) (Nat.mod_lt n cfg.blockSize_pos) e hi
  rw [hdiv, hb.2] at hcell
  exact hcell

theorem Mem.cell_setFlags (h : Mem cfg s m) (hl : Looks cfg s m idx b) (f : Flags) :
    (m.cell cfg (s.setFlags cfg b idx f) s.readOffset).flags = f := by
  obtain ⟨rfl, hb⟩ := hl
  rw [State.setFlags, h.cell_setElem le_rfl hb _ (h.first_le_div le_rfl), if_pos rfl]

/-! ## Changes of the memory -/

/-- The memory is the same for a state with the same blocks, values and offsets. -/
theorem Mem.congr (h : Mem cfg s m) (hheap : s'.heap = s.heap)
    (hread : s'.readOffset = s.readOffset) (hhead : s'.headBlock = s.headBlock)
    (hwrite : s'.writeBlock = s.writeBlock) (hcons : s'.constructed = s.constructed) :
    Mem cfg s' m := by
  have hcell : ∀ n, m.cell cfg s' n = m.cell cfg s n := fun n => by
    rw [Map.cell, Map.cell, hheap]
  exact
    { ok := hheap ▸ h.ok
      first := h.first
      write_le := h.write_le
      head := hhead ▸ h.head
      write := hwrite ▸ h.write
      head_lt := hread ▸ h.head_lt
      read_near := hread ▸ h.read_near
      read_le := hread ▸ h.read_le
      write_mul := h.write_mul
      write_near := h.write_near
      data := fun n hn => by rw [hcell, hcons]; exact h.data n (hread ▸ hn)
      flags := fun n hn => by rw [hcell]; exact h.flags n (hread ▸ hn)
      drained := fun n hn hlt => by rw [hcell]; exact h.drained n hn (hread ▸ hlt) }

/-- `find_block` has made the chain longer. -/
theorem Mem.grow {c' : Chain} {h' : Heap Flags V} (h : Mem cfg s m)
    (hg : m.chain.Grows cfg.toLayout s.heap c' h') :
    Mem cfg { s with heap := h' } { m with chain := c' } := by
  have hcell : ∀ n, m.chain.first ≤ n / cfg.blockSize →
      Map.cell cfg { m with chain := c' } { s with heap := h' } n = m.cell cfg s n := hg.cell
  exact
    { h with
      ok := hg.ok
      first := hg.first ▸ h.first
      write_le := h.write_le.trans hg.ext.last
      head := (hg.ext.block _ h.head_last).trans h.head
      write := (hg.ext.block _ h.write_le).trans h.write
      data := fun n hn => (congrArg _ (hcell n (h.first_le_div hn))).trans (h.data n hn)
      flags := fun n hn => (congrArg _ (hcell n (h.first_le_div hn.le))).trans (h.flags n hn)
      drained := fun n hn hlt =>
        (congrArg _ (hcell n (h.first.trans hn))).trans (h.drained n hn hlt) }

/-- The element at an index that is not behind the consumer is written. -/
theorem Mem.setElem {e : Element Flags V} (h : Mem cfg s m) (hn : s.readOffset ≤ n)
    (hb : m.BlockOf cfg n b) (hheap : s'.heap = (s.setElem cfg b n e).heap)
    (hread : s'.readOffset = s.readOffset) (hhead : s'.headBlock = s.headBlock)
    (hwrite : s'.writeBlock = s.writeBlock) (hchain : m'.chain = m.chain)
    (hheadPos : m'.head = m.head) (hwritePos : m'.write = m.write) (hnext : m.next ≤ m'.next)
    (hnear : m'.next ≤ (m.write + 1) * cfg.blockSize)
    (hdata : ∀ i, s.readOffset ≤ i → (if i = n then e else m.cell cfg s i).data = s'.constructed[i]?)
    (hflags : ∀ i, s.readOffset < i → (if i = n then e else m.cell cfg s i).flags = m'.mark i) :
    Mem cfg s' m' := by
  have hcell : ∀ i, m.chain.first ≤ i / cfg.blockSize →
      m'.cell cfg s' i = if i = n then e else m.cell cfg s i := fun i hi => by
    rw [← h.cell_setElem hn hb e hi, Map.cell, Map.cell, hchain, hheap]
  exact
    { ok := by
        rw [hheap, hchain]
        exact h.ok.congr le_rfl (fun _ _ => Heap.offset_setElem) (fun _ _ => Heap.next_setElem)
      first := by rw [hchain, hheadPos]; exact h.first
      write_le := by rw [hchain, hwritePos]; exact h.write_le
      head := by rw [hchain, hheadPos, hhead]; exact h.head
      write := by rw [hchain, hwritePos, hwrite]; exact h.write
      head_lt := by rw [hheadPos, hread]; exact h.head_lt
      read_near := by rw [hheadPos, hread]; exact h.read_near
      read_le := by rw [hread]; exact h.read_le.trans hnext
      write_mul := by rw [hwritePos]; exact h.write_mul.trans hnext
      write_near := by rw [hwritePos]; exact hnear
      data := fun i hi => by
        rw [hread] at hi
        rw [hcell i (h.first_le_div hi)]
        exact hdata i hi
      flags := fun i hi => by
        rw [hread] at hi
        rw [hcell i (h.first_le_div hi.le)]
        exact hflags i hi
      drained := fun i hi hlt => by
        rw [hheadPos] at hi
        rw [hread] at hlt
        rw [hcell i (h.first.trans hi), if_neg (by omega)]
        exact h.drained i hi hlt }

/-- The producer moves `write_block` to the block of the index it publishes next. -/
theorem Mem.setWrite (h : Mem cfg s m) (hb : m.BlockOf cfg m.next b) :
    Mem cfg { s with writeBlock := b } { m with write := m.next / cfg.blockSize } := by
  have hlt := Nat.lt_div_mul_add (a := m.next) cfg.blockSize_pos
  exact
    { h with
      write_le := hb.1
      write := hb.2
      write_mul := Nat.div_mul_le_self ..
      write_near := by
        rw [Nat.add_mul, Nat.one_mul]
        exact hlt.le }

/-! ## The producer beside a step of the consumer -/

structure Later (s : State V) (m : Map) (s' : State V) (m' : Map) : Prop where
  ext : m.chain.Extends m'.chain
  writeOffset : s'.writeOffset = s.writeOffset
  writeBlock : s'.writeBlock = s.writeBlock
  closed : s'.closed = s.closed
  write : m'.write = m.write
  next : m'.next = m.next
  sealed : m'.sealed = m.sealed

section Later

variable (hl : Later s m s' m')
include hl

theorem Posts.later (h : Posts s m idx k) : Posts s' m' idx k := by
  rw [Posts, hl.writeOffset, hl.next, hl.closed, hl.sealed]
  exact h

theorem Job.Knows.later (h : j.Knows s m idx) : j.Knows s' m' idx := by
  cases j with
  | post v => exact Posts.later hl h
  | close =>
    rw [Job.Knows, hl.writeOffset, hl.next, hl.closed, hl.sealed]
    exact h

theorem Knows.later (h : Knows cfg s m pc) (hr : pc.wakes ≠ none → s'.readOffset = s.readOffset) :
    Knows cfg s' m' pc := by
  have hfind : ∀ {f : Find} {i}, f.Ok cfg.toLayout m.chain m.write i →
      f.Ok cfg.toLayout m'.chain m'.write i := fun hf => hf.mono hl.ext hl.write.le
  cases pc with
  | idle | closeCas =>
    rw [Knows, hl.next, hl.sealed, hl.writeOffset, hl.closed]
    exact h
  | assertOpen w =>
    rw [Knows, hl.writeOffset]
    exact ⟨Posts.later hl h.1, h.2⟩
  | find j idx f =>
    obtain ⟨hj, hf, hb⟩ := h
    exact ⟨hj.later hl, hfind hf, fun b hload => (hb b hload).trans hl.writeBlock.symm⟩
  | storeWriteBlock j idx b => exact ⟨h.1.later hl, h.2.mono hl.ext⟩
  | bulkAssert items idx => exact ⟨h.1.later hl, h.2⟩
  | bulkFind items idx f =>
    obtain ⟨hp, hpos, hf⟩ := h
    exact ⟨hp.later hl, hpos, hfind hf⟩
  | bulkFindEnd items idx b f =>
    obtain ⟨hp, hpos, hb, hf⟩ := h
    exact ⟨hp.later hl, hpos, hb.mono hl.ext, hfind hf⟩
  | bulkStoreWriteBlock items idx b =>
    obtain ⟨hp, hpos, hb, hr⟩ := h
    exact ⟨hp.later hl, hpos, hb.mono hl.ext, hr.mono hl.ext⟩
  | emplace w idx k b cons | publish w idx k b cons =>
    obtain ⟨hp, hk, hb, hr, hw⟩ := h
    exact ⟨hp.later hl, hk, hb.mono hl.ext, hr.mono hl.ext, hl.write.trans hw⟩
  | nextBlock items idx k b cons =>
    obtain ⟨hp, hpos, hk, hslot, hb, hr, hw⟩ := h
    exact ⟨hp.later hl, hpos, hk, hslot, hb.mono hl.ext, hr.mono hl.ext, hl.write.trans hw⟩
  | storeNextBlock items idx k b cons =>
    obtain ⟨hp, hk, hb, hr⟩ := h
    exact ⟨hp.later hl, hk, hb.mono hl.ext, hr.mono hl.ext⟩
  | resumeConsumer frame | storeClosedAt =>
    rw [Knows, hl.next, hl.sealed, hl.writeOffset, hl.closed]
    exact h
  | exchangeClosed idx b => exact ⟨h.1.later hl, h.2.mono hl.ext⟩
  | elemNull frame | closeResume frame =>
    rw [Knows, hl.next, hl.sealed, hl.writeOffset, hl.closed, hr (Option.some_ne_none _)]
    exact h

end Later

/-! ## The consumer beside a step of the producer -/

structure Aside (cfg : Config) (s : State V) (m : Map) (s' : State V) (m' : Map) : Prop where
  read : s'.readOffset = s.readOffset
  tail : s'.tailBlock = s.tailBlock
  frame : s'.frame = s.frame
  grabbed : s'.grabbed = s.grabbed
  head : m'.head = m.head
  blocks : Reclaim.Beside cfg.toLayout m.chain s.heap m.head m'.chain s'.heap
  next : m.next ≤ m'.next
  mark : m.sealed = true ∧ s.readOffset = m.next → m'.sealed = true ∧ s.readOffset = m'.next
  clear : Clear cfg s m → Clear cfg s' m'
  waits : (m.cell cfg s s.readOffset).flags = m.waiting s.frame s.readOffset →
    (m'.cell cfg s' s.readOffset).flags = m'.waiting s.frame s.readOffset
  taken : s.readOffset < m.next →
    (m'.cell cfg s' s.readOffset).flags = (m.cell cfg s s.readOffset).flags

section Aside

variable (ha : Aside cfg s m s' m')
include ha

theorem Calm.aside (h : Calm s m) : Calm s' m' where
  first := by rw [ha.blocks.first, ha.head, h.first]
  tail := ha.tail ▸ h.tail.beside ha.blocks

theorem Looks.aside (h : Looks cfg s m idx b) : Looks cfg s' m' idx b :=
  ⟨h.1.trans ha.read.symm, h.2.mono ha.blocks.ext⟩

theorem Scope.aside (h : Scope cfg s m idx b) : Scope cfg s' m' idx b where
  looks := h.looks.aside ha
  lt := by
    rw [ha.read]
    exact h.lt.trans_le ha.next
  flags := by rw [ha.read, ha.taken h.lt, ha.grabbed, ha.frame, h.flags]

theorem InScope.aside {scope : Option (Nat × Nat)} (h : InScope cfg s m scope) :
    InScope cfg s' m' scope := by
  cases scope with
  | none => exact ha.clear h
  | some x => exact Scope.aside ha h

theorem ConsumerKnows.aside (hm : Mem cfg s m) (h : ConsumerKnows cfg s m cpc) :
    ConsumerKnows cfg s' m' cpc := by
  have hfind : ∀ {f : Find} {i}, f.Ok cfg.toLayout m.chain m.head i →
      f.Ok cfg.toLayout m'.chain m'.head i := fun hf => hf.mono ha.blocks.ext ha.head.le
  cases cpc with
  | idle => exact ⟨h.1.aside ha, ha.clear h.2⟩
  | assertRead k => exact ⟨h.1.aside ha, ha.clear h.2.1, h.2.2⟩
  | find k idx f =>
    obtain ⟨hc, hcl, hidx, hf, hk⟩ := h
    exact ⟨hc.aside ha, ha.clear hcl, hidx.trans ha.read.symm, hfind hf, hk⟩
  | poll k idx b | tryWait idx b =>
    obtain ⟨hc, hcl, hl, hk⟩ := h
    exact ⟨hc.aside ha, ha.clear hcl, hl.aside ha, hk⟩
  | storeClosed idx b =>
    obtain ⟨hc, hl, hmark⟩ := h
    exact ⟨hc.aside ha, hl.aside ha, ha.read.symm ▸ ha.mark hmark⟩
  | suspended idx b e =>
    obtain ⟨hc, hl, hflags, hk⟩ := h
    refine ⟨hc.aside ha, hl.aside ha, ?_, hk⟩
    rw [ha.read, ha.frame]
    exact ha.waits hflags
  | resumed idx b e =>
    obtain ⟨hc, hcl, hl, hst⟩ := h
    refine ⟨hc.aside ha, ha.clear hcl, hl.aside ha, ?_⟩
    rw [ha.read]
    split
    · next he =>
      rw [if_pos he] at hst
      exact ha.mark hst
    · next he =>
      rw [if_neg he] at hst
      exact hst.trans_le ha.next
  | holding idx b => exact ⟨h.1.aside ha, h.2.aside ha⟩
  | reclaim r =>
    refine ⟨ha.clear h.1, ?_⟩
    rw [ha.head, ha.tail]
    exact h.2.frame ha.blocks hm.ok
  | emptyFind scope f =>
    obtain ⟨hc, hf, hs⟩ := h
    refine ⟨hc.aside ha, ?_, hs.aside ha⟩
    rw [ha.read]
    exact hfind hf
  | emptyPoll scope b =>
    obtain ⟨hc, hl, hs⟩ := h
    refine ⟨hc.aside ha, ?_, hs.aside ha⟩
    rw [ha.read]
    exact hl.aside ha

end Aside

/-- The blocks are as they were. -/
theorem Aside.of_eq (hm : Mem cfg s m) (hheap : s'.heap = s.heap)
    (hread : s'.readOffset = s.readOffset) (htail : s'.tailBlock = s.tailBlock)
    (hframe : s'.frame = s.frame) (hgrabbed : s'.grabbed = s.grabbed)
    (hchain : m'.chain = m.chain) (hhead : m'.head = m.head) (hnext : m'.next = m.next)
    (hsealed : m'.sealed = m.sealed) : Aside cfg s m s' m' := by
  have hcell : ∀ n, m'.cell cfg s' n = m.cell cfg s n := fun n => by
    rw [Map.cell, Map.cell, hchain, hheap]
  have hmark : ∀ n, m'.mark n = m.mark n := fun n => by rw [Map.mark, Map.mark, hnext, hsealed]
  refine ⟨hread, htail, hframe, hgrabbed, hhead, ?_, hnext.ge, ?_, fun hc => ?_, fun hw => ?_,
    fun _ => by rw [hcell]⟩
  · rw [hchain, hheap]
    exact .of_grows hm.ok (.refl hm.ok)
  · rw [hsealed, hnext]
    exact id
  · rw [Clear, hcell, hread, hmark]
    exact hc
  · rw [hcell, Map.waiting, hnext, hsealed]
    exact hw

theorem Aside.grow {c' : Chain} {h' : Heap Flags V} (h : Mem cfg s m)
    (hg : m.chain.Grows cfg.toLayout s.heap c' h') :
    Aside cfg s m { s with heap := h' } { m with chain := c' } := by
  have hcell : Map.cell cfg { m with chain := c' } { s with heap := h' } s.readOffset =
      m.cell cfg s s.readOffset := hg.cell _ (h.first_le_div le_rfl)
  refine ⟨rfl, rfl, rfl, rfl, rfl, .of_grows h.ok hg, le_rfl, id, fun hc => ?_, fun hw => ?_,
    fun _ => by rw [hcell]⟩
  · rw [Clear, hcell]
    exact hc
  · rw [hcell]
    exact hw

/-! ## The invariant after a step -/

/-- What the history says after a step of the producer. -/
theorem Recorded.produce (h : Recorded s m) (hm : Mem cfg s m) (hk : ConsumerKnows cfg s m s.consumer)
    (ha : Aside cfg s m s' m')
    (hpulls : s'.pulls = s.pulls) (hscope : s'.consumer.scope = s.consumer.scope)
    (hlength : s'.constructed.length = m'.next + s'.producer.built)
    (hposts : s'.constructed ++ s'.producer.rest = s'.posts)
    (hpre : s.constructed <+: s'.constructed) : Recorded s' m' where
  length := hlength
  posts := hposts
  values := by
    have hlen := h.length
    have hle : s.readOffset + (if s.consumer.scope.isSome then 1 else 0) ≤ s.constructed.length := by
      have hread := hm.read_le
      cases hpc : s.consumer with
      | holding idx b =>
        rw [hpc] at hk
        have hlt := hk.2.lt
        simp only [ConsumerPc.scope, Option.isSome_some, if_true]
        omega
      | emptyFind scope f | emptyPoll scope b =>
        rw [hpc] at hk
        obtain ⟨-, -, hs⟩ := hk
        cases scope with
        | none =>
          simp only [ConsumerPc.scope, Option.isSome_none, Bool.false_eq_true, if_false]
          omega
        | some x =>
          have hlt := Scope.lt hs
          simp only [ConsumerPc.scope, Option.isSome_some, if_true]
          omega
      | _ =>
        simp only [ConsumerPc.scope, Option.isSome_none, Bool.false_eq_true, if_false]
        omega
    rw [hpulls, ha.read, hscope, h.values]
    obtain ⟨l, hl⟩ := hpre
    rw [← hl, List.take_append_of_le_length hle]
  closed hc := by
    rw [hpulls] at hc
    rw [ha.read]
    exact ha.mark (h.closed hc)
  last l l' hl := h.last l l' (hpulls ▸ hl)

/-- A step of the producer that does not resume the consumer. -/
theorem Inv.produce (h : Inv cfg s m) (hmem : Mem cfg s' m') (ha : Aside cfg s m s' m')
    (hk : Knows cfg s' m' s'.producer) (hconsumer : s'.consumer = s.consumer)
    (hawake : Awake s' m') (hpulls : s'.pulls = s.pulls)
    (hlength : s'.constructed.length = m'.next + s'.producer.built)
    (hposts : s'.constructed ++ s'.producer.rest = s'.posts)
    (hpre : s.constructed <+: s'.constructed) (hsound : s'.broken = false) : Inv cfg s' m' where
  mem := hmem
  producer := hk
  consumer := by
    rw [hconsumer]
    exact h.consumer.aside ha h.mem
  awake := hawake
  recorded := h.recorded.produce h.mem h.consumer ha hpulls (by rw [hconsumer]) hlength hposts hpre
  sound := hsound

/-- The producer commits `write_offset` and goes on from `pc` to `pc'`. -/
theorem Inv.commit {wo : Nat} (h : Inv cfg s m) (hpc : s.producer = pc)
    (hk : Knows cfg { s with writeOffset := wo } m pc') (hwakes : pc'.wakes = pc.wakes)
    (hnulls : pc'.nulls = pc.nulls) (hbuilt : pc'.built = pc.built) (hrest : pc'.rest = pc.rest) :
    Inv cfg ({ s with writeOffset := wo }.setProducer pc') m := by
  subst hpc
  refine h.produce (h.mem.congr rfl rfl rfl rfl rfl) (.of_eq h.mem rfl rfl rfl rfl rfl rfl rfl rfl rfl)
    (hk.later ⟨.refl _, rfl, rfl, rfl, rfl, rfl, rfl⟩ fun _ => rfl) rfl ?_ rfl ?_ ?_
    (List.prefix_refl _) h.sound
  · refine ⟨fun frame hf => ?_, fun idx b e hc hn => ?_, fun idx b e hc => ?_⟩
    · change pc'.wakes = some frame at hf
      change frame = s.frame ∧ ∃ idx b, s.consumer = .suspended idx b pc'.nulls ∧ _
      rw [hnulls]
      exact h.awake.wakes frame (hwakes ▸ hf)
    · exact hwakes.trans (h.awake.waits idx b e hc hn)
    · exact (h.awake.nulls idx b e hc).trans hnulls.symm
  · change _ = m.next + pc'.built
    rw [hbuilt]
    exact h.recorded.length
  · change s.constructed ++ pc'.rest = _
    rw [hrest]
    exact h.recorded.posts

/-- The producer goes on from `pc` to `pc'`. -/
theorem Inv.setProducer (h : Inv cfg s m) (hpc : s.producer = pc) (hk : Knows cfg s m pc')
    (hwakes : pc'.wakes = pc.wakes) (hnulls : pc'.nulls = pc.nulls) (hbuilt : pc'.built = pc.built)
    (hrest : pc'.rest = pc.rest) : Inv cfg (s.setProducer pc') m :=
  h.commit hpc hk hwakes hnulls hbuilt hrest

/-- Either side has made the chain longer. -/
theorem Inv.grow {c' : Chain} {h' : Heap Flags V} (h : Inv cfg s m)
    (hg : m.chain.Grows cfg.toLayout s.heap c' h') :
    Inv cfg { s with heap := h' } { m with chain := c' } where
  mem := h.mem.grow hg
  producer := h.producer.later ⟨hg.ext, rfl, rfl, rfl, rfl, rfl, rfl⟩ fun _ => rfl
  consumer := h.consumer.aside (.grow h.mem hg) h.mem
  awake := { h.awake with }
  recorded := { h.recorded with }
  sound := h.sound

end CoroUtil.SpscUnbounded
