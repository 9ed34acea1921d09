import CoroUtil.MpscUnbounded.Consumer

/-!
# Releasing values and recycling blocks

`finish_read` and what it calls.  A reclaim starts by moving `write_block` and
the hint to the block that the consumer has entered.  Whoever takes a ticket
from then on starts from there or later, which is `Map.floor` once the cutoff
has been read, so that when `read_offset` reaches the cutoff every ticket that
is still held has its pointers at the new head or past it.
-/

namespace CoroUtil.MpscUnbounded

open CoroUtil.Blocks

variable {V : Type} {cfg : Config} {s s' : State V} {m m' : Map V} {n b k r idx : Nat}
  {old new : Nat}

/-! ## Moves of the positions -/

/-- The value at `read_offset` is destroyed, and the consumer is in the block at
position `k`. -/
theorem Mem.release (h : Mem cfg s m) (hl : Looks cfg s m idx b) (hk : m.read ≤ k)
    (hlast : k ≤ m.chain.last) (hr : m.chain.block k = r) (hlt : k * cfg.blockSize < idx + 1)
    (hnear : idx + 1 ≤ (k + 1) * cfg.blockSize) :
    Mem cfg { s.setElem cfg b idx { s.elem cfg b idx with data := none } with
      readOffset := idx + 1
      readBlock := r } { m with read := k } := by
  obtain ⟨rfl, hb⟩ := hl
  have hcell : ∀ {i}, m.chain.first ≤ i / cfg.blockSize →
      m.cell cfg (s.setElem cfg b s.readOffset { s.elem cfg b s.readOffset with data := none }) i =
        if i = s.readOffset then { s.elem cfg b s.readOffset with data := none }
        else m.cell cfg s i := fun hi => h.cell_setElem le_rfl hb _ hi
  exact
    { h with
      ok := h.ok.congr le_rfl (fun _ _ => Heap.offset_setElem) (fun _ _ => Heap.next_setElem)
      write_le := h.write_le.trans hk
      read_le := hlast
      read := hr
      read_lt := .inr hlt
      read_near := hnear
      data := fun i hi => by
        have hi : s.readOffset + 1 ≤ i := hi
        have hc := hcell (h.first_le_div (Nat.le_of_succ_le hi))
        rw [if_neg (by omega)] at hc
        exact (congrArg _ hc).trans (h.data i (by omega))
      flags := fun i hi => by
        have hi : s.readOffset + 1 < i := hi
        have hc := hcell (h.first_le_div (n := i) (by omega))
        rw [if_neg (by omega)] at hc
        exact (congrArg _ hc).trans (h.flags i (by omega))
      drained := fun i hi hlt => by
        have hlt : i < s.readOffset + 1 := hlt
        have hc := hcell (h.first.trans hi)
        refine (congrArg _ hc).trans ?_
        split
        · rfl
        · exact h.drained i hi (by omega) }

/-- The consumer releases the value of its scope. -/
theorem Free.release (h : Free cfg s m) (hc : Calm s m) (hs : Scope cfg s m idx b)
    (hscope : s.consumer.scope = some (idx, b)) (hk : m.read ≤ k) (hlast : k ≤ m.chain.last)
    (hr : m.chain.block k = r) (hlt : k * cfg.blockSize < idx + 1)
    (hnear : idx + 1 ≤ (k + 1) * cfg.blockSize) :
    Inv cfg ({ (s.setElem cfg b idx { s.elem cfg b idx with data := none }).check
      (s.elem cfg b idx).data.isSome with
        readOffset := idx + 1
        readBlock := r }.setConsumer .idle) { m with read := k } := by
  obtain ⟨hl, v, hv⟩ := hs
  have hmem := h.mem.release hl hk hlast hr hlt hnear
  obtain ⟨rfl, hb⟩ := hl
  have hsome : (s.elem cfg b s.readOffset).data.isSome = true := by
    rw [hb.elem, h.mem.data _ le_rfl, hv]
    rfl
  have hcell : m.cell cfg (s.setElem cfg b s.readOffset
      { s.elem cfg b s.readOffset with data := none }) (s.readOffset + 1) =
        m.cell cfg s (s.readOffset + 1) := by
    rw [h.mem.cell_setElem le_rfl hb _ (h.mem.first_le_div (Nat.le_succ _)), if_neg (by omega)]
  have hind := h.recorded.indices
  rw [hscope] at hind
  refine
    { ledger := h.ledger.advance hv
      mem := { hmem with }
      task := fun p => ?_
      consumer := ⟨{ hc with }, ?_⟩
      ready := h.ready
      wake := fun n b e hne => by cases hne
      recorded := ⟨h.recorded.constructed, hind, h.recorded.values, fun hcl => ?_,
        h.recorded.last⟩
      sound := fun hB => ?_ }
  · refine (h.task p).later h.ledger (h.ledger.advance hv)
      ⟨.refl _, fun _ _ _ => rfl, le_rfl, id, id, fun _ _ => id⟩ rfl (fun _ _ => rfl)
      fun n f e _ hw => ?_
    obtain ⟨⟨b, hb⟩, -⟩ := hw
    exact absurd hb (h.awake n b e)
  · exact (congrArg _ hcell).trans (h.mem.flags _ (Nat.lt_succ_self _))
  · cases hv.symm.trans (h.recorded.closed hcl)
  · have hsound := h.sound hB
    simp [State.setConsumer, State.check, State.setElem, hsound, hsome]

/-- The cutoff of a pending reclaim has been reached: the head moves. -/
theorem Mem.finish (h : Mem cfg s m) (hp : s.pendingReclaim = some (old, new)) :
    Mem cfg { s with headBlock := new, pendingReclaim := none } { m with head := m.write } := by
  obtain ⟨-, hnew, hhint, -, -⟩ := h.pending old new hp
  exact
    { h with
      first := h.first.trans h.head_le
      head_le := le_rfl
      head_hint := hhint
      head := h.write.trans hnew.symm
      pending := fun _ _ hn => by cases hn
      drained := fun i hi => h.drained i (h.head_le.trans hi) }

theorem Free.finish (h : Free cfg s m) (hp : s.pendingReclaim = some (old, new))
    (hle : s.pendingReclaimCutoff ≤ s.readOffset) :
    Free cfg { s with headBlock := new, pendingReclaim := none } { m with head := m.write } := by
  refine h.move h.ledger (h.mem.finish hp)
    ⟨.refl _, fun n hn _ => ?_, le_rfl, id, id, fun _ _ => id⟩ rfl rfl
    rfl h.ready (h.recorded.congr rfl rfl rfl rfl rfl) h.sound h.awake
  have hn : s.readOffset ≤ n := hn
  rw [Map.floor, Map.floor, hp]
  exact (if_pos (hle.trans hn)).symm

/-- `write_block` moves to the block that the consumer has entered. -/
theorem Free.setWriteBlock (h : Free cfg s m) (hp : s.pendingReclaim = none)
    (hb : m.chain.block m.read = b) :
    Free cfg { s with writeBlock := b } { m with write := m.read } := by
  refine h.move h.ledger
    { h.mem with
      head_le := h.mem.head_le.trans h.mem.write_le
      write_le := le_rfl
      write := hb
      pending := fun _ _ hn => by cases hp.symm.trans hn }
    ⟨.refl _, fun n _ _ => ?_, le_rfl, id, id, fun _ _ => id⟩ rfl rfl
    rfl h.ready (h.recorded.congr rfl rfl rfl rfl rfl) h.sound h.awake
  rw [Map.floor, Map.floor]
  dsimp only
  rw [hp]

theorem Free.setHint (h : Free cfg s m) (hk : m.hint ≤ k) (hb : m.Sees m.head k b)
    (hlt : InUse cfg s k) :
    Free cfg { s with writeBlockHint := b } { m with hint := k } :=
  h.move h.ledger (h.mem.setHint hk hb hlt)
    ⟨.refl _, fun _ _ _ => rfl, le_rfl, id, id, fun _ _ => id⟩ rfl
    rfl rfl h.ready (h.recorded.congr rfl rfl rfl rfl rfl) h.sound h.awake

/-- The cutoff is read: a reclaim is pending. -/
theorem Free.setPending (h : Free cfg s m) (hp : s.pendingReclaim = none)
    (hhint : m.write ≤ m.hint) :
    Free cfg { s with
      pendingReclaimCutoff := s.writeOffset
      pendingReclaim := some (s.headBlock, s.writeBlock) } m := by
  have hread : s.readOffset ≤ s.writeOffset := h.ledger.read_le
  refine h.move h.ledger
    { h.mem with
      pending := fun old new hn => by
        cases hn
        refine ⟨rfl, rfl, hhint, ?_, le_rfl⟩
        rcases h.mem.write_lt with h0 | hlt
        · rw [h0, Nat.zero_mul]
          exact Nat.zero_le _
        · exact hlt.le.trans hread }
    ⟨.refl _, fun n _ hn => ?_, le_rfl, id, id, fun _ _ => id⟩ rfl rfl
    rfl h.ready (h.recorded.congr rfl rfl rfl rfl rfl) h.sound h.awake
  rw [Map.floor, Map.floor, hp]
  exact if_neg (Nat.not_le.mpr hn)

/-- The blocks before the head are moved a step. -/
theorem Mem.recycle {c' : Chain} {h' : Heap Flags V} {t : Nat} (h : Mem cfg s m)
    (ha : Reclaim.After cfg.toLayout m.chain s.heap m.head c' h') (hfirst : c'.first ≤ m.head) :
    Mem cfg { s with heap := h', tailBlock := t } { m with chain := c' } := by
  have hwrite := h.write_le.trans h.read_le
  have hhead := h.head_le.trans hwrite
  have hcell : ∀ n, m.head ≤ n / cfg.blockSize →
      Map.cell cfg { m with chain := c' } { s with heap := h', tailBlock := t } n =
        m.cell cfg s n := ha.cell
  exact
    { ok := ha.ok
      first := hfirst
      head_le := h.head_le
      write_le := h.write_le
      read_le := h.read_le.trans ha.ext.last
      head_hint := h.head_hint
      hint_le := h.hint_le.trans ha.ext.last
      head := (ha.ext.block _ hhead).trans h.head
      write := (ha.ext.block _ hwrite).trans h.write
      read := (ha.ext.block _ h.read_le).trans h.read
      hint := (ha.ext.block _ h.hint_le).trans h.hint
      read_lt := h.read_lt
      read_near := h.read_near
      hint_lt := h.hint_lt
      pending := h.pending
      data := fun n hn => (congrArg _ (hcell n (h.head_le_div hn))).trans (h.data n hn)
      flags := fun n hn => (congrArg _ (hcell n (h.head_le_div hn.le))).trans (h.flags n hn)
      drained := fun n hn hlt => (congrArg _ (hcell n hn)).trans (h.drained n hn hlt) }

theorem Free.recycle {c' : Chain} {h' : Heap Flags V} {t : Nat} (h : Free cfg s m)
    (ha : Reclaim.After cfg.toLayout m.chain s.heap m.head c' h') (hfirst : c'.first ≤ m.head) :
    Free cfg { s with heap := h', tailBlock := t } { m with chain := c' } :=
  h.move h.ledger (h.mem.recycle ha hfirst)
    ⟨ha.ext, fun _ _ _ => rfl, le_rfl, id, id, fun _ _ => id⟩ rfl rfl
    rfl h.ready (h.recorded.congr rfl rfl rfl rfl rfl) h.sound h.awake

/-! ## `try_reclaim_blocks` -/

/-- The blocks before the new head are drained. -/
theorem Mem.drained_head (h : Mem cfg s m) (hfirst : m.chain.first = m.head) :
    Reclaim.Drained cfg.toLayout m.chain s.heap m.write := by
  intro k hk hlt i hi
  have hB := cfg.blockSize_pos
  have hi : i < cfg.blockSize := hi
  have hdiv : (k * cfg.blockSize + i) / cfg.blockSize = k := by
    rw [Nat.mul_comm, Nat.mul_add_div hB, Nat.div_eq_of_lt hi, Nat.add_zero]
  have hmod : (k * cfg.blockSize + i) % cfg.blockSize = i := by
    rw [Nat.mul_comm, Nat.mul_add_mod, Nat.mod_eq_of_lt hi]
  have hend : k * cfg.blockSize + cfg.blockSize ≤ m.write * cfg.blockSize := by
    rw [← Nat.succ_mul]
    exact Nat.mul_le_mul_right _ hlt
  have hread : k * cfg.blockSize + i < s.readOffset := by
    rcases h.write_lt with h0 | hw
    · omega
    · omega
  have hd := h.drained (k * cfg.blockSize + i) (by rw [hdiv, ← hfirst]; exact hk) hread
  have hlast : k ≤ m.chain.last := hlt.le.trans (h.write_le.trans h.read_le)
  rw [Map.cell, Chain.cell, hdiv, hmod, if_pos hlast] at hd
  exact hd

/-- `reclaim_blocks` is called. -/
theorem Free.startRecycle {last : Bool} (h : Free cfg s m) (hc : Calm s m) (hcl : Clear cfg s m)
    (hent : Entered cfg s m b) (hp : s.pendingReclaim = some (old, new))
    (hle : s.pendingReclaimCutoff ≤ s.readOffset) (hscope : s.consumer.scope = none) :
    ∃ m', Inv cfg ({ s with headBlock := new, pendingReclaim := none }.setConsumer
      (.reclaim b (.gather [] old new) last)) m' := by
  obtain ⟨hold, hnew, -⟩ := h.mem.pending old new hp
  refine ⟨_, (h.finish hp hle).close ⟨hcl, ⟨?_, h.mem.drained_head hc.first, ⟨?_, ?_, ?_, ?_⟩,
    hc.tail, ?_, Nat.zero_le _⟩, rfl, rfl, hent⟩ hscope.symm fun n b e hne => by cases hne⟩
  · exact hc.first.trans_le h.mem.head_le
  · exact hc.first.trans_le h.mem.head_le
  · exact h.mem.write_le.trans h.mem.read_le
  · rw [List.length_nil, Nat.add_zero]
    exact (congrArg m.chain.block hc.first).trans (h.mem.head.trans hold.symm)
  · exact h.mem.write.trans hnew.symm
  · exact fun i hi => absurd hi (Nat.not_lt_zero _)

theorem Free.finishLast (h : Free cfg s m) (hc : Calm s m) (hcl : Clear cfg s m)
    (hent : Entered cfg s m b) (hscope : s.consumer.scope = none) :
    ∃ m', Inv cfg (s.finishLast .natural cfg b) m' := by
  rw [State.finishLast]
  have hidle : ∃ m', Inv cfg (s.setConsumer .idle) m' :=
    ⟨m, h.close (c := .idle) ⟨hc, hcl⟩ hscope.symm fun n b e hne => by cases hne⟩
  split
  · next old new hp =>
    split
    · exact hidle
    · next hge =>
      rw [Layout.less_natural, decide_eq_true_iff, Nat.not_lt] at hge
      exact h.startRecycle hc hcl hent hp hge hscope
  · exact hidle

theorem Free.startReclaim (h : Free cfg s m) (hc : Calm s m) (hcl : Clear cfg s m)
    (hent : Entered cfg s m b) (hscope : s.consumer.scope = none) :
    ∃ m', Inv cfg (s.startReclaim .natural cfg b) m' := by
  rw [State.startReclaim]
  split
  · exact h.finishLast hc hcl hent hscope
  · next hp =>
    exact ⟨m, h.close (c := .assertHead b) ⟨hc, hcl, hp, hent⟩ hscope.symm
      fun n b e hne => by cases hne⟩

theorem Free.tryReclaimBlocks (h : Free cfg s m) (hc : Calm s m) (hcl : Clear cfg s m)
    (hent : Entered cfg s m b) (hscope : s.consumer.scope = none) :
    ∃ m', Inv cfg (s.tryReclaimBlocks .natural cfg b) m' := by
  rw [State.tryReclaimBlocks]
  split
  · next old new hp =>
    split
    · exact h.startReclaim hc hcl hent hscope
    · next hge =>
      rw [Layout.less_natural, decide_eq_true_iff, Nat.not_lt] at hge
      exact h.startRecycle hc hcl hent hp hge hscope
  · exact h.startReclaim hc hcl hent hscope

/-- The index after the one at `read_offset` is in the block of `read_block` or
starts the next one. -/
theorem Mem.near_of_slot (h : Mem cfg s m) (hslot : cfg.slot s.readOffset ≠ 0) :
    s.readOffset + 1 ≤ (m.read + 1) * cfg.blockSize := by
  have hne : s.readOffset ≠ (m.read + 1) * cfg.blockSize := fun heq => by
    rw [Layout.slot, heq, Nat.mul_mod_left] at hslot
    exact hslot rfl
  exact Nat.lt_of_le_of_ne h.read_near hne

/-- The scope is destroyed. -/
theorem Inv.release (h : Inv cfg s m) (hs : s.release .natural cfg = some s') :
    ∃ m', Inv cfg s' m' := by
  rw [State.release] at hs
  split at hs
  · next idx b hpc =>
    have hk := h.consumer
    rw [hpc] at hk
    obtain ⟨hc, hs'⟩ := hk
    obtain ⟨rfl, hb⟩ := hs'.1
    have hfree := h.free fun n b e hne => by cases hpc.symm.trans hne
    have hscope : s.consumer.scope = some (s.readOffset, b) := by
      rw [hpc]
      rfl
    dsimp only [Layout.reg_natural] at hs
    split at hs <;> cases hs
    · next hslot =>
      have hmod : s.readOffset % cfg.blockSize = 0 := hslot
      have hmul := Nat.div_mul_cancel (Nat.dvd_of_mod_eq_zero hmod)
      have hpos := cfg.blockSize_pos
      have hidle := hfree.release hc hs' hscope (h.mem.read_le_div le_rfl) hb.1 hb.2
        (Nat.lt_succ_of_le hmul.le) (by rw [Nat.succ_mul, hmul]; omega)
      have hfree' := hidle.free fun n b e hne => by cases hne
      obtain ⟨hc', hcl'⟩ := hidle.consumer
      exact hfree'.tryReclaimBlocks { hc' with } hcl' ⟨hb.2, congrArg (· + 1) hmul.symm⟩ rfl
    · next hslot =>
      refine ⟨_, hfree.release hc hs' hscope le_rfl h.mem.read_le h.mem.read ?_
        (h.mem.near_of_slot hslot)⟩
      rcases h.mem.read_lt with h0 | hlt
      · rw [h0, Nat.zero_mul]
        exact Nat.succ_pos _
      · exact Nat.lt_succ_of_lt hlt
  · cases hs

/-! ## The steps of `reclaim_blocks` and of `try_start_reclaim` -/

theorem Free.reclaimStep {r : Reclaim} {last spurious : Bool} (h : Free cfg s m)
    (hpc : s.consumer = .reclaim b r last) (hk : ConsumerKnows cfg s m s.consumer)
    (hs : s.consumerStep .natural cfg spurious = some s') : ∃ m', Inv cfg s' m' := by
  rw [hpc] at hk
  obtain ⟨hcl, hr, hw, hp, hent⟩ := hk
  have hscope : s.consumer.scope = none := by rw [hpc]; rfl
  obtain ⟨c', ha, hok, hr'⟩ := Reclaim.step_spec h.mem.ok hr
  rw [State.consumerStep, hpc] at hs
  dsimp only at hs
  generalize r.step .natural cfg.toLayout s.heap s.tailBlock = x at hs ha hok hr'
  obtain ⟨heap, t, ok, r'⟩ := x
  have hfree := (h.recycle (t := t) ha hr'.1).check (c := ok) fun _ => hok
  have hcl' : Clear cfg { s with heap, tailBlock := t } { m with chain := c' } :=
    (congrArg _ (ha.cell _ (h.mem.head_le_div le_rfl))).trans hcl
  have hent' : Entered cfg { s with heap, tailBlock := t } { m with chain := c' } b :=
    ⟨(ha.ext.block _ h.mem.read_le).trans hent.1, hent.2⟩
  cases r' with
  | done =>
    cases hs
    obtain ⟨-, -, hfirst, ht, -⟩ := hr'
    have hc' : Calm { s with heap, tailBlock := t } { m with chain := c' } :=
      ⟨hfirst, ht, fun _ => hw⟩
    cases last with
    | true =>
      exact ⟨_, hfree.close (c := .idle) ⟨{ hc' with }, hcl'⟩ hscope.symm
        fun n b e hne => by cases hne⟩
    | false => exact hfree.startReclaim { hc' with } hcl' hent' hscope
  | gather un old new | reset un i old new | tailNext un t' old new | unlink un t' old new
  | tailOffset un t' old new | setOffset un i boff t' old new | relink un t' old new
  | tailAgain un t' old new =>
    cases hs
    exact ⟨_, hfree.close (c := .reclaim b _ last) ⟨hcl', hr', hw, hp, hent'⟩ hscope.symm
      fun n b e hne => by cases hne⟩

theorem Mem.offset_entered (h : Mem cfg s m) (hent : Entered cfg s m b) :
    s.offset b = m.read * cfg.blockSize := by
  rw [State.offset, ← hent.1]
  exact h.ok.offset _ ⟨h.first.trans (h.head_le.trans h.write_le), h.read_le⟩

theorem Free.assertHead (h : Free cfg s m) (hpc : s.consumer = .assertHead b)
    (hk : ConsumerKnows cfg s m s.consumer) :
    Inv cfg ((s.check (decide (s.offset b = cfg.base s.readOffset))).setConsumer (.oldOffset b))
      m := by
  rw [hpc] at hk
  obtain ⟨hc, hcl, hp, hent⟩ := hk
  have hfree := h.check (c := decide (s.offset b = cfg.base s.readOffset)) fun hB => ?_
  · exact hfree.close (c := .oldOffset b) ⟨{ hc with }, hcl, hp, hent⟩
      (by rw [show (s.check _).consumer = s.consumer from rfl, hpc]; rfl)
      fun n b e hne => by cases hne
  · -- with one element a block the consumer has left the block that it entered
    rw [decide_eq_true_iff, h.mem.offset_entered hent, Layout.mul_eq_base_iff, hent.2, Nat.mul_comm,
      Nat.mul_add_div cfg.blockSize_pos, Nat.div_eq_of_lt hB, Nat.add_zero]

theorem Free.oldOffset {spurious : Bool} (h : Free cfg s m) (hpc : s.consumer = .oldOffset b)
    (hk : ConsumerKnows cfg s m s.consumer)
    (hs : s.consumerStep .natural cfg spurious = some s') : ∃ m', Inv cfg s' m' := by
  rw [hpc] at hk
  obtain ⟨hc, hcl, hp, hent⟩ := hk
  have hscope : s.consumer.scope = none := by rw [hpc]; rfl
  rw [State.consumerStep, hpc] at hs
  dsimp only at hs
  split at hs <;> cases hs
  · exact ⟨m, h.close (c := .storeWriteBlock b) ⟨hc, hcl, hp, hent⟩ hscope.symm
      fun n b e hne => by cases hne⟩
  · exact h.finishLast hc hcl hent hscope

theorem Free.storeWriteBlock (h : Free cfg s m) (hpc : s.consumer = .storeWriteBlock b)
    (hk : ConsumerKnows cfg s m s.consumer) :
    ∃ m', Inv cfg ({ s with writeBlock := b }.setConsumer (.startHint b)) m' := by
  rw [hpc] at hk
  obtain ⟨hc, hcl, hp, hent⟩ := hk
  have hscope : s.consumer.scope = none := by rw [hpc]; rfl
  exact ⟨_, (h.setWriteBlock hp hent.1).close (c := .startHint b)
    ⟨hc.first, hc.tail, rfl, hp, hcl, hent⟩ hscope.symm fun n b e hne => by cases hne⟩

theorem Free.startHint (h : Free cfg s m) (hpc : s.consumer = .startHint b)
    (hk : ConsumerKnows cfg s m s.consumer) :
    Inv cfg (s.setConsumer (.startCurrent b s.writeBlockHint)) m := by
  rw [hpc] at hk
  exact h.close (c := .startCurrent b _)
    ⟨hk, m.hint, ⟨h.mem.head_hint, h.mem.hint_le, h.mem.hint⟩, le_rfl⟩ (by rw [hpc]; rfl)
    fun n b e hne => by cases hne

theorem Free.startCurrent {c : Nat} (h : Free cfg s m) (hpc : s.consumer = .startCurrent b c)
    (hk : ConsumerKnows cfg s m s.consumer) :
    Inv cfg (s.setConsumer (.startTarget b c (s.offset c))) m := by
  rw [hpc] at hk
  obtain ⟨hs, k, hk, hle⟩ := hk
  have hoff : s.offset c = k * cfg.blockSize := by
    rw [State.offset, ← hk.2.2]
    exact h.mem.ok.offset _ ⟨h.mem.first.trans hk.1, hk.2.1⟩
  exact h.close (c := .startTarget b c _) ⟨hs, k, hk, hle, hoff⟩ (by rw [hpc]; rfl)
    fun n b e hne => by cases hne

theorem Free.startTarget {c off : Nat} (h : Free cfg s m) (hpc : s.consumer = .startTarget b c off)
    (hk : ConsumerKnows cfg s m s.consumer) :
    Inv cfg (s.setConsumer (if cfg.less .natural off (s.offset b) then .startCas b c
      else .loadCutoff b)) m := by
  rw [hpc] at hk
  obtain ⟨hs, k, hk, hle, rfl⟩ := hk
  have hoff := h.mem.offset_entered hs.entered
  rw [← hs.write] at hoff
  rw [hoff, Layout.less_natural]
  split
  · next hlt =>
    exact h.close (c := .startCas b c)
      ⟨hs, k, hk, Nat.lt_of_mul_lt_mul_right (of_decide_eq_true hlt)⟩ (by rw [hpc]; rfl)
      fun n b e hne => by cases hne
  · next hge =>
    rw [decide_eq_true_iff, Nat.not_lt] at hge
    exact h.close (c := .loadCutoff b)
      ⟨hs, (Nat.le_of_mul_le_mul_right hge cfg.blockSize_pos).trans hle⟩ (by rw [hpc]; rfl)
      fun n b e hne => by cases hne

theorem Free.startCas {c : Nat} {spurious : Bool} (h : Free cfg s m)
    (hpc : s.consumer = .startCas b c) (hk : ConsumerKnows cfg s m s.consumer)
    (hs : s.consumerStep .natural cfg spurious = some s') : ∃ m', Inv cfg s' m' := by
  rw [hpc] at hk
  obtain ⟨hst, k, hk, hlt⟩ := hk
  have hscope : s.consumer.scope = none := by rw [hpc]; rfl
  rw [State.consumerStep, hpc] at hs
  dsimp only at hs
  split at hs <;> cases hs
  · next heq =>
    have hhint : m.hint = k := by
      refine h.mem.ok.inj _ _ ⟨h.mem.first.trans h.mem.head_hint, h.mem.hint_le⟩
        ⟨h.mem.first.trans hk.1, hk.2.1⟩ ?_
      rw [h.mem.hint, heq.2, hk.2.2]
    have hsees : m.Sees m.head m.write b :=
      ⟨h.mem.head_le, h.mem.write_le.trans h.mem.read_le, hst.write ▸ hst.entered.1⟩
    have hread : s.readOffset ≤ s.writeOffset := h.ledger.read_le
    refine ⟨_, (h.setHint (k := m.write) (by omega) hsees
      (h.mem.write_lt.imp_right fun hw => hw.trans_le hread)).close (c := .loadCutoff b)
      ⟨{ hst with }, le_rfl⟩ hscope.symm fun n b e hne => by cases hne⟩
  · exact ⟨m, h.close (c := .startCurrent b _)
      ⟨hst, m.hint, ⟨h.mem.head_hint, h.mem.hint_le, h.mem.hint⟩, le_rfl⟩ hscope.symm
      fun n b e hne => by cases hne⟩

theorem Free.loadCutoff (h : Free cfg s m) (hpc : s.consumer = .loadCutoff b)
    (hk : ConsumerKnows cfg s m s.consumer) :
    ∃ m', Inv cfg ({ s with
      pendingReclaimCutoff := s.writeOffset
      pendingReclaim := some (s.headBlock, b) }.finishLast .natural cfg b) m' := by
  rw [hpc] at hk
  obtain ⟨hs, hhint⟩ := hk
  have hb : s.writeBlock = b := by rw [← h.mem.write, hs.write, hs.entered.1]
  subst hb
  exact (h.setPending hs.pending hhint).finishLast
    ⟨hs.first, hs.tail, fun hn => by cases hn⟩ hs.clear hs.entered
    (by rw [show (State.consumer _) = s.consumer from rfl, hpc]; rfl)

/-! ## All steps -/

/-- A step of the consumer keeps the invariant. -/
theorem Inv.consumerStep (h : Inv cfg s m) {spurious : Bool}
    (hs : s.consumerStep .natural cfg spurious = some s') : ∃ m', Inv cfg s' m' := by
  have hk := h.consumer
  by_cases hw : ∃ n b e, s.consumer = .suspended n b e
  · obtain ⟨n, b, e, hpc⟩ := hw
    rw [State.consumerStep, hpc] at hs
    cases hs
  have hf := h.free fun n b e hc => hw ⟨n, b, e, hc⟩
  cases hpc : s.consumer
  case find k idx f => exact hf.find hpc hk hs
  case poll k idx b => exact hf.poll hpc hk hs
  case tryWait idx b => exact hf.tryWait hpc hk hs
  case resumed idx b e => exact hf.resumed hpc hk hs
  case reclaim b r last => exact hf.reclaimStep hpc hk hs
  case oldOffset b => exact hf.oldOffset hpc hk hs
  case startCas b c => exact hf.startCas hpc hk hs
  case emptyFind scope f => exact hf.emptyFind hpc hk hs
  all_goals
    rw [State.consumerStep, hpc] at hs
    dsimp only at hs
  case idle => cases hs
  case suspended n b e => cases hs
  case holding idx b => cases hs
  case assertRead k =>
    cases hs
    exact ⟨m, hf.assertRead hpc hk⟩
  case storeClosed idx b =>
    cases hs
    exact ⟨m, hf.storeClosed hpc hk⟩
  case assertHead b =>
    cases hs
    exact ⟨m, hf.assertHead hpc hk⟩
  case storeWriteBlock b =>
    cases hs
    exact hf.storeWriteBlock hpc hk
  case startHint b =>
    cases hs
    exact ⟨m, hf.startHint hpc hk⟩
  case startCurrent b c =>
    cases hs
    exact ⟨m, hf.startCurrent hpc hk⟩
  case startTarget b c off =>
    cases hs
    exact ⟨m, hf.startTarget hpc hk⟩
  case loadCutoff b =>
    cases hs
    exact hf.loadCutoff hpc hk
  case emptyPoll scope b =>
    cases hs
    exact ⟨m, hf.emptyPoll hpc hk⟩

end CoroUtil.MpscUnbounded
