import CoroUtil.SpscUnbounded.Frame

/-!
# The steps of the producer keep the invariant

One lemma for each program counter of `post`, `post_bulk` and `close`;
`Inv.producerStep` puts them together.  The exchange that publishes an element
finds null or the pointer of the consumer that is suspended on the element:
`Inv.found_cases`.
-/

namespace CoroUtil.SpscUnbounded

open CoroUtil.Blocks

variable {V : Type} {cfg : Config} {s s' : State V} {m m' : Map} {pc : ProducerPc V}
  {n b k idx frame : Nat} {j : Job V} {w : Put V} {items : List V} {cons cons' : Option Nat}

@[simp] theorem State.check_true : s.check true = s := by
  simp [State.check]

/-! ## Finding the block -/

/-- `write_block` is where a walk to the next index starts. -/
theorem Mem.writeAt (h : Mem cfg s m) (hn : m.next ≤ n) :
    Find.At cfg.toLayout m.chain m.write n m.write s.writeBlock :=
  ⟨le_rfl, h.write_le, h.write, h.write_le_div hn⟩

theorem Job.Knows.next (h : j.Knows s m idx) : m.next = idx := by
  cases j with
  | post v => exact h.2.1
  | close => exact h.2.1

theorem Inv.assertOpen (h : Inv cfg s m) (hpc : s.producer = .assertOpen w)
    (hs : s.producerStep .natural cfg = some s') : ∃ m', Inv cfg s' m' := by
  have hk := h.producer
  rw [hpc] at hk
  obtain ⟨hposts, hcount⟩ := hk
  obtain ⟨-, hnext, hopen, hsealed⟩ := hposts
  have hposts : Posts s m s.writeOffset 0 := ⟨rfl, hnext, hopen, hsealed⟩
  have hfind : Find.Ok cfg.toLayout m.chain m.write s.writeOffset (.load s.writeBlock) :=
    ⟨m.write, h.mem.writeAt hnext.le⟩
  rw [State.producerStep, hpc, hopen] at hs
  simp only [Bool.not_false, State.check_true] at hs
  refine ⟨m, ?_⟩
  cases w with
  | post v =>
    cases hs
    refine h.setProducer hpc ⟨hposts, hfind, fun b hb => ?_⟩ rfl rfl rfl rfl
    cases hb
    rfl
  | bulk items =>
    cases hs
    split
    · next hlen =>
      exact h.setProducer hpc ⟨hnext, hsealed.trans hopen.symm⟩ rfl rfl rfl
        (List.length_eq_zero_iff.mp hlen).symm
    · next hlen =>
      exact h.setProducer hpc ⟨hposts, Nat.pos_of_ne_zero hlen, hcount⟩ rfl rfl rfl rfl

/-- A step of the producer's `find_block`. -/
theorem Inv.findStep (h : Inv cfg s m) {f : Find}
    (hf : f.Ok cfg.toLayout m.chain m.write n) :
    ∃ c', Inv cfg { s with heap := (f.step .natural cfg.toLayout n s.heap).1 }
        { m with chain := c' } ∧ m.chain.Extends c' ∧
      (f.step .natural cfg.toLayout n s.heap).2.1 = true ∧
      (f.step .natural cfg.toLayout n s.heap).2.2.Ok cfg.toLayout c' m.write n := by
  obtain ⟨c', hg, hok, hf'⟩ := Find.step_spec h.mem.ok h.mem.first_le hf
  exact ⟨c', h.grow hg, hg.ext, hok, hf'⟩

/-- `find_write_block` goes on with the write. -/
theorem Inv.afterFind (h : Inv cfg s m) (hj : j.Knows s m idx) (hb : m.BlockOf cfg idx b)
    (hw : m.write = idx / cfg.blockSize) (hpc : s.producer = pc) (hwakes : pc.wakes = none)
    (hnulls : pc.nulls = false) (hbuilt : pc.built = 0)
    (hrest : pc.rest = (ProducerPc.storeWriteBlock j idx b).rest) :
    Inv cfg (s.afterFind j idx b) m := by
  cases j with
  | post v =>
    exact h.setProducer hpc ⟨hj, Nat.one_pos, hb, hb.1, hw⟩ hwakes.symm hnulls.symm hbuilt.symm
      hrest.symm
  | close => exact h.setProducer hpc ⟨hj, hb⟩ hwakes.symm hnulls.symm hbuilt.symm hrest.symm

theorem Inv.find {f : Find} (h : Inv cfg s m) (hpc : s.producer = .find j idx f)
    (hs : s.producerStep .natural cfg = some s') : ∃ m', Inv cfg s' m' := by
  have hk := h.producer
  rw [hpc] at hk
  obtain ⟨hj, hf, hload⟩ := hk
  obtain ⟨c', h', hext, hok, hf'⟩ := h.findStep hf
  have hj' : j.Knows { s with heap := (f.step .natural cfg.toLayout idx s.heap).1 }
      { m with chain := c' } idx := hj.later ⟨hext, rfl, rfl, rfl, rfl, rfl, rfl⟩
  have hne : ∀ b, (f.step .natural cfg.toLayout idx s.heap).2.2 ≠ .load b :=
    fun b => Find.step_ne_load
  -- the walk goes on
  have hgo : ∃ m', Inv cfg ({ s with
      heap := (f.step .natural cfg.toLayout idx s.heap).1 }.setProducer
        (.find j idx (f.step .natural cfg.toLayout idx s.heap).2.2)) m' := by
    refine ⟨_, h'.setProducer hpc ⟨hj', hf', fun b hb => absurd hb (hne b)⟩ rfl rfl rfl ?_⟩
    cases j <;> rfl
  rw [State.producerStep, hpc] at hs
  cases f with
  | load b =>
    obtain rfl := hload b rfl
    have hassert : cfg.less .natural (s.offset s.writeBlock) (cfg.reg .natural (1 + idx)) = true := by
      have hmul := h.mem.write_mul
      have hnext := hj.next
      rw [Layout.less_natural, Layout.reg_natural, h.mem.offset_write, decide_eq_true_iff]
      omega
    dsimp only at hs
    rw [hassert] at hs
    rw [hok, Bool.and_self, State.check_true] at hs
    by_cases hbase : (s.heap.block s.writeBlock).offset ≠ cfg.base idx
    · rw [Find.step, if_pos hbase] at hs hgo
      cases hs
      exact hgo
    · rw [Find.step, if_neg hbase] at hs h' hj' hf'
      cases hs
      obtain ⟨-, hlast, hb⟩ := hf'
      have hwrite : m.write = idx / cfg.blockSize := by
        have hoff := h.mem.offset_write
        rw [State.offset, not_not.mp hbase] at hoff
        exact cfg.mul_eq_base_iff.mp hoff.symm
      refine ⟨_, h'.afterFind hj' ⟨hlast, hb⟩ hwrite hpc rfl rfl rfl ?_⟩
      cases j <;> rfl
  | next t off | cas t off | check t off | found t =>
    dsimp only at hs
    generalize Find.step .natural cfg.toLayout idx s.heap _ = x at *
    obtain ⟨heap, ok, f'⟩ := x
    obtain rfl : ok = true := hok
    simp only [State.check_true] at hs
    cases f' with
    | found b =>
      cases hs
      obtain ⟨-, hlast, hb⟩ := hf'
      refine ⟨_, h'.setProducer hpc ⟨hj', hlast, hb⟩ rfl rfl rfl ?_⟩
      cases j <;> rfl
    | load t => exact absurd rfl (hne t)
    | next t off | cas t off | check t off =>
      cases hs
      exact hgo

/-- `write_block` moves to the block of the next index. -/
theorem Inv.setWrite (h : Inv cfg s m) (hb : m.BlockOf cfg m.next b)
    (hk : Knows cfg { s with writeBlock := b } { m with write := m.next / cfg.blockSize } s.producer) :
    Inv cfg { s with writeBlock := b } { m with write := m.next / cfg.blockSize } := by
  have ha : Aside cfg s m { s with writeBlock := b } { m with write := m.next / cfg.blockSize } :=
    .of_eq h.mem rfl rfl rfl rfl rfl rfl rfl rfl rfl
  exact h.produce (h.mem.setWrite hb) ha hk rfl { h.awake with } rfl h.recorded.length
    h.recorded.posts (List.prefix_refl _) h.sound

theorem Inv.storeWriteBlock (h : Inv cfg s m) (hpc : s.producer = .storeWriteBlock j idx b) :
    ∃ m', Inv cfg ({ s with writeBlock := b }.afterFind j idx b) m' := by
  have hk := h.producer
  rw [hpc] at hk
  obtain ⟨hj, hb⟩ := hk
  have hnext := hj.next
  have hj' : j.Knows { s with writeBlock := b } { m with write := m.next / cfg.blockSize } idx := by
    cases j <;> exact hj
  have h' := h.setWrite (b := b) (hnext ▸ hb) (by
    rw [hpc]
    exact ⟨hj', hb⟩)
  exact ⟨_, h'.afterFind hj' hb (by rw [hnext]) hpc rfl rfl rfl rfl⟩

/-! ## Finding the blocks of `post_bulk` -/

theorem Inv.bulkAssert (h : Inv cfg s m) (hpc : s.producer = .bulkAssert items idx) :
    Inv cfg ((s.check (cfg.less .natural (s.offset s.writeBlock)
      (cfg.reg .natural (1 + idx)))).setProducer (.bulkFind items idx (.load s.writeBlock))) m := by
  have hk := h.producer
  rw [hpc] at hk
  obtain ⟨hp, hpos⟩ := hk
  have hnext : m.next = idx := hp.2.1
  have hassert : cfg.less .natural (s.offset s.writeBlock) (cfg.reg .natural (1 + idx)) = true := by
    have hmul := h.mem.write_mul
    rw [Layout.less_natural, Layout.reg_natural, h.mem.offset_write, decide_eq_true_iff]
    omega
  rw [hassert, State.check_true]
  exact h.setProducer hpc ⟨hp, hpos, m.write, h.mem.writeAt hnext.le⟩ rfl rfl rfl rfl

theorem Inv.bulkFind {f : Find} (h : Inv cfg s m) (hpc : s.producer = .bulkFind items idx f)
    (hs : s.producerStep .natural cfg = some s') : ∃ m', Inv cfg s' m' := by
  have hk := h.producer
  rw [hpc] at hk
  obtain ⟨hp, hpos, hf⟩ := hk
  obtain ⟨c', h', hext, hok, hf'⟩ := h.findStep hf
  have hp' : Posts { s with heap := (f.step .natural cfg.toLayout idx s.heap).1 }
      { m with chain := c' } idx 0 := hp
  rw [State.producerStep, hpc] at hs
  dsimp only at hs
  generalize f.step .natural cfg.toLayout idx s.heap = x at *
  obtain ⟨heap, ok, f'⟩ := x
  obtain rfl : ok = true := hok
  simp only [State.check_true] at hs
  cases f' with
  | found b =>
    cases hs
    obtain ⟨hle, hlast, hb⟩ := hf'
    have hdiv : idx / cfg.blockSize ≤ (idx + items.length - 1) / cfg.blockSize :=
      Nat.div_le_div_right (by have hpos := hpos.1; omega)
    exact ⟨_, h'.setProducer hpc
      ⟨hp', hpos, ⟨hlast, hb⟩, idx / cfg.blockSize, hle, hlast, hb, hdiv⟩ rfl rfl rfl rfl⟩
  | load t | next t off | cas t off | check t off =>
    cases hs
    exact ⟨_, h'.setProducer hpc ⟨hp', hpos, hf'⟩ rfl rfl rfl rfl⟩

theorem Inv.bulkFindEnd {f : Find} (h : Inv cfg s m)
    (hpc : s.producer = .bulkFindEnd items idx b f)
    (hs : s.producerStep .natural cfg = some s') : ∃ m', Inv cfg s' m' := by
  have hk := h.producer
  rw [hpc] at hk
  obtain ⟨hp, hpos, hb, hf⟩ := hk
  obtain ⟨c', h', hext, hok, hf'⟩ := h.findStep hf
  have hb' : Map.BlockOf cfg { m with chain := c' } idx b := hb.mono hext
  have hp' : Posts { s with
      heap := (f.step .natural cfg.toLayout (idx + items.length - 1) s.heap).1 }
        { m with chain := c' } idx 0 := hp
  rw [State.producerStep, hpc] at hs
  dsimp only [Layout.reg_natural] at hs
  generalize f.step .natural cfg.toLayout (idx + items.length - 1) s.heap = x at *
  obtain ⟨heap, ok, f'⟩ := x
  obtain rfl : ok = true := hok
  simp only [State.check_true] at hs
  cases f' with
  | found t =>
    cases hs
    exact ⟨_, h'.setProducer hpc ⟨hp', hpos.1, hb', hf'.2.1⟩ rfl rfl rfl rfl⟩
  | load t | next t off | cas t off | check t off =>
    cases hs
    exact ⟨_, h'.setProducer hpc ⟨hp', hpos, hb', hf'⟩ rfl rfl rfl rfl⟩

theorem Inv.bulkStoreWriteBlock (h : Inv cfg s m)
    (hpc : s.producer = .bulkStoreWriteBlock items idx b) :
    ∃ m', Inv cfg ({ s with writeBlock := b }.setProducer (.emplace (.bulk items) idx 0 b none))
      m' := by
  have hk := h.producer
  rw [hpc] at hk
  obtain ⟨hp, hpos, hb, hr⟩ := hk
  have hnext : m.next = idx := hp.2.1
  have h' := h.setWrite (b := b) (hnext ▸ hb) (by
    rw [hpc]
    exact ⟨hp, hpos, hb, hr⟩)
  have hk' : Knows cfg { s with writeBlock := b } { m with write := m.next / cfg.blockSize }
      (.emplace (.bulk items) idx 0 b none) := ⟨hp, hpos, hb, hr, by rw [hnext]; rfl⟩
  exact ⟨_, h'.setProducer hpc hk' rfl rfl rfl rfl⟩

end CoroUtil.SpscUnbounded
