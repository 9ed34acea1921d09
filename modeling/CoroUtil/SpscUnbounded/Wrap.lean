import Mathlib.Data.Finset.Card
import Mathlib.Order.Interval.Finset.Nat
import CoroUtil.Blocks.Wrap
import CoroUtil.SpscUnbounded.Run

/-!
# Offsets that wrap

`State.wrap` puts the natural offsets of a state into registers.  The blocks are
distinct and fit in the address space, so the offsets of the chain span at most
half the range of a register: `Inv.span`.  Every offset that is compared is one
of them, and a step on the registers is the step on the numbers for runs of any
length.
-/

namespace CoroUtil.SpscUnbounded

open CoroUtil.Blocks CoroUtil.General

variable {V : Type}

def ProducerPc.wrap (L : Layout) : ProducerPc V → ProducerPc V
  | idle => idle
  | assertOpen w => assertOpen w
  | find j idx f => find j (word L.bits idx) (f.wrap L)
  | storeWriteBlock j idx b => storeWriteBlock j (word L.bits idx) b
  | bulkAssert items idx => bulkAssert items (word L.bits idx)
  | bulkFind items idx f => bulkFind items (word L.bits idx) (f.wrap L)
  | bulkFindEnd items idx b f => bulkFindEnd items (word L.bits idx) b (f.wrap L)
  | bulkStoreWriteBlock items idx b => bulkStoreWriteBlock items (word L.bits idx) b
  | emplace w idx k b cons => emplace w (word L.bits idx) k b cons
  | publish w idx k b cons => publish w (word L.bits idx) k b cons
  | nextBlock items idx k b cons => nextBlock items (word L.bits idx) k b cons
  | storeNextBlock items idx k b cons => storeNextBlock items (word L.bits idx) k b cons
  | resumeConsumer frame => resumeConsumer frame
  | closeCas => closeCas
  | storeClosedAt => storeClosedAt
  | exchangeClosed idx b => exchangeClosed (word L.bits idx) b
  | elemNull frame => elemNull frame
  | closeResume frame => closeResume frame

def ConsumerPc.wrap (L : Layout) : ConsumerPc → ConsumerPc
  | idle => idle
  | assertRead k => assertRead k
  | find k idx f => find k (word L.bits idx) (f.wrap L)
  | poll k idx b => poll k (word L.bits idx) b
  | tryWait idx b => tryWait (word L.bits idx) b
  | storeClosed idx b => storeClosed (word L.bits idx) b
  | suspended idx b elemNull => suspended (word L.bits idx) b elemNull
  | resumed idx b elemNull => resumed (word L.bits idx) b elemNull
  | holding idx b => holding (word L.bits idx) b
  | reclaim r => reclaim (r.wrap L)
  | emptyFind scope f => emptyFind (scope.map fun x => (word L.bits x.1, x.2)) (f.wrap L)
  | emptyPoll scope b => emptyPoll (scope.map fun x => (word L.bits x.1, x.2)) b

/-- The state whose registers hold the offsets of `s`. -/
def State.wrap (L : Layout) (s : State V) : State V :=
  { s with
    heap := s.heap.wrap L
    writeOffset := word L.bits s.writeOffset
    writeClosedAt := word L.bits s.writeClosedAt
    readOffset := word L.bits s.readOffset
    producer := s.producer.wrap L
    consumer := s.consumer.wrap L }

variable {cfg : Config} {s : State V} {m : Map} {w : Put V} {j : Job V} {items : List V}
  {n b k idx : Nat} {pc : ProducerPc V} {c : ConsumerPc} {cons : Option Nat}

/-! ## What does not look at the offsets -/

namespace State

theorem wrap_setElem {e : Element Flags V} : (s.setElem cfg b n e).wrap cfg.toLayout =
    (s.wrap cfg.toLayout).setElem cfg b (word cfg.bits n) e := by
  rw [setElem, setElem, Layout.slot_word, wrap, Heap.wrap_setElem]
  rfl

theorem elem_wrap : (s.wrap cfg.toLayout).elem cfg b (word cfg.bits n) = s.elem cfg b n := by
  rw [elem, elem, Layout.slot_word]
  rfl

theorem wrap_setFlags {f : Flags} : (s.setFlags cfg b n f).wrap cfg.toLayout =
    (s.wrap cfg.toLayout).setFlags cfg b (word cfg.bits n) f := by
  rw [setFlags, setFlags, wrap_setElem, elem_wrap]

section

variable {t : State V} (ht : t = s.wrap cfg.toLayout)
include ht

theorem handOut_wrap {g : Bool} : t.handOut cfg (word cfg.bits idx) b g =
    (s.handOut cfg idx b g).wrap cfg.toLayout := by
  subst ht
  rw [handOut, handOut, elem_wrap]
  split <;> rfl

theorem resumeConsumer_wrap : t.resumeConsumer n = (s.resumeConsumer n).wrap cfg.toLayout := by
  subst ht
  have hcons : (s.wrap cfg.toLayout).consumer = s.consumer.wrap cfg.toLayout := rfl
  rw [resumeConsumer, resumeConsumer, hcons]
  cases s.consumer with
  | suspended idx b e =>
    dsimp only [ConsumerPc.wrap]
    change (if n = s.frame then _ else _) = (if n = s.frame then _ else _ : State V).wrap cfg.toLayout
    split <;> rfl
  | _ => rfl

theorem afterFind_wrap : t.afterFind j (word cfg.bits idx) b =
    (s.afterFind j idx b).wrap cfg.toLayout := by
  subst ht
  cases j <;> rfl

theorem finish_wrap {count : Nat} : t.finish .wrapping cfg (word cfg.bits idx) count cons =
    (s.finish .natural cfg idx count cons).wrap cfg.toLayout := by
  subst ht
  have hreg : cfg.reg .wrapping (word cfg.bits idx + count) = word cfg.bits (idx + count) :=
    word_word_add
  unfold finish
  rw [hreg]
  cases cons <;> rfl

end

end State

/-! ## What is compared -/

/-- The offsets of the chain, and the one behind it, are within half the range of
a register. -/
theorem Inv.span (h : Inv cfg s m) (hf : Fits cfg s) :
    (m.chain.last + 1) * cfg.blockSize < m.chain.first * cfg.blockSize + 2 ^ (cfg.bits - 1) := by
  have hle := h.mem.ok.le
  have hcard : (Finset.Icc m.chain.first m.chain.last).card ≤ (Finset.range s.heap.fresh).card := by
    refine Finset.card_le_card_of_injOn m.chain.block (fun k hk => ?_) fun i hi k hk heq => ?_
    · exact Finset.mem_coe.mpr (Finset.mem_range.mpr (h.mem.ok.fresh k (Finset.mem_Icc.mp hk)))
    · exact h.mem.ok.inj i k (Finset.mem_Icc.mp hi) (Finset.mem_Icc.mp hk) heq
  rw [Nat.card_Icc, Finset.card_range] at hcard
  have hbits := cfg.platform
  have hpow : 2 ^ cfg.bits = 2 * 2 ^ (cfg.bits - 1) := by
    rw [← Nat.pow_succ', Nat.succ_eq_add_one, Nat.sub_add_cancel (by omega)]
  have hpos := Nat.two_pow_pos (cfg.bits - 1)
  have hmul : (m.chain.last + 1) * cfg.blockSize ≤
      m.chain.first * cfg.blockSize + s.heap.fresh * cfg.blockSize := by
    rw [← Nat.add_mul]
    exact Nat.mul_le_mul_right _ (by omega)
  have hfit : 4 * (s.heap.fresh * cfg.blockSize) ≤ 2 ^ cfg.bits := hf
  omega

/-- An offset of the chain or behind it. -/
def Within (cfg : Config) (m : Map) (n : Nat) : Prop :=
  m.chain.first * cfg.blockSize ≤ n ∧ n ≤ (m.chain.last + 1) * cfg.blockSize

theorem Inv.less (h : Inv cfg s m) (hf : Fits cfg s) {i k : Nat} (hi : Within cfg m i)
    (hk : Within cfg m k) :
    cfg.less .wrapping (word cfg.bits i) (word cfg.bits k) = cfg.less .natural i k := by
  have hspan := h.span hf
  have hi1 := hi.1
  have hk1 := hk.1
  exact Layout.less_wrapping (hi.2.trans_lt (by omega)) (hk.2.trans_lt (by omega))

/-- The range of a register has room for two blocks and more. -/
theorem Config.block_lt (cfg : Config) : cfg.blockSize + 1 < 2 ^ (cfg.bits - 1) := by
  have hlog := cfg.log_lt
  have hbits := cfg.platform
  have hle : cfg.blockSize ≤ 2 ^ (cfg.bits - 2) := Nat.pow_le_pow_right Nat.two_pos (by omega)
  have hone : 1 < 2 ^ (cfg.bits - 2) := Nat.one_lt_two_pow (by omega)
  have hpow : 2 ^ (cfg.bits - 1) = 2 * 2 ^ (cfg.bits - 2) := by
    rw [← Nat.pow_succ', Nat.succ_eq_add_one, show cfg.bits - 2 + 1 = cfg.bits - 1 by omega]
  omega

/-- The test that a block is not behind the index that is looked for. -/
theorem less_one (hle : k * cfg.blockSize ≤ idx) (hnear : idx ≤ (k + 1) * cfg.blockSize) :
    cfg.less .wrapping (word cfg.bits (k * cfg.blockSize)) (cfg.reg .wrapping (1 + word cfg.bits idx)) =
      cfg.less .natural (k * cfg.blockSize) (cfg.reg .natural (1 + idx)) := by
  have hblock := cfg.block_lt
  rw [Nat.add_mul, Nat.one_mul] at hnear
  rw [Layout.reg_wrapping, word_add_word, Layout.reg_natural]
  exact Layout.less_wrapping (by omega) (by omega)

/-- A walk to an index that is near the block where it starts. -/
theorem near_find {lo : Nat} (hnear : idx < (lo + 1) * cfg.blockSize + 2 ^ (cfg.bits - 1)) :
    idx < lo * cfg.blockSize + 2 ^ cfg.bits := by
  have hblock := cfg.block_lt
  have hbits := cfg.platform
  have hpow : 2 ^ cfg.bits = 2 * 2 ^ (cfg.bits - 1) := by
    rw [← Nat.pow_succ', Nat.succ_eq_add_one, Nat.sub_add_cancel (by omega)]
  rw [Nat.add_mul, Nat.one_mul] at hnear
  omega

theorem Inv.find_read (h : Inv cfg s m) : s.readOffset < m.head * cfg.blockSize + 2 ^ cfg.bits := by
  have hnear := h.mem.read_near
  have hpos := Nat.two_pow_pos (cfg.bits - 1)
  exact near_find (by omega)

theorem Inv.find_write (h : Inv cfg s m) {count : Nat} (hc : count < 2 ^ (cfg.bits - 1)) :
    m.next + count < m.write * cfg.blockSize + 2 ^ cfg.bits := by
  have hnear := h.mem.write_near
  exact near_find (by omega)

theorem Inv.find_next (h : Inv cfg s m) : m.next < m.write * cfg.blockSize + 2 ^ cfg.bits :=
  h.find_write (Nat.two_pow_pos _)

/-- The indices of items whose blocks have been allocated. -/
theorem Inv.within_items (h : Inv cfg s m) {count : Nat} (hnext : m.next = idx + k)
    (hk : k ≤ count) (hr : Ready cfg m idx count) :
    Within cfg m (idx + k) ∧ Within cfg m (idx + count) := by
  have hfirst : m.chain.first * cfg.blockSize ≤ m.next :=
    (Nat.mul_le_mul_right _ h.mem.first_le).trans h.mem.write_mul
  have hlast : idx + count ≤ (m.chain.last + 1) * cfg.blockSize := by
    have hlt := Nat.lt_div_mul_add (a := idx + count - 1) cfg.blockSize_pos
    have hmul : (idx + count - 1) / cfg.blockSize * cfg.blockSize ≤ m.chain.last * cfg.blockSize :=
      Nat.mul_le_mul_right _ hr
    rw [Nat.add_mul, Nat.one_mul]
    omega
  exact ⟨⟨by omega, by omega⟩, by omega, hlast⟩

/-! ## The steps of the producer -/

/-- Two branches on conditions that agree. -/
theorem ite_wrap {α β : Type} {f : α → β} {p q : Prop} [Decidable p] [Decidable q] {x y : β}
    {x' y' : α} (hpq : p ↔ q) (hx : q → x = f x') (hy : ¬q → y = f y') :
    (if p then x else y) = f (if q then x' else y') := by
  by_cases hq : q
  · rw [if_pos (hpq.mpr hq), if_pos hq, hx hq]
  · rw [if_neg (fun hp => hq (hpq.mp hp)), if_neg hq, hy hq]

section

variable {t : State V} (ht : t = s.wrap cfg.toLayout)
include ht

theorem State.afterItem_wrap (hk : k ≤ items.length) (hc : items.length < k + 2 ^ cfg.bits) :
    t.afterItem .wrapping cfg items (word cfg.bits idx) k b cons =
      (s.afterItem .natural cfg items idx k b cons).wrap cfg.toLayout := by
  have heq : cfg.reg .wrapping (word cfg.bits idx + k) =
      cfg.reg .wrapping (word cfg.bits idx + items.length) ↔
        cfg.reg .natural (idx + k) = cfg.reg .natural (idx + items.length) := by
    rw [Layout.reg_wrapping, Layout.reg_wrapping, word_word_add, word_word_add]
    exact word_inj (by omega) (by omega)
  refine ite_wrap heq (fun _ => finish_wrap ht) fun _ => ?_
  subst ht
  rfl

theorem State.afterWrite_wrap (hk : k < w.count) (hc : w.count < k + 2 ^ cfg.bits) :
    t.afterWrite .wrapping cfg w (word cfg.bits idx) k b cons =
      (s.afterWrite .natural cfg w idx k b cons).wrap cfg.toLayout := by
  cases w with
  | post v => exact finish_wrap ht
  | bulk items =>
    have hk : k < items.length := hk
    have hc : items.length < k + 2 ^ cfg.bits := hc
    have hslot : cfg.slot (cfg.reg .wrapping (word cfg.bits idx + (k + 1))) =
        cfg.slot (cfg.reg .natural (idx + (k + 1))) := by
      rw [Layout.reg_wrapping, word_word_add, Layout.slot_word, Layout.reg_natural]
    refine ite_wrap (by rw [hslot]) (fun _ => ?_) fun _ => afterItem_wrap ht hk (by omega)
    subst ht
    rfl

end

theorem State.producer_wrap : (s.wrap cfg.toLayout).producer = s.producer.wrap cfg.toLayout := rfl

/-- The items of a call are fewer than the range of a register. -/
theorem Inv.items_lt (h : Inv cfg s m) (hf : Fits cfg s) {count : Nat} (hnext : m.next = idx + k)
    (hk : k ≤ count) (hr : Ready cfg m idx count) : count < k + 2 ^ cfg.bits := by
  obtain ⟨hlo, hhi⟩ := h.within_items hnext hk hr
  have hspan := h.span hf
  have hhalf : 2 ^ (cfg.bits - 1) ≤ 2 ^ cfg.bits :=
    Nat.pow_le_pow_right Nat.two_pos (Nat.sub_le ..)
  have hlo1 := hlo.1
  have hhi2 := hhi.2
  omega

theorem Inv.assert_write (h : Inv cfg s m) (hnext : m.next = idx) :
    cfg.less .wrapping ((s.wrap cfg.toLayout).offset s.writeBlock)
      (cfg.reg .wrapping (1 + word cfg.bits idx)) =
        cfg.less .natural (s.offset s.writeBlock) (cfg.reg .natural (1 + idx)) := by
  have hoff : (s.wrap cfg.toLayout).offset s.writeBlock =
      word cfg.bits (m.write * cfg.blockSize) := by
    rw [← h.mem.offset_write]
    rfl
  rw [hoff, h.mem.offset_write, ← hnext]
  exact less_one h.mem.write_mul h.mem.write_near

theorem Inv.producerStep_wrap (h : Inv cfg s m) (hf : Fits cfg s) :
    (s.wrap cfg.toLayout).producerStep .wrapping cfg =
      (s.producerStep .natural cfg).map (State.wrap cfg.toLayout) := by
  have hk := h.producer
  have hheap : (s.wrap cfg.toLayout).heap = s.heap.wrap cfg.toLayout := rfl
  cases hpc : s.producer
  all_goals
    rw [hpc] at hk
    rw [State.producerStep, State.producerStep, State.producer_wrap, hpc]
  case idle => rfl
  case assertOpen w =>
    cases w with
    | post v => rfl
    | bulk items =>
      by_cases hlen : items.length = 0
      · simp only [ProducerPc.wrap, if_pos hlen]
        rfl
      · simp only [ProducerPc.wrap, if_neg hlen]
        rfl
  case find j idx f =>
    obtain ⟨hj, hok, hload⟩ := hk
    have hnext := hj.next
    have hfind := Find.step_wrap h.mem.ok h.mem.first_le hok
      (by rw [← hnext]; exact h.find_next)
    simp only [ProducerPc.wrap, hheap, hfind]
    cases f with
    | load b =>
      obtain rfl := hload b rfl
      simp only [Find.wrap, h.assert_write hnext]
      generalize Find.step .natural cfg.toLayout idx s.heap _ = x
      obtain ⟨heap, ok, f'⟩ := x
      cases f' with
      | found b => exact congrArg some (State.afterFind_wrap rfl)
      | _ => rfl
    | next t off | cas t off | check t off | found t =>
      simp only [Find.wrap]
      generalize Find.step .natural cfg.toLayout idx s.heap _ = x
      obtain ⟨heap, ok, f'⟩ := x
      cases f' <;> rfl
  case storeWriteBlock j idx b => exact congrArg some (State.afterFind_wrap rfl)
  case bulkAssert items idx =>
    obtain ⟨⟨-, hnext, -⟩, -⟩ := hk
    have hnext : m.next = idx := hnext
    have hwrite : (s.wrap cfg.toLayout).writeBlock = s.writeBlock := rfl
    simp only [ProducerPc.wrap, hwrite, h.assert_write hnext]
    rfl
  case bulkFind items idx f =>
    obtain ⟨⟨-, hnext, -⟩, -, hok⟩ := hk
    have hfind := Find.step_wrap h.mem.ok h.mem.first_le hok
      (by rw [← Nat.add_zero idx, ← hnext]; exact h.find_next)
    simp only [ProducerPc.wrap, hheap, hfind]
    generalize f.step .natural cfg.toLayout idx s.heap = x
    obtain ⟨heap, ok, f'⟩ := x
    cases f' <;> rfl
  case bulkFindEnd items idx b f =>
    obtain ⟨⟨-, hnext, -⟩, hsize, -, hok⟩ := hk
    have hpos := hsize.1
    have hlast : cfg.reg .wrapping (word cfg.bits idx + items.length - 1) =
        word cfg.bits (idx + items.length - 1) := by
      rw [Layout.reg_wrapping, Nat.add_sub_assoc hpos, word_word_add, Nat.add_sub_assoc hpos]
    have hwrite := h.find_write hsize.2
    have hfind := Find.step_wrap h.mem.ok h.mem.first_le hok (by omega)
    simp only [ProducerPc.wrap, hheap, hlast, hfind, Layout.reg_natural]
    generalize f.step .natural cfg.toLayout (idx + items.length - 1) s.heap = x
    obtain ⟨heap, ok, f'⟩ := x
    cases f' <;> rfl
  case bulkStoreWriteBlock items idx b => rfl
  case emplace w idx k b cons =>
    have hreg : cfg.reg .wrapping (word cfg.bits idx + k) = word cfg.bits (idx + k) := word_word_add
    simp only [ProducerPc.wrap, hreg, State.elem_wrap, ← State.wrap_setElem, Layout.reg_natural]
    cases w.items[k]? <;> rfl
  case publish w idx k b cons =>
    obtain ⟨⟨-, hnext, -⟩, hlt, -, hr, -⟩ := hk
    have hcount := h.items_lt hf hnext hlt.le hr
    have hreg : cfg.reg .wrapping (word cfg.bits idx + k) = word cfg.bits (idx + k) := word_word_add
    simp only [ProducerPc.wrap, hreg, State.elem_wrap, ← State.wrap_setFlags, Layout.reg_natural]
    refine ite_wrap .rfl (fun _ => ?_) fun _ => congrArg some (State.afterWrite_wrap rfl hlt hcount)
    cases (s.elem cfg b (idx + k)).flags <;>
      exact congrArg some (State.afterWrite_wrap rfl hlt hcount)
  case nextBlock items idx k b cons =>
    obtain ⟨⟨-, hnext, -⟩, -, hle, -, -, hr, -⟩ := hk
    have hcount := h.items_lt hf hnext hle hr
    obtain ⟨hi, hend⟩ := h.within_items hnext hle hr
    have hless := h.less hf hi hend
    have hreg : ∀ i, cfg.reg .wrapping (word cfg.bits idx + i) = word cfg.bits (idx + i) :=
      fun i => word_word_add
    have heq : word cfg.bits (idx + k) = word cfg.bits (idx + items.length) ↔
        idx + k = idx + items.length := word_inj (by omega) (by omega)
    simp only [ProducerPc.wrap, hreg, hless, hheap, Heap.next_wrap, Layout.reg_natural]
    cases (s.heap.block b).next with
    | some n =>
      exact ite_wrap .rfl (fun _ => rfl) fun _ => congrArg some (State.afterItem_wrap rfl hle hcount)
    | none =>
      have hchecked : ∀ c, (s.wrap cfg.toLayout).check c = (s.check c).wrap cfg.toLayout :=
        fun _ => rfl
      exact ite_wrap heq (fun _ => congrArg some (State.finish_wrap (hchecked _))) fun _ => rfl
  case storeNextBlock items idx k b cons =>
    obtain ⟨⟨-, hnext, -⟩, hlt, -, hr⟩ := hk
    exact congrArg some (State.afterItem_wrap rfl hlt.le (h.items_lt hf hnext hlt.le hr))
  case resumeConsumer frame | closeResume frame =>
    exact congrArg (fun t => some (t.setProducer .idle)) (State.resumeConsumer_wrap rfl)
  case closeCas => exact ite_wrap .rfl (fun _ => rfl) fun _ => rfl
  case storeClosedAt => rfl
  case exchangeClosed idx b =>
    simp only [ProducerPc.wrap, State.elem_wrap, ← State.wrap_setFlags]
    cases (s.elem cfg b idx).flags <;> rfl
  case elemNull frame =>
    have hcons : ((s.wrap cfg.toLayout).setProducer (.closeResume frame)).consumer =
        s.consumer.wrap cfg.toLayout := rfl
    have hcons' : (s.setProducer (.closeResume frame)).consumer = s.consumer := rfl
    simp only [ProducerPc.wrap, hcons, hcons']
    cases s.consumer with
    | suspended i b e => exact ite_wrap .rfl (fun _ => rfl) fun _ => rfl
    | _ => rfl

/-! ## The steps of the consumer -/

theorem State.consumer_wrap : (s.wrap cfg.toLayout).consumer = s.consumer.wrap cfg.toLayout := rfl

theorem Inv.assert_head (h : Inv cfg s m) :
    cfg.less .wrapping ((s.wrap cfg.toLayout).offset s.headBlock)
      (cfg.reg .wrapping (1 + word cfg.bits s.readOffset)) =
        cfg.less .natural (s.offset s.headBlock) (cfg.reg .natural (1 + s.readOffset)) := by
  have hoff : (s.wrap cfg.toLayout).offset s.headBlock =
      word cfg.bits (m.head * cfg.blockSize) := by
    rw [← h.mem.offset_head]
    rfl
  have hmul := (Nat.le_div_iff_mul_le cfg.blockSize_pos).mp h.mem.headAt.le
  rw [hoff, h.mem.offset_head]
  exact less_one hmul h.mem.read_near

theorem Inv.consumerStep_wrap (h : Inv cfg s m) :
    (s.wrap cfg.toLayout).consumerStep .wrapping cfg =
      (s.consumerStep .natural cfg).map (State.wrap cfg.toLayout) := by
  have hk := h.consumer
  have hheap : (s.wrap cfg.toLayout).heap = s.heap.wrap cfg.toLayout := rfl
  have hread : (s.wrap cfg.toLayout).readOffset = word cfg.bits s.readOffset := rfl
  cases hpc : s.consumer
  all_goals
    rw [hpc] at hk
    rw [State.consumerStep, State.consumerStep, State.consumer_wrap, hpc]
  case idle => rfl
  case assertRead k =>
    have hhead : (s.wrap cfg.toLayout).headBlock = s.headBlock := rfl
    simp only [ConsumerPc.wrap, hhead, hread, h.assert_head]
    rfl
  case find k idx f =>
    obtain ⟨-, -, rfl, hok, -⟩ := hk
    have hfind := Find.step_wrap h.mem.ok h.mem.first hok h.find_read
    simp only [ConsumerPc.wrap, hheap, hfind]
    generalize f.step .natural cfg.toLayout s.readOffset s.heap = x
    obtain ⟨heap, ok, f'⟩ := x
    cases f' <;> rfl
  case poll k idx b =>
    simp only [ConsumerPc.wrap, State.elem_wrap]
    cases k <;> cases (s.elem cfg b idx).flags
    case pull.data | tryPull.data => exact congrArg some (State.handOut_wrap rfl)
    all_goals rfl
  case tryWait idx b =>
    have hframe : (s.wrap cfg.toLayout).frame = s.frame := rfl
    simp only [ConsumerPc.wrap, State.elem_wrap, hframe, ← State.wrap_setFlags]
    cases (s.elem cfg b idx).flags
    case data | consumer => exact congrArg some (State.handOut_wrap rfl)
    all_goals rfl
  case storeClosed idx b =>
    simp only [ConsumerPc.wrap, ← State.wrap_setFlags]
    rfl
  case suspended idx b e => rfl
  case resumed idx b e =>
    exact ite_wrap .rfl (fun _ => rfl) fun _ => congrArg some (State.handOut_wrap rfl)
  case holding idx b => rfl
  case reclaim r =>
    have htail : (s.wrap cfg.toLayout).tailBlock = s.tailBlock := rfl
    simp only [ConsumerPc.wrap, hheap, htail, Reclaim.step_wrap]
    generalize r.step .natural cfg.toLayout s.heap s.tailBlock = x
    obtain ⟨heap, tail, ok, r'⟩ := x
    cases r' <;> rfl
  case emptyFind scope f =>
    obtain ⟨-, hok, -⟩ := hk
    have hfind := Find.step_wrap h.mem.ok h.mem.first hok h.find_read
    simp only [ConsumerPc.wrap, hheap, hread, hfind]
    generalize f.step .natural cfg.toLayout s.readOffset s.heap = x
    obtain ⟨heap, ok, f'⟩ := x
    cases f' <;> rfl
  case emptyPoll scope b =>
    simp only [ConsumerPc.wrap, hread, State.elem_wrap]
    cases scope <;> rfl

theorem State.tryReclaimBlocks_wrap {t : State V} (ht : t = s.wrap cfg.toLayout)
    (hless : cfg.less .wrapping (word cfg.bits (s.offset s.headBlock))
      (word cfg.bits (s.offset b)) = cfg.less .natural (s.offset s.headBlock) (s.offset b)) :
    t.tryReclaimBlocks .wrapping cfg b =
      (s.tryReclaimBlocks .natural cfg b).wrap cfg.toLayout := by
  subst ht
  have hoff : ∀ p, (s.wrap cfg.toLayout).offset p = word cfg.bits (s.offset p) := fun p => rfl
  have hhead : (s.wrap cfg.toLayout).headBlock = s.headBlock := rfl
  unfold tryReclaimBlocks
  rw [hoff, hoff, hhead, hless]
  rfl

theorem Inv.release_wrap (h : Inv cfg s m) : (s.wrap cfg.toLayout).release .wrapping cfg =
    (s.release .natural cfg).map (State.wrap cfg.toLayout) := by
  have hk := h.consumer
  rw [State.release, State.release, State.consumer_wrap]
  cases hpc : s.consumer
  case holding idx b =>
    rw [hpc] at hk
    obtain ⟨-, ⟨hidx, hb⟩, -⟩ := hk
    have hnext : cfg.reg .wrapping (word cfg.bits idx + 1) = word cfg.bits (idx + 1) := word_word_add
    have hslot : cfg.slot (word cfg.bits idx) = 0 ↔ cfg.slot idx = 0 := by rw [Layout.slot_word]
    have hoff : s.offset b = idx / cfg.blockSize * cfg.blockSize := by
      rw [State.offset, ← hb.2]
      exact h.mem.ok.offset _ (h.mem.has hidx.ge hb)
    have hless : cfg.less .wrapping (word cfg.bits (s.offset s.headBlock))
        (word cfg.bits (s.offset b)) = cfg.less .natural (s.offset s.headBlock) (s.offset b) := by
      have hdiv := Nat.div_mul_le_self idx cfg.blockSize
      have hnear := h.mem.read_near
      have hblock := cfg.block_lt
      have hheadle := Nat.mul_le_mul_right cfg.blockSize (h.mem.head_le_div hidx.ge)
      rw [Nat.add_mul, Nat.one_mul] at hnear
      rw [h.mem.offset_head, hoff]
      exact Layout.less_wrapping (by omega) (by omega)
    have helem : ∀ (e : Element Flags V) p, (s.setElem cfg b idx e).offset p = s.offset p :=
      fun e p => Heap.offset_setElem
    simp only [ConsumerPc.wrap, State.elem_wrap, hnext, Layout.reg_natural, ← State.wrap_setElem]
    refine congrArg some (ite_wrap hslot (fun _ => ?_) fun _ => rfl)
    refine State.tryReclaimBlocks_wrap rfl ?_
    change cfg.less .wrapping (word cfg.bits ((s.setElem cfg b idx _).offset s.headBlock))
        (word cfg.bits ((s.setElem cfg b idx _).offset b)) =
      cfg.less .natural ((s.setElem cfg b idx _).offset s.headBlock)
        ((s.setElem cfg b idx _).offset b)
    rw [helem, helem]
    exact hless
  all_goals rfl

/-! ## Runs -/

theorem Inv.move_wrap {a : Act V} (h : Inv cfg s m) (hf : Fits cfg s) :
    SpscUnbounded.move .wrapping cfg (s.wrap cfg.toLayout) a =
      (SpscUnbounded.move .natural cfg s a).map (State.wrap cfg.toLayout) := by
  have hcall : ∀ (pc : ProducerPc V) (items : List V) c, (s.wrap cfg.toLayout).call
      (pc.wrap cfg.toLayout) items c = (s.call pc items c).map (State.wrap cfg.toLayout) := by
    intro pc items c
    rw [State.call, State.call, State.producer_wrap]
    cases s.producer
    case idle => exact ite_wrap .rfl (fun _ => rfl) fun _ => rfl
    all_goals rfl
  cases a with
  | post v => exact hcall (.assertOpen (.post v)) _ _
  | bulk items => exact hcall (.assertOpen (.bulk items)) _ _
  | close => exact hcall .closeCas _ _
  | producer => exact h.producerStep_wrap hf
  | consumer => exact h.consumerStep_wrap
  | release => exact h.release_wrap
  | empty =>
    change (s.wrap cfg.toLayout).callEmpty = s.callEmpty.map (State.wrap cfg.toLayout)
    rw [State.callEmpty, State.callEmpty, State.consumer_wrap]
    cases s.consumer <;> rfl
  | pull k =>
    change (s.wrap cfg.toLayout).callPull cfg k = (s.callPull cfg k).map (State.wrap cfg.toLayout)
    unfold State.callPull
    rw [State.consumer_wrap]
    cases s.consumer
    case idle =>
      cases k with
      | pull => exact ite_wrap .rfl (fun _ => rfl) fun _ => rfl
      | tryPull => rfl
    all_goals rfl

theorem Inv.step_wrap {a : Act V} (h : Inv cfg s m) (hf : Fits cfg s) :
    step .wrapping cfg (s.wrap cfg.toLayout) a =
      (step .natural cfg s a).map (State.wrap cfg.toLayout) := by
  unfold SpscUnbounded.step
  rw [h.move_wrap hf]
  cases SpscUnbounded.move .natural cfg s a with
  | none => rfl
  | some t =>
    have hfits : (t.wrap cfg.toLayout).fits cfg = t.fits cfg := rfl
    rw [Option.map_some, Option.filter_some, Option.filter_some, hfits]
    split <;> rfl

/-- The run of a list of moves on registers is the run on natural numbers. -/
theorem Inv.run_wrap (acts : List (Act V)) (h : Inv cfg s m) (hf : Fits cfg s) :
    acts.foldlM (SpscUnbounded.step .wrapping cfg) (s.wrap cfg.toLayout) =
      (acts.foldlM (SpscUnbounded.step .natural cfg) s).map (State.wrap cfg.toLayout) := by
  induction acts generalizing s m with
  | nil => rfl
  | cons a acts ih =>
    rw [List.foldlM_cons, List.foldlM_cons, h.step_wrap hf]
    cases hs : SpscUnbounded.step .natural cfg s a with
    | none => rfl
    | some t =>
      obtain ⟨hmove, hfits⟩ := step_eq_some.mp hs
      obtain ⟨m', hm'⟩ := h.move hmove
      exact ih hm' hfits

theorem State.wrap_init : (State.init : State V).wrap cfg.toLayout = .init := by
  have hzero : word cfg.bits 0 = 0 := Nat.zero_mod _
  have hheap : (State.init : State V).heap.wrap cfg.toLayout = State.init.heap := by
    rw [Heap.wrap]
    simp [State.init, Block.wrap, Block.new, hzero]
  rw [State.wrap, hheap]
  simp [State.init, hzero, ProducerPc.wrap, ConsumerPc.wrap]

/-- A state that is reached on registers is one that is reached on numbers. -/
theorem reachable_wrap (h : (system V .wrapping cfg).Reachable s) :
    ∃ t m, (system V .natural cfg).Reachable t ∧ s = t.wrap cfg.toLayout ∧ Inv cfg t m ∧
      Fits cfg t := by
  refine System.Reach.invariant (I := fun s => ∃ t m, (system V .natural cfg).Reachable t ∧
    s = t.wrap cfg.toLayout ∧ Inv cfg t m ∧ Fits cfg t) (fun s hs => ?_) (fun s a s' hi _ hs => ?_) h
  · cases hs
    exact ⟨.init, _, .init rfl, State.wrap_init.symm, .init, fits_init⟩
  · obtain ⟨t, m, ht, rfl, hm, hf⟩ := hi
    have hs : step .wrapping cfg (t.wrap cfg.toLayout) a = some s' := hs
    rw [hm.step_wrap hf] at hs
    obtain ⟨t', ht', rfl⟩ := Option.map_eq_some_iff.mp hs
    have hr := ht.step ht'
    obtain ⟨m', hm', hf'⟩ := reachable_inv hr
    exact ⟨t', m', hr, rfl, hm', hf'⟩

end CoroUtil.SpscUnbounded
