import CoroUtil.SpscUnbounded.Wrap

/-!
# The queue is a FIFO that recycles its blocks at once

`immediate_fifo` is about every state that a run on registers reaches.  The
values are handed out in the order of the posts, EMPTY and the suspension of the
consumer mean that nothing published is left, and CLOSED that nothing at all is.
A block that is being recycled cannot be reached by the producer, and the slot
that it publishes into is fresh or has the consumer that is suspended on it.
-/

namespace CoroUtil.SpscUnbounded

open CoroUtil.Blocks CoroUtil.General

variable {V : Type} {o : Offsets} {cfg : Config} {s s' : State V} {m : Map} {n b c k idx : Nat}

/-- The blocks that the producer has in hand. -/
def ProducerPc.blocks : ProducerPc V → List Nat
  | find _ _ f | bulkFind _ _ f => [f.block]
  | bulkFindEnd _ _ b f => [b, f.block]
  | storeWriteBlock _ _ b | bulkStoreWriteBlock _ _ b | emplace _ _ _ b _ | publish _ _ _ b _
  | nextBlock _ _ _ b _ | storeNextBlock _ _ _ b _ | exchangeClosed _ b => [b]
  | idle | assertOpen _ | bulkAssert .. | resumeConsumer _ | closeCas | storeClosedAt | elemNull _
  | closeResume _ => []

/-- The blocks from which the producer goes to the slots that it will write. -/
def State.starts (s : State V) : List Nat := s.writeBlock :: s.producer.blocks

/-- The slot that the producer is about to write, and its block. -/
def ProducerPc.writes (o : Offsets) (cfg : Config) : ProducerPc V → Option (Nat × Nat)
  | emplace _ idx k b _ | publish _ idx k b _ => some (cfg.reg o (idx + k), b)
  | exchangeClosed idx b => some (idx, b)
  | _ => none

/-- The blocks that `reclaim_blocks` has collected. -/
def ConsumerPc.recycled : ConsumerPc → List Nat
  | reclaim r => r.un
  | _ => []

/-- The values that have been published. -/
def State.published (s : State V) : List V :=
  s.constructed.take (s.constructed.length - s.producer.built)

/-- `close()` has been called and has returned. -/
def State.isClosed (s : State V) : Prop := s.closed = true ∧ s.producer = .idle

/-- What the queue promises. -/
structure ImmediateFifo (o : Offsets) (cfg : Config) (s : State V) : Prop where
  /-- What is handed out is a prefix of what was posted. -/
  in_order : handed s.pulls <+: s.posts
  posted : s.producer = .idle → s.published = s.posts
  /-- A call returns EMPTY if everything published has been handed out and the
  queue is not closed. -/
  empty : ∀ a s', step o cfg s a = some s' → s'.pulls = s.pulls ++ [.empty] →
    handed s.pulls = s.published ∧ ¬s.isClosed
  /-- The same is true of a suspended consumer that the producer will not resume. -/
  asleep : ∀ i b e, s.consumer = .suspended i b e →
    s.producer.wakes = some s.frame ∨ handed s.pulls = s.published ∧ ¬s.isClosed
  closed : Pull.closed ∈ s.pulls → s.closed = true ∧ handed s.pulls = s.posts
  stays_closed : ∀ l l', s.pulls = l ++ Pull.closed :: l' → ∀ x ∈ l', x = .closed
  /-- A block that is being recycled cannot be reached by the producer. -/
  apart : ∀ b c, b ∈ s.starts → Reclaim.Leads s.heap b c → c ∉ s.consumer.recycled
  block : ∀ n b, s.producer.writes o cfg = some (n, b) → s.offset b = cfg.base n
  /-- The slot that the producer publishes into is fresh, or the consumer is
  suspended on it. -/
  slot : ∀ n b, s.producer.writes o cfg = some (n, b) → (s.elem cfg b n).flags = .null ∨
    (∃ e, s.consumer = .suspended n b e) ∧ (s.elem cfg b n).flags = .consumer s.frame
  unbroken : s.broken = false

/-! ## What the calls return -/

namespace State

@[simp] theorem pulls_setProducer {pc : ProducerPc V} : (s.setProducer pc).pulls = s.pulls := rfl

@[simp] theorem pulls_setConsumer {pc : ConsumerPc} : (s.setConsumer pc).pulls = s.pulls := rfl

@[simp] theorem pulls_check {b : Bool} : (s.check b).pulls = s.pulls := rfl

@[simp] theorem pulls_setFlags {f : Flags} : (s.setFlags cfg b n f).pulls = s.pulls := rfl

@[simp] theorem pulls_resumeConsumer : (s.resumeConsumer n).pulls = s.pulls := by
  unfold resumeConsumer
  split
  · split <;> rfl
  · rfl

@[simp] theorem pulls_afterFind {j : Job V} : (s.afterFind j idx b).pulls = s.pulls := by
  cases j <;> rfl

@[simp] theorem pulls_finish {cons : Option Nat} : (s.finish o cfg idx n cons).pulls = s.pulls := rfl

@[simp] theorem pulls_afterItem {items : List V} {cons : Option Nat} :
    (s.afterItem o cfg items idx k b cons).pulls = s.pulls := by
  rw [afterItem]
  split <;> rfl

@[simp] theorem pulls_afterWrite {w : Put V} {cons : Option Nat} :
    (s.afterWrite o cfg w idx k b cons).pulls = s.pulls := by
  cases w with
  | post v => rfl
  | bulk items =>
    rw [afterWrite]
    split
    · rfl
    · exact pulls_afterItem

@[simp] theorem pulls_afterEmpty {scope : Option (Nat × Nat)} :
    (s.afterEmpty scope).pulls = s.pulls := by
  cases scope <;> rfl

theorem pulls_producerStep (hs : s.producerStep o cfg = some s') : s'.pulls = s.pulls := by
  rw [producerStep] at hs
  cases hpc : s.producer
  all_goals
    rw [hpc] at hs
    dsimp only at hs
    repeat' split at hs
  all_goals
    cases hs
    try simp
  all_goals rfl

theorem pulls_call {pc : ProducerPc V} {items : List V} {d : Bool}
    (hs : s.call pc items d = some s') : s'.pulls = s.pulls := by
  rw [call] at hs
  split at hs
  · split at hs
    · cases hs
      rfl
    · cases hs
  · cases hs

/-- A scope is handed out or an assertion fails. -/
theorem pulls_handOut {g : Bool} : (s.handOut cfg idx b g).pulls = s.pulls ∨
    ∃ v, (s.handOut cfg idx b g).pulls = s.pulls ++ [.ok v] := by
  rw [handOut]
  split
  · exact .inr ⟨_, rfl⟩
  · exact .inl rfl

end State

/-- The step by which a call returns EMPTY. -/
theorem poll_of_empty {a : Act V} (hs : SpscUnbounded.move o cfg s a = some s')
    (he : s'.pulls = s.pulls ++ [.empty]) : ∃ idx b, s.consumer = .poll .tryPull idx b ∧
      (s.elem cfg b idx).flags ≠ .data ∧ (s.elem cfg b idx).flags ≠ .closed := by
  have hself : s'.pulls ≠ s.pulls := fun h => by
    simpa using congrArg List.length (h.symm.trans he)
  have hok : ∀ {t : State V} {i c g}, t.pulls = s.pulls → s' ≠ t.handOut cfg i c g := by
    rintro t i c g ht rfl
    have hout : (t.handOut cfg i c g).pulls = t.pulls ∨
        ∃ v, (t.handOut cfg i c g).pulls = t.pulls ++ [.ok v] := State.pulls_handOut
    rcases hout with hp | ⟨v, hp⟩
    · exact hself (hp.trans ht)
    · simpa [ht] using he.symm.trans hp
  cases a with
  | post v | bulk items | close => exact absurd (State.pulls_call hs) hself
  | producer => exact absurd (State.pulls_producerStep hs) hself
  | pull k =>
    have hs : s.callPull cfg k = some s' := hs
    unfold State.callPull at hs
    repeat' split at hs
    all_goals cases hs
    all_goals exact absurd rfl hself
  | empty =>
    have hs : s.callEmpty = some s' := hs
    rw [State.callEmpty] at hs
    split at hs
    all_goals cases hs
    all_goals exact absurd rfl hself
  | release =>
    have hs : s.release o cfg = some s' := hs
    rw [State.release] at hs
    repeat' split at hs
    all_goals cases hs
    all_goals exact absurd rfl hself
  | consumer =>
    have hs : s.consumerStep o cfg = some s' := hs
    rw [State.consumerStep] at hs
    cases hpc : s.consumer
    all_goals
      rw [hpc] at hs
      dsimp only at hs
    case poll k idx b =>
      cases k <;> cases hf : (s.elem cfg b idx).flags <;> rw [hf] at hs <;> cases hs
      case tryPull.null | tryPull.consumer => exact ⟨idx, b, rfl, by simp [hf], by simp [hf]⟩
      case pull.data | tryPull.data => exact absurd rfl (hok rfl)
      case tryPull.closed => simp [State.returnPull] at he
      all_goals exact absurd rfl hself
    case tryWait idx b =>
      split at hs
      all_goals cases hs
      case h_3 => exact absurd rfl (hok State.pulls_setFlags)
      all_goals exact absurd rfl hself
    case storeClosed idx b =>
      cases hs
      simp [State.returnPull] at he
    case resumed idx b e =>
      split at hs
      all_goals cases hs
      · simp [State.returnPull] at he
      · exact absurd rfl (hok rfl)
    all_goals
      repeat' split at hs
    all_goals
      cases hs
    all_goals exact absurd (by simp) hself

/-! ## On natural numbers -/

theorem Inv.published_eq (h : Inv cfg s m) : s.published = s.constructed.take m.next := by
  rw [State.published, h.recorded.length, Nat.add_sub_cancel]

/-- The queue has handed out what is before `read_offset`. -/
theorem Inv.handed_eq (h : Inv cfg s m) (hscope : s.consumer.scope = none)
    (hread : s.readOffset = m.next) : handed s.pulls = s.published := by
  rw [h.recorded.values, hscope, h.published_eq, hread]
  rfl

theorem Inv.posted (h : Inv cfg s m) (hpc : s.producer = .idle) : s.published = s.posts := by
  have hlen := h.recorded.length
  rw [h.published_eq, ← h.recorded.posts, hpc, ProducerPc.rest, List.append_nil]
  rw [hpc] at hlen
  exact List.take_of_length_le hlen.le

/-- A queue that has its sentinel is closed, and its producer posts no more. -/
theorem Inv.of_sealed (h : Inv cfg s m) (hs : m.sealed = true) :
    s.closed = true ∧ s.producer.rest = [] ∧ s.producer.built = 0 := by
  have hk := h.producer
  have hposts : ∀ {i k}, ¬Posts s m i k := fun hp => by cases hs.symm.trans hp.2.2.2
  cases hpc : s.producer
  all_goals rw [hpc] at hk
  case idle | closeCas => exact ⟨hk.2.symm.trans hs, rfl, rfl⟩
  case elemNull f | closeResume f => exact ⟨hk.2.2.1, rfl, rfl⟩
  case resumeConsumer f => cases hs.symm.trans (hk.2.1.trans hk.2.2)
  case storeClosedAt => cases hs.symm.trans hk.2.2
  case exchangeClosed i b => cases hs.symm.trans hk.1.2.2.2
  case find j i f | storeWriteBlock j i b =>
    cases j with
    | post v => exact absurd hk.1 hposts
    | close => cases hs.symm.trans hk.1.2.2.2
  all_goals exact absurd hk.1 hposts

theorem Inv.sealed_of_closed (h : Inv cfg s m) (hc : s.isClosed) : m.sealed = true := by
  have hk := h.producer
  rw [hc.2] at hk
  exact hk.2.trans hc.1

theorem Inv.in_order (h : Inv cfg s m) : handed s.pulls <+: s.posts := by
  rw [h.recorded.values, ← h.recorded.posts]
  exact (List.take_prefix ..).trans (List.prefix_append ..)

theorem Inv.closed (h : Inv cfg s m) (hc : Pull.closed ∈ s.pulls) :
    s.closed = true ∧ handed s.pulls = s.posts := by
  obtain ⟨hs, hread⟩ := h.recorded.closed hc
  obtain ⟨hcl, hrest, hbuilt⟩ := h.of_sealed hs
  have hlen := h.recorded.length
  refine ⟨hcl, ?_⟩
  rw [h.recorded.values, ← h.recorded.posts, hrest, List.append_nil]
  exact List.take_of_length_le (by omega)

theorem Inv.empty {a : Act V} (h : Inv cfg s m) (hs : SpscUnbounded.move .natural cfg s a = some s')
    (he : s'.pulls = s.pulls ++ [.empty]) : handed s.pulls = s.published ∧ ¬s.isClosed := by
  obtain ⟨idx, b, hpc, hdata, hclosed⟩ := poll_of_empty hs he
  have hk := h.consumer
  rw [hpc] at hk
  obtain ⟨-, hcl, hl, -⟩ := hk
  rcases h.mem.flags_cases hcl hl with ⟨hf, -⟩ | ⟨hf, -⟩ | ⟨-, hopen, hread⟩
  · exact absurd hf hdata
  · exact absurd hf hclosed
  · refine ⟨h.handed_eq (by rw [hpc]; rfl) hread, fun hc => ?_⟩
    cases (h.sealed_of_closed hc).symm.trans hopen

theorem Inv.asleep {e : Bool} (h : Inv cfg s m) (hpc : s.consumer = .suspended idx b e) :
    s.producer.wakes = some s.frame ∨ handed s.pulls = s.published ∧ ¬s.isClosed := by
  have hk := h.consumer
  rw [hpc] at hk
  by_cases hw : idx < m.next ∨ m.sealed = true
  · exact .inl (h.awake.waits idx b e hpc hw)
  · rw [not_or, not_lt] at hw
    have hread := h.mem.read_le
    rw [hk.2.1.1] at hw
    refine .inr ⟨h.handed_eq (by rw [hpc]; rfl) (by omega), fun hc => hw.2 (h.sealed_of_closed hc)⟩

/-- The blocks that the producer goes from are at `head` or behind it. -/
theorem Inv.starts (h : Inv cfg s m) (hb : b ∈ s.starts) :
    ∃ k, m.head ≤ k ∧ m.chain.Has k ∧ m.chain.block k = b := by
  have hk := h.producer
  have hle := h.mem.head_le
  have hwrite : ∀ {b}, (∃ k, m.write ≤ k ∧ k ≤ m.chain.last ∧ m.chain.block k = b) →
      ∃ k, m.head ≤ k ∧ m.chain.Has k ∧ m.chain.block k = b := by
    rintro b ⟨k, hk, hlast, hb⟩
    exact ⟨k, hle.trans hk, ⟨h.mem.first_le.trans hk, hlast⟩, hb⟩
  have hof : ∀ {n b}, m.write ≤ n / cfg.blockSize → m.BlockOf cfg n b →
      ∃ k, m.head ≤ k ∧ m.chain.Has k ∧ m.chain.block k = b := fun hn ho =>
    hwrite ⟨_, hn, ho.1, ho.2⟩
  have hnext : ∀ {n}, m.next ≤ n → m.write ≤ n / cfg.blockSize := h.mem.write_le_div
  rcases List.mem_cons.mp hb with rfl | hb
  · exact hwrite ⟨m.write, le_rfl, h.mem.write_le, h.mem.write⟩
  · cases hpc : s.producer
    all_goals rw [hpc] at hk hb
    case find j i f =>
      rw [List.mem_singleton.mp hb]
      exact hwrite hk.2.1.has_block
    case bulkFind items i f =>
      rw [List.mem_singleton.mp hb]
      exact hwrite hk.2.2.has_block
    case bulkFindEnd items i b' f =>
      obtain ⟨hp, -, ho, hf⟩ := hk
      simp only [ProducerPc.blocks, List.mem_cons, List.not_mem_nil, or_false] at hb
      rcases hb with rfl | rfl
      · exact hof (hnext hp.2.1.le) ho
      · exact hwrite hf.has_block
    case storeWriteBlock j i b' =>
      rw [List.mem_singleton.mp hb]
      exact hof (hnext hk.1.next.le) hk.2
    case bulkStoreWriteBlock items i b' =>
      rw [List.mem_singleton.mp hb]
      exact hof (hnext hk.1.2.1.le) hk.2.2.1
    case emplace w i k b' cons | publish w i k b' cons =>
      rw [List.mem_singleton.mp hb]
      exact hof hk.2.2.2.2.le hk.2.2.1
    case nextBlock items i k b' cons =>
      obtain ⟨-, -, -, -, ho, -, hw⟩ := hk
      rw [List.mem_singleton.mp hb]
      exact hof hw.le ho
    case storeNextBlock items i k b' cons =>
      rw [List.mem_singleton.mp hb]
      exact hof (hnext hk.1.2.1.le) hk.2.2.1
    case exchangeClosed i b' =>
      rw [List.mem_singleton.mp hb]
      exact hof (hnext hk.1.2.1.le) hk.2
    all_goals cases hb

theorem Inv.apart (h : Inv cfg s m) (hb : b ∈ s.starts) (hl : Reclaim.Leads s.heap b c) :
    c ∉ s.consumer.recycled := by
  have hk := h.consumer
  obtain ⟨k, hhead, hhas, hbk⟩ := h.starts hb
  obtain ⟨i, hi, hhas', rfl⟩ := hl.position h.mem.ok hhas hbk
  cases hpc : s.consumer with
  | reclaim r =>
    rw [hpc] at hk
    exact hk.2.out h.mem.ok hhas' (hhead.trans hi)
  | _ => exact List.not_mem_nil

/-- The producer writes the slot of the index that it publishes next. -/
theorem Inv.writes (h : Inv cfg s m) (hw : s.producer.writes .natural cfg = some (n, b)) :
    n = m.next ∧ m.BlockOf cfg n b ∧ m.sealed = false := by
  have hk := h.producer
  cases hpc : s.producer
  all_goals rw [hpc] at hk hw
  case emplace w i k b' cons | publish w i k b' cons =>
    cases hw
    exact ⟨hk.1.2.1.symm, hk.2.2.1, hk.1.2.2.2⟩
  case exchangeClosed i b' =>
    cases hw
    exact ⟨hk.1.2.1.symm, hk.2, hk.1.2.2.2⟩
  all_goals cases hw

theorem Inv.slot (h : Inv cfg s m) (hw : s.producer.writes .natural cfg = some (n, b)) :
    (s.elem cfg b n).flags = .null ∨
      (∃ e, s.consumer = .suspended n b e) ∧ (s.elem cfg b n).flags = .consumer s.frame := by
  obtain ⟨rfl, ho, hs⟩ := h.writes hw
  rcases h.found_cases hs ho with ⟨hf, -⟩ | ⟨⟨c, hc⟩, hf⟩
  · exact .inl hf
  · have hk := h.consumer
    rw [hc] at hk
    obtain rfl : c = b := hk.2.1.2.2.symm.trans ho.2
    exact .inr ⟨⟨_, hc⟩, hf⟩

theorem Inv.immediateFifo (h : Inv cfg s m) : ImmediateFifo .natural cfg s where
  in_order := h.in_order
  posted := h.posted
  empty a s' hs he := h.empty (step_eq_some.mp hs).1 he
  asleep i b e hpc := h.asleep hpc
  closed := h.closed
  stays_closed := h.recorded.last
  apart b c hb hl := h.apart hb hl
  block n b hw := by
    obtain ⟨rfl, ho, -⟩ := h.writes hw
    have hoff := h.mem.ok.offset _ (h.mem.has h.mem.read_le ho)
    rw [ho.2] at hoff
    rw [Layout.base_eq]
    exact hoff
  slot n b hw := h.slot hw
  unbroken := h.sound

/-! ## On registers -/

section

variable {L : Layout} {pc : ProducerPc V} {cpc : ConsumerPc}

theorem ProducerPc.wakes_wrap : (pc.wrap L).wakes = pc.wakes := by
  cases pc <;> rfl

theorem ProducerPc.built_wrap : (pc.wrap L).built = pc.built := by
  cases pc <;> rfl

theorem ProducerPc.wrap_eq_idle : pc.wrap L = idle ↔ pc = idle := by
  cases pc <;> simp [wrap]

theorem ProducerPc.blocks_wrap : (pc.wrap L).blocks = pc.blocks := by
  have hblock : ∀ f : Find, (f.wrap L).block = f.block := by
    intro f
    cases f <;> rfl
  cases pc <;> simp [wrap, blocks, hblock]

theorem ProducerPc.writes_wrap : (pc.wrap cfg.toLayout).writes .wrapping cfg =
    (pc.writes .natural cfg).map fun x => (word cfg.bits x.1, x.2) := by
  cases pc <;> simp [wrap, writes, word_word_add]

theorem ConsumerPc.recycled_wrap : (cpc.wrap L).recycled = cpc.recycled := by
  cases cpc with
  | reclaim r => exact Reclaim.un_wrap
  | _ => rfl

theorem ConsumerPc.wrap_eq_suspended {e : Bool} (h : cpc.wrap L = suspended n b e) :
    ∃ i, cpc = suspended i b e ∧ n = word L.bits i := by
  cases cpc with
  | suspended i c d =>
    cases h
    exact ⟨i, rfl, rfl⟩
  | _ => cases h

end

theorem State.published_wrap : (s.wrap cfg.toLayout).published = s.published := by
  rw [published, published, producer_wrap, ProducerPc.built_wrap]
  rfl

theorem State.isClosed_wrap : (s.wrap cfg.toLayout).isClosed ↔ s.isClosed := by
  rw [isClosed, isClosed, producer_wrap, ProducerPc.wrap_eq_idle]
  rfl

theorem ImmediateFifo.wrap (h : ImmediateFifo .natural cfg s) (hm : Inv cfg s m)
    (hf : Fits cfg s) : ImmediateFifo .wrapping cfg (s.wrap cfg.toLayout) where
  in_order := h.in_order
  posted hpc := by
    rw [State.published_wrap]
    exact h.posted (ProducerPc.wrap_eq_idle.mp hpc)
  empty a s' hs he := by
    rw [hm.step_wrap hf] at hs
    obtain ⟨t, ht, rfl⟩ := Option.map_eq_some_iff.mp hs
    rw [State.published_wrap, State.isClosed_wrap]
    exact h.empty a t ht he
  asleep i b e hpc := by
    obtain ⟨i', hpc', -⟩ := ConsumerPc.wrap_eq_suspended hpc
    rw [State.published_wrap, State.isClosed_wrap, State.producer_wrap, ProducerPc.wakes_wrap]
    exact h.asleep i' b e hpc'
  closed := h.closed
  stays_closed := h.stays_closed
  apart b c hb hl := by
    rw [State.starts, State.producer_wrap, ProducerPc.blocks_wrap] at hb
    rw [State.consumer_wrap, ConsumerPc.recycled_wrap]
    exact h.apart b c hb (Reclaim.leads_wrap.mp hl)
  block n b hw := by
    rw [State.producer_wrap, ProducerPc.writes_wrap] at hw
    obtain ⟨x, hx, heq⟩ := Option.map_eq_some_iff.mp hw
    cases heq
    rw [Layout.base_word, ← h.block x.1 x.2 hx]
    rfl
  slot n b hw := by
    rw [State.producer_wrap, ProducerPc.writes_wrap] at hw
    obtain ⟨x, hx, heq⟩ := Option.map_eq_some_iff.mp hw
    cases heq
    rw [State.elem_wrap]
    rcases h.slot x.1 x.2 hx with hnull | ⟨⟨e, hc⟩, hflags⟩
    · exact .inl hnull
    · refine .inr ⟨⟨e, ?_⟩, hflags⟩
      rw [State.consumer_wrap, hc]
      rfl
  unbroken := h.unbroken

/-- Every state that a run reaches, of any length. -/
theorem immediate_fifo (h : (system V .wrapping cfg).Reachable s) :
    ImmediateFifo .wrapping cfg s := by
  obtain ⟨t, m, -, rfl, hm, hf⟩ := reachable_wrap h
  exact hm.immediateFifo.wrap hm hf

/-- One element a block and 32-bit offsets. -/
def oneSlot : Config := ⟨⟨32, 0, by decide⟩, true, by decide⟩

/-- The consumer waits for the first value of a bulk post and takes both, recycles the
first block, waits until the queue is closed and asks once more. -/
def bulkThenClose : List (Act Nat) := List.flatten
  [.pull .pull :: List.replicate 4 .consumer, .bulk [7, 8] :: List.replicate 16 .producer,
   [.consumer, .release, .consumer, .pull .pull], List.replicate 5 .consumer,
   .release :: List.replicate 10 .consumer, .pull .pull :: List.replicate 6 .consumer,
   .close :: List.replicate 9 .producer, [.consumer, .pull .tryPull],
   List.replicate 5 .consumer]

theorem immediate_fifo_bulkThenClose :
    ∃ s, bulkThenClose.foldlM (step .wrapping oneSlot) .init = some s ∧
      (handed s.pulls = [7, 8] ∧ s.pulls.length = 4) ∧ ImmediateFifo .wrapping oneSlot s := by
  have hrun : (bulkThenClose.foldlM (step .wrapping oneSlot) .init).any
      (fun s => decide (handed s.pulls = [7, 8] ∧ s.pulls.length = 4)) = true := by
    decide +kernel
  obtain ⟨s, hs, hpulls⟩ := (Option.any_eq_true _ _).mp hrun
  exact ⟨s, hs, of_decide_eq_true hpulls,
    immediate_fifo (System.ofStep_reachable bulkThenClose hs)⟩

end CoroUtil.SpscUnbounded
