import CoroUtil.MpscUnbounded.Recycling

/-!
# `write_block_hint` only moves forward

A producer compares the offsets of the hint and of its own block, and replaces
the hint by a compare-exchange of pointers later.  The block that it has compared
is not recycled in between, because its ticket holds the cutoff of every reclaim
back; so the pointer still stands for the offset.  `HintForward` says so of a
state, `only_cas_moves` that nothing else writes the hint.  On registers the
cutoff has to be within the window: in `farTicket` a stalled `post_bulk` has taken
2^31 tickets, a block is recycled early, and a stalled producer moves the hint
back.
-/

namespace CoroUtil.MpscUnbounded

open CoroUtil.Blocks CoroUtil.General

variable {V : Type}

/-- The hint and the block that the move `a` replaces it by, if that is a
compare-exchange that succeeds. -/
def State.casHint (s : State V) : Act V → Option (Nat × Nat)
  | .task p spurious =>
    match s.task p with
    | .hintCas _ _ _ current target =>
      if spurious = false ∧ s.writeBlockHint = current then some (current, target) else none
    | _ => none
  | .consumer spurious =>
    match s.consumer with
    | .startCas b current =>
      if spurious = false ∧ s.writeBlockHint = current then some (current, b) else none
    | _ => none
  | _ => none

/-- The first index of its ticket that a task has not published. -/
def Pc.unpublished : Pc V → Option Nat
  | .loadClosed _ idx | .spinReady _ idx | .loadClosedAt _ idx | .loadHint _ idx
  | .hintOffset _ idx _ | .loadWriteBlock _ idx | .assertWriteBlock _ idx _
  | .assertObserved _ idx _ | .find _ idx _ _ | .findEnd _ idx _ _ _ | .hintCurrent _ idx _ _ _
  | .hintTarget _ idx _ _ _ _ | .hintCas _ idx _ _ _ | .storeClosedAt idx | .storeReady idx
  | .exchangeClosed idx _ => some idx
  | .emplace _ idx k _ | .publish _ idx k _ => some (idx + k)
  | .resumeConsumer w idx k _ _ => if k + 1 < w.count then some (idx + (k + 1)) else none
  | .nextBlock w idx k _ => if k < w.count then some (idx + k) else none
  | .idle | .fetchTicket _ | .closeCas | .closeTicket | .elemNull .. | .closeResume .. => none

/-- Block `b` is at block `c` or after it. -/
def State.atOrAfter (o : Offsets) (cfg : Config) (s : State V) (b c : Nat) : Prop :=
  s.offset b = s.offset c ∨ cfg.less o (s.offset c) (s.offset b) = true

structure HintForward (o : Offsets) (cfg : Config) (s : State V) : Prop where
  /-- A compare-exchange that succeeds puts a later block in the place of the hint. -/
  forward : ∀ a old new, s.casHint a = some (old, new) →
    cfg.less o (s.offset old) (s.offset new) = true
  /-- The hint is not before the new head of a pending reclaim. -/
  pending : ∀ old new, s.pendingReclaim = some (old, new) →
    s.atOrAfter o cfg s.writeBlockHint new
  /-- Nor before the head while the blocks before it are being recycled. -/
  recycling : ∀ b r last, s.consumer = .reclaim b r last →
    s.atOrAfter o cfg s.writeBlockHint s.headBlock
  /-- `write_block` is not past a ticket that is being held. -/
  ticket : ∀ p n, (s.task p).unpublished = some n →
    cfg.less o (s.offset s.writeBlock) (cfg.reg o (1 + n)) = true

variable {cfg : Config} {o : Offsets} {s s' : State V} {m : Map V} {p : Tid} {a : Act V}
  {w : Put V} {j : Job V} {n k b idx old new : Nat}

/-! ## Nothing else writes the hint -/

namespace State

theorem writeBlockHint_afterStart :
    (s.afterStart p j idx b).writeBlockHint = s.writeBlockHint := by
  cases j <;> rfl

theorem writeBlockHint_afterFind {observed : Nat} :
    (s.afterFind p j idx observed b).writeBlockHint = s.writeBlockHint := by
  rcases j with (v | ⟨items, count⟩) | - <;> rfl

theorem writeBlockHint_afterItem :
    (s.afterItem o cfg p w idx k b).writeBlockHint = s.writeBlockHint := by
  rw [afterItem]
  split <;> rfl

theorem writeBlockHint_afterWrite :
    (s.afterWrite o cfg p w idx k b).writeBlockHint = s.writeBlockHint := by
  cases w with
  | post v => rfl
  | bulk items count =>
    rw [afterWrite]
    split
    · rfl
    · exact writeBlockHint_afterItem

theorem writeBlockHint_resumeConsumer {frame : Nat} :
    (s.resumeConsumer frame).writeBlockHint = s.writeBlockHint := by
  rw [resumeConsumer]
  split
  · split <;> rfl
  · rfl

theorem writeBlockHint_handOut : (s.handOut cfg idx b).writeBlockHint = s.writeBlockHint := by
  rw [handOut]
  split <;> rfl

theorem writeBlockHint_finishLast : (s.finishLast o cfg b).writeBlockHint = s.writeBlockHint := by
  rw [finishLast]
  split
  · split <;> rfl
  · rfl

theorem writeBlockHint_startReclaim :
    (s.startReclaim o cfg b).writeBlockHint = s.writeBlockHint := by
  rw [startReclaim]
  split
  · exact writeBlockHint_finishLast
  · rfl

theorem writeBlockHint_tryReclaimBlocks :
    (s.tryReclaimBlocks o cfg b).writeBlockHint = s.writeBlockHint := by
  rw [tryReclaimBlocks]
  split
  · split
    · exact writeBlockHint_startReclaim
    · rfl
  · exact writeBlockHint_startReclaim

theorem writeBlockHint_afterEmpty {scope : Option (Nat × Nat)} :
    (s.afterEmpty scope).writeBlockHint = s.writeBlockHint := by
  cases scope <;> rfl

end State

/-- A step of a task writes the hint by its compare-exchange only. -/
theorem taskStep_hint {spurious : Bool} (hs : s.taskStep o cfg p spurious = some s') :
    s'.writeBlockHint = ((s.casHint (.task p spurious)).map Prod.snd).getD s.writeBlockHint := by
  rw [State.taskStep] at hs
  rw [State.casHint]
  cases hpc : s.task p <;> rw [hpc] at hs <;> dsimp only at hs ⊢
  case idle => cases hs
  case hintCas w idx b current target =>
    split_ifs at hs ⊢ <;> cases hs <;> rfl
  case find j idx observed f =>
    split at hs <;> cases hs
    · exact State.writeBlockHint_afterFind
    · rfl
  case findEnd w idx observed b f => split at hs <;> cases hs <;> rfl
  case loadClosedAt w idx => split at hs <;> cases hs <;> rfl
  case hintOffset j idx b =>
    split at hs <;> cases hs
    · exact State.writeBlockHint_afterStart
    · rfl
  case assertWriteBlock j idx b =>
    cases hs
    exact State.writeBlockHint_afterStart
  case publish w idx k b =>
    split_ifs at hs
    · split at hs <;> cases hs
      · exact State.writeBlockHint_afterWrite
      · rfl
      · exact State.writeBlockHint_afterWrite
    · cases hs
      exact State.writeBlockHint_afterWrite
  case resumeConsumer w idx k b frame =>
    cases hs
    exact State.writeBlockHint_afterWrite.trans State.writeBlockHint_resumeConsumer
  case nextBlock w idx k b =>
    split at hs
    · cases hs
      exact State.writeBlockHint_afterItem
    · split at hs <;> cases hs <;> rfl
  case closeCas => split at hs <;> cases hs <;> rfl
  case exchangeClosed idx b => split at hs <;> cases hs <;> rfl
  case elemNull idx frame =>
    split at hs
    · split at hs <;> cases hs <;> rfl
    · cases hs
      rfl
  case closeResume idx frame =>
    cases hs
    exact State.writeBlockHint_resumeConsumer
  all_goals
    cases hs
    rfl

theorem consumerStep_hint {spurious : Bool} (hs : s.consumerStep o cfg spurious = some s') :
    s'.writeBlockHint = ((s.casHint (.consumer spurious)).map Prod.snd).getD s.writeBlockHint := by
  rw [State.consumerStep] at hs
  rw [State.casHint]
  cases hpc : s.consumer <;> rw [hpc] at hs <;> dsimp only at hs ⊢
  case idle | suspended | holding => cases hs
  case startCas b current =>
    split_ifs at hs ⊢ <;> cases hs <;> rfl
  case find k idx f => split at hs <;> cases hs <;> rfl
  case poll k idx b =>
    split at hs <;> cases hs
    · exact State.writeBlockHint_handOut
    all_goals rfl
  case tryWait idx b =>
    split at hs <;> cases hs
    · rfl
    · rfl
    · exact State.writeBlockHint_handOut
  case resumed idx b e =>
    split at hs <;> cases hs
    · rfl
    · exact State.writeBlockHint_handOut
  case reclaim b r last =>
    split at hs <;> cases hs
    · split
      · rfl
      · exact State.writeBlockHint_startReclaim
    · rfl
  case oldOffset b =>
    split at hs <;> cases hs
    · rfl
    · exact State.writeBlockHint_finishLast
  case loadCutoff b =>
    cases hs
    exact State.writeBlockHint_finishLast
  case emptyFind scope f => split at hs <;> cases hs <;> rfl
  case emptyPoll scope b =>
    cases hs
    exact State.writeBlockHint_afterEmpty
  all_goals
    cases hs
    rfl

/-- The hint is written by a compare-exchange that succeeds and by nothing else. -/
theorem only_cas_moves (hs : step o cfg s a = some s') :
    s'.writeBlockHint = ((s.casHint a).map Prod.snd).getD s.writeBlockHint := by
  cases a with
  | task p spurious => exact taskStep_hint hs
  | consumer spurious => exact consumerStep_hint hs
  | post p v | close p =>
    rw [step] at hs
    split at hs <;> cases hs
    rfl
  | bulk p items count =>
    rw [step] at hs
    split at hs
    · split_ifs at hs <;> cases hs <;> rfl
    · cases hs
  | pull k =>
    simp only [step] at hs
    split at hs
    · cases k with
      | pull =>
        dsimp only at hs
        split_ifs at hs
        cases hs
        rfl
      | tryPull =>
        cases hs
        rfl
    · cases hs
  | empty =>
    rw [step, State.callEmpty] at hs
    split at hs <;> cases hs <;> rfl
  | release =>
    rw [step, State.release] at hs
    split at hs
    · dsimp only at hs
      split_ifs at hs <;> cases hs
      · exact State.writeBlockHint_tryReclaimBlocks
      · rfl
    · cases hs

/-! ## On natural numbers -/

/-- The task with ticket `n` holds the consumer back. -/
theorem Inv.unpublished (h : Inv cfg s m) (hu : (s.task p).unpublished = some n) :
    s.readOffset ≤ n ∧ n < s.writeOffset := by
  have hk := h.task p
  have hput : ∀ {w idx k acc}, m.role p = .put w idx k acc → k < w.count →
      s.readOffset ≤ idx + k ∧ idx + k < s.writeOffset := by
    intro w idx k acc hr hlt
    have hput := h.ledger.put p w idx k acc hr
    have htop : idx + w.count ≤ s.writeOffset := hput.top
    exact ⟨hput.read_le h.ledger hlt, by omega⟩
  have hfirst : ∀ {w idx acc}, m.role p = .put w idx 0 acc →
      s.readOffset ≤ idx ∧ idx < s.writeOffset :=
    fun {w idx acc} hr => hput hr (h.ledger.put p w idx 0 acc hr).pos
  cases hpc : s.task p <;> rw [hpc] at hk hu
  case loadClosed w idx =>
    cases hu
    exact hfirst hk
  case spinReady w idx | loadClosedAt w idx =>
    cases hu
    exact hfirst hk.1
  case loadHint j idx | loadWriteBlock j idx =>
    cases hu
    exact h.idx_lt hk
  case hintOffset j idx b | assertWriteBlock j idx b | find j idx observed f =>
    cases hu
    exact h.idx_lt hk.1
  case assertObserved w idx b | findEnd w idx observed b f | hintCurrent w idx b current target |
      hintTarget w idx b current target offset | hintCas w idx b current target =>
    cases hu
    exact hfirst hk.1.1
  case emplace w idx k b | publish w idx k b =>
    cases hu
    exact hput hk.1.1 hk.2.1
  case resumeConsumer w idx k b frame =>
    rw [Pc.unpublished] at hu
    split_ifs at hu with hlt
    cases hu
    exact hput hk.1.1 hlt
  case nextBlock w idx k b =>
    rw [Pc.unpublished] at hu
    split_ifs at hu with hlt
    cases hu
    exact hput hk.1.1 hlt
  case storeClosedAt idx =>
    cases hu
    exact h.idx_lt (j := .close) hk
  case storeReady idx | exchangeClosed idx b =>
    cases hu
    exact h.idx_lt (j := .close) hk.1
  all_goals cases hu

/-- The offset of the block at a position from the head on. -/
theorem Inv.offset_block (h : Inv cfg s m) (hk : m.head ≤ k) (hlast : k ≤ m.chain.last)
    (hb : m.chain.block k = b) : s.offset b = k * cfg.blockSize := by
  have hoff := h.mem.ok.offset k ⟨h.mem.first.trans hk, hlast⟩
  rw [hb] at hoff
  exact hoff

/-- The block that the hint points to is at its position of the chain. -/
theorem Inv.hint_eq (h : Inv cfg s m) (hk : m.head ≤ k) (hlast : k ≤ m.chain.last)
    (hb : m.chain.block k = s.writeBlockHint) : k = m.hint :=
  h.mem.ok.inj k m.hint ⟨h.mem.first.trans hk, hlast⟩
    ⟨h.mem.first.trans h.mem.head_hint, h.mem.hint_le⟩ (hb.trans h.mem.hint.symm)

/-- A compare-exchange that succeeds moves the hint from its position to a later one
that is in use. -/
theorem Inv.casHint (h : Inv cfg s m) (hc : s.casHint a = some (old, new)) :
    old = s.writeBlockHint ∧
      ∃ k, m.hint < k ∧ k ≤ m.chain.last ∧ m.chain.block k = new ∧
        k * cfg.blockSize < s.writeOffset := by
  cases a with
  | task p spurious =>
    -- a producer: its ticket is past every block that has been recycled
    have hk := h.task p
    rw [State.casHint] at hc
    split at hc
    · next w idx b current target hpc =>
      rw [hpc] at hk
      obtain ⟨⟨hr, hst⟩, -, ht, k, hsees, hlt⟩ := hk
      split_ifs at hc with hif
      cases hc
      obtain ⟨-, rfl⟩ := hif
      have hput := h.ledger.put p w idx 0 true hr
      have hpos := hput.pos
      have htop : idx + w.count ≤ s.writeOffset := hput.top
      obtain rfl := h.hint_eq ((h.mem.head_le_floor idx).trans hsees.1) hsees.2.1 hsees.2.2
      have hmul := Nat.div_mul_le_self (idx + w.count - 1) cfg.blockSize
      exact ⟨rfl, _, hlt, ht.1, ht.2, by omega⟩
    · cases hc
  | consumer spurious =>
    -- the consumer: it has released the first value of its block
    have hk := h.consumer
    rw [State.casHint] at hc
    split at hc
    · next b current hpc =>
      rw [hpc] at hk
      obtain ⟨hstart, k, hsees, hlt⟩ := hk
      split_ifs at hc with hif
      cases hc
      obtain ⟨-, rfl⟩ := hif
      obtain rfl := h.hint_eq hsees.1 hsees.2.1 hsees.2.2
      have hread : s.readOffset ≤ s.writeOffset := h.ledger.read_le
      have hent := hstart.entered.2
      rw [hstart.write] at hlt
      exact ⟨rfl, _, hlt, h.mem.read_le, hstart.entered.1, by omega⟩
    · cases hc
  | _ => cases hc

theorem Inv.within_hint (h : Inv cfg s m) : s.offset s.writeBlockHint = m.hint * cfg.blockSize ∧
    Within cfg s m (m.hint * cfg.blockSize) :=
  ⟨h.offset_block h.mem.head_hint h.mem.hint_le h.mem.hint,
    h.mem.hint_lt.within h.mem.head_hint⟩

theorem Inv.within_write (h : Inv cfg s m) : s.offset s.writeBlock = m.write * cfg.blockSize ∧
    Within cfg s m (m.write * cfg.blockSize) := by
  have hread : s.readOffset ≤ s.writeOffset := h.ledger.read_le
  refine ⟨h.offset_block h.mem.head_le (h.mem.write_le.trans h.mem.read_le) h.mem.write,
    Nat.mul_le_mul_right _ h.mem.head_le, ?_⟩
  rcases h.mem.write_lt with h0 | hlt
  · rw [h0, Nat.zero_mul]
    exact Nat.zero_le _
  · omega

/-! ## On registers -/

theorem State.casHint_wrap : (s.wrap cfg.toLayout).casHint a = s.casHint a := by
  cases a with
  | task p spurious =>
    rw [State.casHint, State.casHint, State.task_wrap]
    cases s.task p <;> rfl
  | consumer spurious =>
    rw [State.casHint, State.casHint, State.consumer_wrap]
    cases s.consumer <;> rfl
  | _ => rfl

/-- A register comparison of the offsets of two positions. -/
theorem Near.less_mul (hn : Near cfg s m) {i : Nat} (hi : Within cfg s m (i * cfg.blockSize))
    (hk : Within cfg s m (k * cfg.blockSize)) (hlt : i < k) :
    cfg.less .wrapping (word cfg.bits (i * cfg.blockSize)) (word cfg.bits (k * cfg.blockSize)) =
      true := by
  rw [hn.less hi hk, Layout.less_natural, decide_eq_true_iff]
  exact Nat.mul_lt_mul_of_pos_right hlt cfg.blockSize_pos

/-- The hint is at or after a position that is not after its own. -/
theorem Inv.hint_atOrAfter (h : Inv cfg s m) (hn : Near cfg s m) (hk : m.head ≤ k)
    (hle : k ≤ m.hint) (hb : m.chain.block k = b) :
    (s.wrap cfg.toLayout).atOrAfter .wrapping cfg s.writeBlockHint b := by
  rw [State.atOrAfter, State.offset_wrap, State.offset_wrap, h.within_hint.1,
    h.offset_block hk (hle.trans h.mem.hint_le) hb]
  rcases hle.eq_or_lt with rfl | hlt
  · exact .inl rfl
  · have hw : Within cfg s m (k * cfg.blockSize) :=
      ⟨Nat.mul_le_mul_right _ hk, (Nat.mul_le_mul_right _ hle).trans h.within_hint.2.2⟩
    exact .inr (hn.less_mul hw h.within_hint.2 hlt)

theorem unpublished_wrap {pc : Pc V} (hu : (pc.wrap cfg.toLayout).unpublished = some n) :
    ∃ i, pc.unpublished = some i ∧ word cfg.bits n = word cfg.bits i := by
  cases pc
  case emplace w idx k b | publish w idx k b =>
    cases hu
    exact ⟨_, rfl, word_word_add⟩
  case resumeConsumer w idx k b frame =>
    simp only [Pc.wrap, Pc.unpublished] at hu ⊢
    split_ifs at hu ⊢
    cases hu
    exact ⟨_, rfl, word_word_add⟩
  case nextBlock w idx k b =>
    simp only [Pc.wrap, Pc.unpublished] at hu ⊢
    split_ifs at hu ⊢
    cases hu
    exact ⟨_, rfl, word_word_add⟩
  all_goals
    cases hu
    try exact ⟨_, rfl, word_word⟩

theorem Inv.hintForward (h : Inv cfg s m) (hn : Near cfg s m) :
    HintForward .wrapping cfg (s.wrap cfg.toLayout) where
  forward a old new hc := by
    rw [State.casHint_wrap] at hc
    obtain ⟨rfl, k, hlt, hlast, rfl, hin⟩ := h.casHint hc
    have hk := h.mem.head_hint.trans hlt.le
    rw [State.offset_wrap, State.offset_wrap, h.within_hint.1, h.offset_block hk hlast rfl]
    exact hn.less_mul h.within_hint.2 ⟨Nat.mul_le_mul_right _ hk, hin.le⟩ hlt
  pending old new hp := by
    obtain ⟨-, rfl, hle, -⟩ := h.mem.pending old new hp
    exact h.hint_atOrAfter hn h.mem.head_le hle h.mem.write
  recycling b r last _ := h.hint_atOrAfter hn le_rfl h.mem.head_hint h.mem.head
  ticket p n hu := by
    rw [State.task_wrap] at hu
    obtain ⟨i, hi, heq⟩ := unpublished_wrap hu
    obtain ⟨hread, hwrite⟩ := h.unpublished hi
    have hlt : m.write * cfg.blockSize < 1 + i := by
      rcases h.mem.write_lt with h0 | hlt
      · rw [h0, Nat.zero_mul]
        omega
      · omega
    have hone : cfg.reg .wrapping (1 + n) = word cfg.bits (1 + i) := by
      rw [Layout.reg_wrapping, ← word_add_word, heq, word_add_word]
    rw [hone]
    change cfg.less .wrapping (word cfg.bits (s.offset s.writeBlock)) _ = true
    rw [h.within_write.1, hn.less h.within_write.2 (h.mem.within (by omega) (by omega)),
      Layout.less_natural, decide_eq_true_iff]
    exact hlt

/-- **The hint.**  In a run inside the window `write_block_hint` only moves forward:
a compare-exchange that succeeds puts a later block there, and nothing else writes it. -/
theorem hint_moves_forward (acts : List (Act V)) (hrun : ∀ k (s : State V),
      (acts.take k).foldlM (step .natural cfg) .init = some s → Window cfg s) {t : State V}
    (ht : acts.foldlM (step .wrapping cfg) .init = some t) :
    HintForward .wrapping cfg t ∧ ∀ a t', step .wrapping cfg t a = some t' →
      t'.writeBlockHint = ((t.casHint a).map Prod.snd).getD t.writeBlockHint := by
  refine ⟨?_, fun a t' hs => only_cas_moves hs⟩
  have hwrap := run_wrap (fun s m h (hw : Window cfg s) => hw.near h) acts .init hrun
  rw [State.wrap_init, ht] at hwrap
  obtain ⟨s, hs, rfl⟩ := Option.map_eq_some_iff.mp hwrap.symm
  obtain ⟨m, h⟩ := reachable_inv (System.ofStep_reachable acts hs)
  have hw : Window cfg s := hrun acts.length s (by rw [List.take_length]; exact hs)
  exact h.hintForward (hw.near h)

theorem hint_moves_forward_wrapThenClose :
    (∃ t, wrapAround.foldlM (step .wrapping fourBits) .init = some t ∧
      t.casHint (.task 2 false) = some (2, 0) ∧ t.consumer.recycled = [1] ∧
      (t.task 1).unpublished = some 1 ∧ HintForward .wrapping fourBits t) ∧
    ∃ t, wrapThenClose.foldlM (step .wrapping fourBits) .init = some t ∧
      t.pendingReclaim = some (2, 0) ∧ (t.task 3).unpublished = some 4 ∧
      HintForward .wrapping fourBits t := by
  constructor
  · have hrun : (wrapAround.foldlM (step .wrapping fourBits) .init).any (fun t =>
        t.casHint (.task 2 false) = some (2, 0) && t.consumer.recycled = [1] &&
          (t.task 1).unpublished = some 1) = true := by
      decide +kernel
    obtain ⟨t, ht, hand⟩ := (Option.any_eq_true _ _).mp hrun
    simp only [Bool.and_eq_true, decide_eq_true_iff] at hand
    exact ⟨t, ht, hand.1.1, hand.1.2, hand.2,
      (hint_moves_forward wrapAround window_of_wrapAround ht).1⟩
  · have hrun : (wrapThenClose.foldlM (step .wrapping fourBits) .init).any (fun t =>
        t.pendingReclaim = some (2, 0) && (t.task 3).unpublished = some 4) = true := by
      decide +kernel
    obtain ⟨t, ht, hand⟩ := (Option.any_eq_true _ _).mp hrun
    simp only [Bool.and_eq_true, decide_eq_true_iff] at hand
    exact ⟨t, ht, hand.1, hand.2,
      (hint_moves_forward wrapThenClose window_of_wrapThenClose ht).1⟩

/-- Task 2 has ticket 3 and is about to replace the hint, the first block, by the
second.  The hint goes on to the third block, and task 3 has ticket 6.  Task 4 takes
the tickets of 2^31 items and stops.  The consumer comes to the second block and
recycles the first, which gets the offset of ticket 6; task 3 puts it into the hint. -/
def farTicket : List (Act Nat) := List.flatten
  [[.bulk 0 id 2], taskSteps 0 14, [.post 1 2, .task 1 false, .post 2 3, .task 2 false],
   taskSteps 2 10, taskSteps 1 12, [.bulk 0 id 2], taskSteps 0 18, [.post 3 6, .task 3 false],
   [.bulk 4 id (2 ^ 31), .task 4 false],
   [.pull .tryPull], consumerSteps 3, [.release], consumerSteps 2,
   [.pull .tryPull], consumerSteps 3, [.release],
   [.pull .tryPull], consumerSteps 5, [.release], consumerSteps 19, taskSteps 3 10]

/-- Task 2 replaces the first block, whose offset is 6, by the second, whose offset
is 2. -/
def State.movesBack (s : State Nat) : Bool :=
  decide (s.casHint (.task 2 false) = some (0, 1)) && decide (s.offset 0 = 6) &&
    decide (s.offset 1 = 2)

theorem farTicket_movesBack : ∃ t, (system Nat .wrapping thirtyTwoBits).Reachable t ∧
    t.casHint (.task 2 false) = some (0, 1) ∧ t.offset 0 = 6 ∧ t.offset 1 = 2 ∧
    ¬HintForward .wrapping thirtyTwoBits t := by
  have hrun : (farTicket.foldlM (step .wrapping thirtyTwoBits) .init).any State.movesBack =
      true := by
    decide +kernel
  obtain ⟨t, ht, hm⟩ := (Option.any_eq_true _ _).mp hrun
  simp only [State.movesBack, Bool.and_eq_true, decide_eq_true_iff] at hm
  obtain ⟨⟨hc, h0⟩, h1⟩ := hm
  refine ⟨t, System.ofStep_reachable farTicket ht, hc, h0, h1, fun h => ?_⟩
  have hless := h.forward _ _ _ hc
  rw [h0, h1] at hless
  exact absurd hless (by decide)

end CoroUtil.MpscUnbounded
