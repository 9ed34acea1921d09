import CoroUtil.MpscUnbounded.Tickets

/-!
# Recycled blocks are out of reach

There are no hazard pointers: a block is recycled when the consumer has come to
the cutoff, by which time every ticket that is still held was taken after
`write_block` and the hint had moved past the block.  `OutOfReach` says so of a
state.  The cutoff is compared with `circular_less_than`; calls that a closed
queue rejects take tickets too, and one `post_bulk` can put the cutoff half the
range of a register ahead of the consumer: `farCutoff_reaches`.
-/

namespace CoroUtil.MpscUnbounded

open CoroUtil.Blocks CoroUtil.General

variable {V : Type}

/-- The blocks from which a task goes to the slots that it has not published. -/
def State.starts (s : State V) : Pc V → List Nat
  | .loadHint _ _ => [s.writeBlockHint, s.writeBlock]
  | .hintOffset _ _ b => [b, s.writeBlock]
  | .loadWriteBlock _ _ => [s.writeBlock]
  | .assertWriteBlock _ _ b | .assertObserved _ _ b => [b]
  | .find _ _ observed f => [observed, f.block]
  | .findEnd _ _ observed b f => [observed, b, f.block]
  | .hintCurrent _ _ b current target | .hintTarget _ _ b current target _
  | .hintCas _ _ b current target => [b, current, target]
  | .emplace _ _ _ b | .publish _ _ _ b | .exchangeClosed _ b => [b]
  | .resumeConsumer w _ k b _ => if k + 1 < w.count then [b] else []
  | .nextBlock w _ k b => if k < w.count then [b] else []
  | .idle | .fetchTicket _ | .loadClosed .. | .spinReady .. | .loadClosedAt .. | .closeCas
  | .closeTicket | .storeClosedAt _ | .storeReady _ | .elemNull .. | .closeResume .. => []

/-- The slot that a task is about to write, and its block. -/
def Pc.writes : Pc V → Option (Nat × Nat)
  | .emplace _ idx k b | .publish _ idx k b => some (idx + k, b)
  | .exchangeClosed idx b => some (idx, b)
  | _ => none

/-- The blocks that `reclaim_blocks` has collected. -/
def ConsumerPc.recycled : ConsumerPc → List Nat
  | .reclaim _ r _ => r.un
  | _ => []

structure OutOfReach (o : Offsets) (cfg : Config) (s : State V) : Prop where
  /-- A block that is being recycled cannot be reached by a task that has a slot to publish. -/
  apart : ∀ p b c, b ∈ s.starts (s.task p) → Reclaim.Leads s.heap b c → c ∉ s.consumer.recycled
  /-- Index `n` is written into the block whose offset is `n` rounded down. -/
  block : ∀ p n b, (s.task p).writes = some (n, b) → s.offset b = cfg.base (cfg.reg o n)

variable {cfg : Config} {s s' : State V} {m : Map V} {p : Tid} {w : Put V} {n idx k b c lo : Nat}

/-! ## On natural numbers -/

/-- What is being recycled is not in the chain from the head on. -/
theorem Inv.recycled (h : Inv cfg s m) (hk : m.chain.Has k) (hhead : m.head ≤ k) :
    m.chain.block k ∉ s.consumer.recycled := by
  have hkn := h.consumer
  cases hpc : s.consumer with
  | reclaim b r last =>
    rw [hpc] at hkn
    exact hkn.2.1.out h.mem.ok hk hhead
  | _ => exact List.not_mem_nil

/-- A pointer that a task goes from is at the head of the chain or past it. -/
theorem Inv.starts (h : Inv cfg s m) (hb : b ∈ s.starts (s.task p)) :
    ∃ k, m.head ≤ k ∧ m.chain.Has k ∧ m.chain.block k = b := by
  have hk := h.task p
  have hfirst := h.mem.first
  have hlast := h.mem.write_le.trans h.mem.read_le
  have hhint : ∃ k, m.head ≤ k ∧ m.chain.Has k ∧ m.chain.block k = s.writeBlockHint :=
    ⟨m.hint, h.mem.head_hint, ⟨hfirst.trans h.mem.head_hint, h.mem.hint_le⟩, h.mem.hint⟩
  have hwrite : ∃ k, m.head ≤ k ∧ m.chain.Has k ∧ m.chain.block k = s.writeBlock :=
    ⟨m.write, h.mem.head_le, ⟨hfirst.trans h.mem.head_le, hlast⟩, h.mem.write⟩
  have hsees : ∀ {n k b}, m.Sees (m.floor s n) k b →
      ∃ k, m.head ≤ k ∧ m.chain.Has k ∧ m.chain.block k = b := fun {n k b} hs => by
    have hle := (h.mem.head_le_floor n).trans hs.1
    exact ⟨k, hle, ⟨hfirst.trans hle, hs.2.1⟩, hs.2.2⟩
  have hat : ∀ {n i k b}, Find.At cfg.toLayout m.chain (m.floor s n) i k b →
      ∃ k, m.head ≤ k ∧ m.chain.Has k ∧ m.chain.block k = b :=
    fun ha => hsees ⟨ha.lo, ha.last, ha.block⟩
  have hof : ∀ {n b}, s.readOffset ≤ n → m.BlockOf cfg n b →
      ∃ k, m.head ≤ k ∧ m.chain.Has k ∧ m.chain.block k = b := fun {n b} hn ho =>
    ⟨_, h.mem.head_le_div hn, h.mem.has hn ho, ho.2⟩
  have hfind : ∀ {f : Find} {n i}, f.Ok cfg.toLayout m.chain (m.floor s n) i →
      ∃ k, m.head ≤ k ∧ m.chain.Has k ∧ m.chain.block k = f.block := fun hf => by
    obtain ⟨k, hs⟩ := hf.has_block
    exact hsees hs
  have hblank : ∀ {n}, m.stage n = .blank → s.readOffset ≤ n := h.ledger.read_le_blank
  have htop : ∀ {w idx k}, m.role p = .put w idx k true → m.stage idx = .blank → ∀ {t},
      m.BlockOf cfg (idx + w.count - 1) t →
        ∃ k, m.head ≤ k ∧ m.chain.Has k ∧ m.chain.block k = t := fun {w idx k} hr hs t ho => by
    have hpos := (h.ledger.put p w idx k true hr).pos
    have hle := hblank hs
    exact hof (by omega) ho
  cases hpc : s.task p
  all_goals rw [hpc] at hk hb
  case loadHint j idx =>
    simp only [State.starts, List.mem_cons, List.not_mem_nil, or_false] at hb
    rcases hb with rfl | rfl
    · exact hhint
    · exact hwrite
  case hintOffset j idx b' =>
    obtain ⟨-, k, hs, -⟩ := hk
    simp only [State.starts, List.mem_cons, List.not_mem_nil, or_false] at hb
    rcases hb with rfl | rfl
    · exact hsees hs
    · exact hwrite
  case loadWriteBlock j idx =>
    rw [List.mem_singleton.mp hb]
    exact hwrite
  case assertWriteBlock j idx b' | assertObserved w idx b' =>
    obtain ⟨-, k, ha⟩ := hk
    rw [List.mem_singleton.mp hb]
    exact hat ha
  case find j idx observed f =>
    obtain ⟨-, ⟨k, ha⟩, hf⟩ := hk
    simp only [State.starts, List.mem_cons, List.not_mem_nil, or_false] at hb
    rcases hb with rfl | rfl
    · exact hat ha
    · exact hfind hf
  case findEnd w idx observed b' f =>
    obtain ⟨hh, ⟨k, ha⟩, ho, hf⟩ := hk
    simp only [State.starts, List.mem_cons, List.not_mem_nil, or_false] at hb
    rcases hb with rfl | rfl | rfl
    · exact hat ha
    · exact hof (hblank hh.2) ho
    · exact hfind hf
  case hintCurrent w idx b' current target =>
    obtain ⟨hh, ho, ht, k, hs, -⟩ := hk
    simp only [State.starts, List.mem_cons, List.not_mem_nil, or_false] at hb
    rcases hb with rfl | rfl | rfl
    · exact hof (hblank hh.2) ho
    · exact hsees hs
    · exact htop hh.1 hh.2 ht
  case hintTarget w idx b' current target offset =>
    obtain ⟨hh, ho, ht, k, hs, -⟩ := hk
    simp only [State.starts, List.mem_cons, List.not_mem_nil, or_false] at hb
    rcases hb with rfl | rfl | rfl
    · exact hof (hblank hh.2) ho
    · exact hsees hs
    · exact htop hh.1 hh.2 ht
  case hintCas w idx b' current target =>
    obtain ⟨hh, ho, ht, k, hs, -⟩ := hk
    simp only [State.starts, List.mem_cons, List.not_mem_nil, or_false] at hb
    rcases hb with rfl | rfl | rfl
    · exact hof (hblank hh.2) ho
    · exact hsees hs
    · exact htop hh.1 hh.2 ht
  case emplace w idx k b' =>
    obtain ⟨hh, -, ho, -⟩ := hk
    rw [List.mem_singleton.mp hb]
    exact hof (hblank hh.2) ho
  case publish w idx k b' =>
    obtain ⟨hh, -, ho, -⟩ := hk
    rw [List.mem_singleton.mp hb]
    exact hof (h.ledger.read_le_of fun v hv => by cases hh.2.symm.trans hv) ho
  case resumeConsumer w idx k b' frame =>
    obtain ⟨-, -, ho, -, ⟨b₂, hw⟩, -⟩ := hk
    have hread := h.consumer
    rw [hw] at hread
    have hle : s.readOffset ≤ idx + k := hread.2.1.1.ge
    simp only [State.starts] at hb
    split at hb
    · rw [List.mem_singleton.mp hb]
      exact hof hle ho
    · cases hb
  case nextBlock w idx k b' =>
    obtain ⟨hh, hpos, hslot, ho, -⟩ := hk
    simp only [State.starts] at hb
    split at hb
    · next hlt =>
      -- the consumer is not past the next item, which is the first of its block
      have hle := hblank (hh.2 hlt)
      have hB := cfg.blockSize_pos
      have hdvd : (idx + k) / cfg.blockSize * cfg.blockSize = idx + k :=
        Nat.div_mul_cancel (Nat.dvd_of_mod_eq_zero hslot)
      have hprev : (idx + k - 1) / cfg.blockSize + 1 = (idx + k) / cfg.blockSize := by
        have h1 : (idx + k - 1) / cfg.blockSize < (idx + k) / cfg.blockSize :=
          Nat.div_lt_of_lt_mul (by rw [Nat.mul_comm, hdvd]; omega)
        have h2 : (idx + k) / cfg.blockSize ≤ (idx + k - 1) / cfg.blockSize + 1 := by
          rw [← Nat.add_div_right _ hB]
          exact Nat.div_le_div_right (by omega)
        omega
      have hhead : m.head ≤ (idx + k - 1) / cfg.blockSize := by
        rcases h.mem.write_lt with h0 | hwlt
        · exact h.mem.head_le.trans (h0.trans_le (Nat.zero_le _))
        · refine h.mem.head_le.trans (Nat.le_of_lt_succ ?_)
          rw [Nat.succ_eq_add_one, hprev]
          exact Nat.lt_of_mul_lt_mul_right (a := cfg.blockSize) (by rw [hdvd]; omega)
      rw [List.mem_singleton.mp hb]
      exact ⟨_, hhead, ⟨hfirst.trans hhead, ho.1⟩, ho.2⟩
    · cases hb
  case exchangeClosed idx b' =>
    obtain ⟨hh, ho⟩ := hk
    rw [List.mem_singleton.mp hb]
    exact hof (hblank hh.2) ho
  all_goals cases hb

theorem Inv.writes (h : Inv cfg s m) (hw : (s.task p).writes = some (n, b)) :
    s.offset b = cfg.base n := by
  have hk := h.task p
  have hof : ∀ {n b}, s.readOffset ≤ n → m.BlockOf cfg n b → s.offset b = cfg.base n :=
    fun {n b} hn ho => by
      have hoff := h.mem.ok.offset _ (h.mem.has hn ho)
      rw [ho.2] at hoff
      rw [Layout.base_eq]
      exact hoff
  cases hpc : s.task p
  all_goals rw [hpc] at hk hw
  case emplace w idx k b' =>
    cases hw
    exact hof (h.ledger.read_le_blank hk.1.2) hk.2.2.1
  case publish w idx k b' =>
    cases hw
    obtain ⟨hh, -, ho, -⟩ := hk
    exact hof (h.ledger.read_le_of fun v hv => by cases hh.2.symm.trans hv) ho
  case exchangeClosed idx b' =>
    cases hw
    exact hof (h.ledger.read_le_blank hk.1.2) hk.2
  all_goals cases hw

theorem Inv.outOfReach (h : Inv cfg s m) : OutOfReach .natural cfg s where
  apart p b c hb hl := by
    obtain ⟨k, hhead, hk, hbk⟩ := h.starts hb
    obtain ⟨i, hi, hhas, rfl⟩ := hl.position h.mem.ok hk hbk
    exact h.recycled hhas (hhead.trans hi)
  block p n b hw := h.writes hw

/-! ## On registers -/

theorem State.offset_wrap : (s.wrap cfg.toLayout).offset b = word cfg.bits (s.offset b) := rfl

theorem State.starts_wrap {pc : Pc V} :
    (s.wrap cfg.toLayout).starts (pc.wrap cfg.toLayout) = s.starts pc := by
  cases pc with
  | find j idx observed f | findEnd w idx observed b f =>
    rw [Pc.wrap, starts, Find.block_wrap]
    rfl
  | _ => rfl

theorem ConsumerPc.recycled_wrap {cpc : ConsumerPc} :
    (cpc.wrap cfg.toLayout).recycled = cpc.recycled := by
  cases cpc with
  | reclaim b r last => exact Reclaim.un_wrap
  | _ => rfl

theorem OutOfReach.wrap (h : OutOfReach .natural cfg s) :
    OutOfReach .wrapping cfg (s.wrap cfg.toLayout) where
  apart p b c hb hl := by
    rw [State.task_wrap, State.starts_wrap] at hb
    rw [State.consumer_wrap, ConsumerPc.recycled_wrap]
    exact h.apart p b c hb (Reclaim.leads_wrap.mp hl)
  block p n b hw := by
    have hoff : ∀ {n}, (s.task p).writes = some (n, b) →
        (s.wrap cfg.toLayout).offset b = cfg.base (word cfg.bits n) := fun {n} hn => by
      rw [State.offset_wrap, h.block p n b hn, Layout.reg_natural, Layout.base_word]
    rw [State.task_wrap] at hw
    cases hpc : s.task p <;> rw [hpc] at hw hoff <;> cases hw
    case emplace w idx k => exact (hoff rfl).trans (congrArg cfg.base word_word_add.symm)
    case publish w idx k => exact (hoff rfl).trans (congrArg cfg.base word_word_add.symm)
    case exchangeClosed idx => exact (hoff rfl).trans (congrArg cfg.base word_word.symm)

/-- **Recycling.**  In a run inside the window no block is recycled that a task with a
slot to publish can reach. -/
theorem recycled_out_of_reach (acts : List (Act V)) (hrun : ∀ k (s : State V),
      (acts.take k).foldlM (step .natural cfg) .init = some s → Window cfg s) {t : State V}
    (ht : acts.foldlM (step .wrapping cfg) .init = some t) : OutOfReach .wrapping cfg t := by
  have hwrap := run_wrap (fun s m h (hw : Window cfg s) => hw.near h) acts .init hrun
  rw [State.wrap_init, ht] at hwrap
  obtain ⟨s, hs, rfl⟩ := Option.map_eq_some_iff.mp hwrap.symm
  obtain ⟨m, h⟩ := reachable_inv (System.ofStep_reachable acts hs)
  exact h.outOfReach.wrap

theorem recycled_out_of_reach_wrapAround :
    ∃ t, wrapAround.foldlM (step .wrapping fourBits) .init = some t ∧ t.writeOffset = 4 ∧
      t.consumer.recycled = [1] ∧ t.starts (t.task 1) = [2, 2] ∧ t.starts (t.task 2) = [0, 2, 0] ∧
      OutOfReach .wrapping fourBits t := by
  have hrun : (wrapAround.foldlM (step .wrapping fourBits) .init).any (fun t =>
      t.writeOffset = 4 && t.consumer.recycled = [1] && t.starts (t.task 1) = [2, 2] &&
        t.starts (t.task 2) = [0, 2, 0]) = true := by
    decide +kernel
  obtain ⟨t, ht, hand⟩ := (Option.any_eq_true _ _).mp hrun
  simp only [Bool.and_eq_true, decide_eq_true_iff] at hand
  obtain ⟨⟨⟨hwrite, hrecycled⟩, hone⟩, htwo⟩ := hand
  exact ⟨t, ht, hwrite, hrecycled, hone, htwo,
    recycled_out_of_reach wrapAround window_of_wrapAround ht⟩

theorem thirtyTwoBits_fits : 1 + 2 ≤ 32 := by decide

/-- Two elements a block and 32-bit offsets. -/
def thirtyTwoBits : Config := ⟨⟨32, 1, thirtyTwoBits_fits⟩, true⟩

/-- Task 1 has ticket 3 and has loaded the hint, which is the first block.  The queue
is closed and rejects 2^31 items of task 2.  The consumer comes to the second block
and recycles the first, for the cutoff is not ahead of it on registers. -/
def farCutoff : List (Act Nat) := List.flatten
  [[.bulk 0 id 3, .task 0 false, .post 1 3], taskSteps 1 3, taskSteps 0 19,
   [.close 2], taskSteps 2 11, [.bulk 2 id (2 ^ 31)], taskSteps 2 4,
   [.pull .tryPull], consumerSteps 3, [.release], consumerSteps 2,
   [.pull .tryPull], consumerSteps 3, [.release],
   [.pull .tryPull], consumerSteps 5, [.release], consumerSteps 17]

/-- Task 1 goes from the first block while it is being recycled. -/
def State.caught (s : State Nat) : Bool :=
  decide (0 ∈ s.starts (s.task 1)) && decide (0 ∈ s.consumer.recycled)

theorem farCutoff_reaches : ∃ t, (system Nat .wrapping thirtyTwoBits).Reachable t ∧
    ¬OutOfReach .wrapping thirtyTwoBits t := by
  have hrun : (farCutoff.foldlM (step .wrapping thirtyTwoBits) .init).any State.caught = true := by
    decide +kernel
  obtain ⟨t, ht, hc⟩ := (Option.any_eq_true _ _).mp hrun
  rw [State.caught, Bool.and_eq_true, decide_eq_true_iff, decide_eq_true_iff] at hc
  exact ⟨t, System.ofStep_reachable farCutoff ht, fun h => h.apart 1 0 0 hc.1 (.refl 0) hc.2⟩

end CoroUtil.MpscUnbounded
