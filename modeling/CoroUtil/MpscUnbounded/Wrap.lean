import CoroUtil.Blocks.Wrap
import CoroUtil.MpscUnbounded.Run

/-!
# Offsets that wrap

`State.wrap` puts the natural offsets of a state into registers.  While the
offsets from the head block to `write_offset` are within half the range of a
register, a step on the registers is the step on the numbers: every comparison
is between two of these offsets, and every offset that is tested for equality is
the one of a block that the natural run has found.
-/

namespace CoroUtil.MpscUnbounded

open CoroUtil.Blocks CoroUtil.General

variable {V : Type}

def Pc.wrap (L : Layout) : Pc V → Pc V
  | idle => idle
  | fetchTicket w => fetchTicket w
  | loadClosed w idx => loadClosed w (word L.bits idx)
  | spinReady w idx => spinReady w (word L.bits idx)
  | loadClosedAt w idx => loadClosedAt w (word L.bits idx)
  | loadHint j idx => loadHint j (word L.bits idx)
  | hintOffset j idx b => hintOffset j (word L.bits idx) b
  | loadWriteBlock j idx => loadWriteBlock j (word L.bits idx)
  | assertWriteBlock j idx b => assertWriteBlock j (word L.bits idx) b
  | assertObserved w idx observed => assertObserved w (word L.bits idx) observed
  | find j idx observed f => find j (word L.bits idx) observed (f.wrap L)
  | findEnd w idx observed b f => findEnd w (word L.bits idx) observed b (f.wrap L)
  | hintCurrent w idx b current target => hintCurrent w (word L.bits idx) b current target
  | hintTarget w idx b current target offset =>
    hintTarget w (word L.bits idx) b current target (word L.bits offset)
  | hintCas w idx b current target => hintCas w (word L.bits idx) b current target
  | emplace w idx k b => emplace w (word L.bits idx) k b
  | publish w idx k b => publish w (word L.bits idx) k b
  | resumeConsumer w idx k b frame => resumeConsumer w (word L.bits idx) k b frame
  | nextBlock w idx k b => nextBlock w (word L.bits idx) k b
  | closeCas => closeCas
  | closeTicket => closeTicket
  | storeClosedAt idx => storeClosedAt (word L.bits idx)
  | storeReady idx => storeReady (word L.bits idx)
  | exchangeClosed idx b => exchangeClosed (word L.bits idx) b
  | elemNull idx frame => elemNull (word L.bits idx) frame
  | closeResume idx frame => closeResume (word L.bits idx) frame

def ConsumerPc.wrap (L : Layout) : ConsumerPc → ConsumerPc
  | idle => idle
  | assertRead k => assertRead k
  | find k idx f => find k (word L.bits idx) (f.wrap L)
  | poll k idx b => poll k (word L.bits idx) b
  | tryWait idx b => tryWait (word L.bits idx) b
  | storeClosed idx b => storeClosed (word L.bits idx) b
  | suspended idx b elemNull => suspended (word L.bits idx) b elemNull
  | resumed idx b elemNull => resumed (word L.bits idx) b elemNull
  | holding idx b => holding (word L.bits idx) b
  | reclaim b r last => reclaim b (r.wrap L) last
  | assertHead b => assertHead b
  | oldOffset b => oldOffset b
  | storeWriteBlock b => storeWriteBlock b
  | startHint b => startHint b
  | startCurrent b current => startCurrent b current
  | startTarget b current offset => startTarget b current (word L.bits offset)
  | startCas b current => startCas b current
  | loadCutoff b => loadCutoff b
  | emptyFind scope f => emptyFind (scope.map fun x => (word L.bits x.1, x.2)) (f.wrap L)
  | emptyPoll scope b => emptyPoll (scope.map fun x => (word L.bits x.1, x.2)) b

def Post.wrap (L : Layout) (x : Post V) : Post V := { x with ticket := word L.bits x.ticket }

def Pull.wrap (L : Layout) : Pull V → Pull V
  | ok idx v => ok (word L.bits idx) v
  | empty posts => empty posts
  | closed => closed

/-- The state whose registers hold the offsets of `s`. -/
def State.wrap (L : Layout) (s : State V) : State V :=
  { s with
    heap := s.heap.wrap L
    writeOffset := word L.bits s.writeOffset
    writeClosedAt := word L.bits s.writeClosedAt
    readOffset := word L.bits s.readOffset
    pendingReclaimCutoff := word L.bits s.pendingReclaimCutoff
    task := fun p => (s.task p).wrap L
    consumer := s.consumer.wrap L
    constructed := s.constructed.map fun x => (word L.bits x.1, x.2)
    posts := s.posts.map (Post.wrap L)
    pulls := s.pulls.map (Pull.wrap L) }

variable {cfg : Config} {s : State V} {m : Map V} {p : Tid} {w : Put V} {j : Job V}
  {n b k idx : Nat} {acc : Bool} {pc : Pc V} {c : ConsumerPc}

/-! ## What does not look at the offsets -/

namespace State

theorem wrap_setTask :
    (s.setTask p pc).wrap cfg.toLayout = (s.wrap cfg.toLayout).setTask p
      (pc.wrap cfg.toLayout) := by
  have htask : (fun q => (Function.update s.task p pc q).wrap cfg.toLayout) =
      Function.update (fun q => (s.task q).wrap cfg.toLayout) p (pc.wrap cfg.toLayout) := by
    funext q
    simp only [Function.update_apply]
    split <;> rfl
  rw [setTask, wrap, htask]
  rfl

theorem setTask_wrap {t : State V} {x : Pc V} (ht : t = s.wrap cfg.toLayout)
    (hpc : x = pc.wrap cfg.toLayout) : t.setTask p x = (s.setTask p pc).wrap cfg.toLayout := by
  rw [wrap_setTask, ht, hpc]

theorem wrap_setConsumer : (s.setConsumer c).wrap cfg.toLayout =
    (s.wrap cfg.toLayout).setConsumer (c.wrap cfg.toLayout) := rfl

theorem wrap_check {x : Bool} :
    (s.check x).wrap cfg.toLayout = (s.wrap cfg.toLayout).check x := rfl

theorem wrap_setElem {e : Element Flags V} : (s.setElem cfg b n e).wrap cfg.toLayout =
    (s.wrap cfg.toLayout).setElem cfg b (word cfg.bits n) e := by
  rw [setElem, setElem, Layout.slot_word, wrap, Heap.wrap_setElem]
  rfl

theorem elem_wrap : (s.wrap cfg.toLayout).elem cfg b (word cfg.bits n) = s.elem cfg b n := by
  rw [elem, elem, Layout.slot_word]
  rfl

theorem wrap_setFlags {f : Flags} : (s.setFlags cfg b n f).wrap cfg.toLayout =
    (s.wrap cfg.toLayout).setFlags cfg b (word cfg.bits n) f := by
  rw [setFlags, setFlags, wrap_setElem, elem_wrap]

theorem wrap_idle :
    (s.setTask p .idle).wrap cfg.toLayout = (s.wrap cfg.toLayout).setTask p .idle := wrap_setTask

theorem wrap_returnPost {ok : Bool} : (s.returnPost p w idx ok).wrap cfg.toLayout =
    (s.wrap cfg.toLayout).returnPost p w (word cfg.bits idx) ok := by
  have hidle : (s.setTask p .idle).wrap cfg.toLayout =
      (s.wrap cfg.toLayout).setTask p .idle := wrap_idle
  rw [returnPost, wrap, List.map_append]
  exact congrArg (fun x : State V =>
    { x with posts := s.posts.map (Post.wrap cfg.toLayout) ++
      [Post.mk p (word cfg.bits idx) w ok] })
    hidle

theorem wrap_returnClose :
    (s.returnClose p).wrap cfg.toLayout = (s.wrap cfg.toLayout).returnClose p :=
  congrArg (fun x : State V => { x with closes := s.closes + 1 }) wrap_idle

theorem wrap_returnPull {x : Pull V} : (s.returnPull x).wrap cfg.toLayout =
    (s.wrap cfg.toLayout).returnPull (x.wrap cfg.toLayout) := by
  rw [returnPull, wrap, List.map_append]
  rfl

theorem wrap_handOut : (s.handOut cfg idx b).wrap cfg.toLayout =
    (s.wrap cfg.toLayout).handOut cfg (word cfg.bits idx) b := by
  rw [handOut, handOut, elem_wrap]
  split
  · rw [wrap, List.map_append]
    rfl
  · rfl

theorem wrap_resumeConsumer : (s.resumeConsumer n).wrap cfg.toLayout =
    (s.wrap cfg.toLayout).resumeConsumer n := by
  have hcons : (s.wrap cfg.toLayout).consumer = s.consumer.wrap cfg.toLayout := rfl
  rw [resumeConsumer, resumeConsumer, hcons]
  cases s.consumer with
  | suspended idx b e =>
    dsimp only [ConsumerPc.wrap]
    change (if n = s.frame then _ else _ : State V).wrap cfg.toLayout = if n = s.frame then _ else _
    split <;> rfl
  | _ => rfl

theorem wrap_afterStart : (s.afterStart p j idx b).wrap cfg.toLayout =
    (s.wrap cfg.toLayout).afterStart p j (word cfg.bits idx) b := by
  cases j <;> exact wrap_setTask

theorem afterFind_wrap {t : State V} {observed : Nat} (ht : t = s.wrap cfg.toLayout) :
    t.afterFind p j (word cfg.bits idx) observed b =
      (s.afterFind p j idx observed b).wrap cfg.toLayout := by
  rcases j with (v | ⟨items, count⟩) | - <;> exact setTask_wrap ht rfl

theorem wrap_afterEmpty {scope : Option (Nat × Nat)} : (s.afterEmpty scope).wrap cfg.toLayout =
    (s.wrap cfg.toLayout).afterEmpty (scope.map fun x => (word cfg.bits x.1, x.2)) := by
  cases scope <;> rfl

end State

/-! ## What is compared -/

/-- The offsets that are compared are within half the range of a register. -/
structure Near (cfg : Config) (s : State V) (m : Map V) : Prop where
  write : s.writeOffset < m.head * cfg.blockSize + 2 ^ (cfg.bits - 1)
  read : s.readOffset + 1 < m.read * cfg.blockSize + 2 ^ (cfg.bits - 1)

/-- An offset from the head block to `write_offset`. -/
def Within (cfg : Config) (s : State V) (m : Map V) (n : Nat) : Prop :=
  m.head * cfg.blockSize ≤ n ∧ n ≤ s.writeOffset

theorem half_le (n : Nat) : 2 ^ (n - 1) ≤ 2 ^ n := Nat.pow_le_pow_right (by omega) (Nat.sub_le ..)

theorem Near.less (hn : Near cfg s m) {a b : Nat} (ha : Within cfg s m a) (hb : Within cfg s m b) :
    cfg.less .wrapping (word cfg.bits a) (word cfg.bits b) = cfg.less .natural a b := by
  have hw := hn.write
  have ha1 := ha.1
  have hb1 := hb.1
  exact Layout.less_wrapping (ha.2.trans_lt (by omega)) (hb.2.trans_lt (by omega))

/-- A walk to an index that has been given out. -/
theorem Near.find (hn : Near cfg s m) {lo : Nat} (hlo : m.head ≤ lo) (hidx : idx ≤ s.writeOffset) :
    idx < lo * cfg.blockSize + 2 ^ cfg.bits := by
  have hw := hn.write
  have hmul := Nat.mul_le_mul_right cfg.blockSize hlo
  have hhalf := half_le cfg.bits
  omega

theorem Mem.head_mul_le (h : Mem cfg s m) : m.head * cfg.blockSize ≤ s.readOffset := by
  have hmul := Nat.mul_le_mul_right cfg.blockSize h.head_le
  rcases h.write_lt with h0 | hlt
  · rw [h0, Nat.zero_mul] at hmul
    omega
  · omega

theorem Mem.within (h : Mem cfg s m) (hr : s.readOffset ≤ n) (hw : n ≤ s.writeOffset) :
    Within cfg s m n := ⟨h.head_mul_le.trans hr, hw⟩

theorem InUse.mul_le (h : InUse cfg s k) : k * cfg.blockSize ≤ s.writeOffset := by
  rcases h with rfl | hlt
  · omega
  · exact hlt.le

theorem InUse.within (h : InUse cfg s k) (hk : m.head ≤ k) : Within cfg s m (k * cfg.blockSize) :=
  ⟨Nat.mul_le_mul_right _ hk, h.mul_le⟩

theorem Within.of_at {lo : Nat} {ch : Chain} (h : Find.At cfg.toLayout ch lo idx k b)
    (hlo : m.head ≤ lo) (hidx : idx < s.writeOffset) : Within cfg s m (k * cfg.blockSize) := by
  have hmul := (Nat.le_div_iff_mul_le cfg.blockSize_pos).mp h.le
  exact ⟨Nat.mul_le_mul_right _ (hlo.trans h.lo), by omega⟩

/-- The items of a bulk that are left are within half the range. -/
theorem Near.items (hn : Near cfg s m) (h : Inv cfg s m) (hp : m.role p = .put w idx k acc) :
    w.count < k + 2 ^ (cfg.bits - 1) := by
  have hput := h.ledger.put p w idx k acc hp
  have hpos := Nat.two_pow_pos (cfg.bits - 1)
  rcases Nat.lt_or_ge k w.count with hlt | hge
  · have hr : s.readOffset ≤ idx + k := hput.read_le h.ledger hlt
    have ht : idx + w.count ≤ s.writeOffset := hput.top
    have hw := hn.write
    have hhead := h.mem.head_mul_le
    omega
  · omega

theorem Near.less_one (hn : Near cfg s m) (ha : Within cfg s m n) (hb : Within cfg s m (1 + idx)) :
    cfg.less .wrapping (word cfg.bits n) (cfg.reg .wrapping (1 + word cfg.bits idx)) =
      cfg.less .natural n (cfg.reg .natural (1 + idx)) := by
  rw [Layout.reg_wrapping, word_add_word, Layout.reg_natural]
  exact hn.less ha hb

/-! ## The steps of a task -/

/-- Two branches on conditions that agree. -/
theorem ite_map {α β : Type} {f : α → β} {c d : Prop} [Decidable c] [Decidable d] {x y : β}
    {x' y' : α} (hcd : c ↔ d) (hx : d → x = f x') (hy : ¬d → y = f y') :
    (if c then x else y) = f (if d then x' else y') := by
  by_cases hd : d
  · rw [if_pos (hcd.mpr hd), if_pos hd, hx hd]
  · rw [if_neg (fun hc => hd (hcd.mp hc)), if_neg hd, hy hd]

theorem State.afterItem_wrap {t : State V} (ht : t = s.wrap cfg.toLayout) (hk : k ≤ w.count)
    (hc : w.count < k + 2 ^ cfg.bits) :
    t.afterItem .wrapping cfg p w (word cfg.bits idx) k b =
      (s.afterItem .natural cfg p w idx k b).wrap cfg.toLayout := by
  subst ht
  have heq : cfg.reg .wrapping (word cfg.bits idx + k) = cfg.reg .wrapping
    (word cfg.bits idx + w.count) ↔
      cfg.reg .natural (idx + k) = cfg.reg .natural (idx + w.count) := by
    rw [Layout.reg_wrapping, Layout.reg_wrapping, word_word_add, word_word_add]
    exact word_inj (by omega) (by omega)
  exact ite_map heq (fun _ => wrap_returnPost.symm) fun _ => setTask_wrap rfl rfl

theorem State.afterWrite_wrap {t : State V} (ht : t = s.wrap cfg.toLayout) (hk : k < w.count)
    (hc : w.count ≤ k + 2 ^ (cfg.bits - 1)) :
    t.afterWrite .wrapping cfg p w (word cfg.bits idx) k b =
      (s.afterWrite .natural cfg p w idx k b).wrap cfg.toLayout := by
  subst ht
  have hhalf := half_le cfg.bits
  cases w with
  | post v => exact wrap_returnPost.symm
  | bulk items count =>
    have hcount : count < k + 1 + 2 ^ cfg.bits := hc.trans_lt (by omega)
    have hslot : cfg.slot (cfg.reg .wrapping (word cfg.bits idx + (k + 1))) =
        cfg.slot (cfg.reg .natural (idx + (k + 1))) := by
      rw [Layout.reg_wrapping, word_word_add, Layout.slot_word, Layout.reg_natural]
    exact ite_map (by rw [hslot])
      (fun _ => setTask_wrap rfl rfl) fun _ => afterItem_wrap rfl hk hcount

theorem State.task_wrap : (s.wrap cfg.toLayout).task p = (s.task p).wrap cfg.toLayout := rfl

/-- The closed test. -/
theorem Inv.within_closedAt (h : Inv cfg s m)
    (hk : Knows cfg s m (m.role p) (.loadClosedAt w idx)) :
    Within cfg s m s.writeClosedAt ∧ Within cfg s m (1 + idx) := by
  obtain ⟨hr, hready⟩ := hk
  have hcut := h.ready hready
  have hput := h.ledger.put p w idx 0 false hr
  obtain ⟨hlt, -, hst⟩ := h.ledger.cut _ hcut
  have hread : s.readOffset ≤ s.writeClosedAt := h.ledger.read_le_of fun v hv => by
    rcases hst with hm | ⟨hb, -⟩
    · cases hm.symm.trans hv
    · cases hb.symm.trans hv
  have hidx : s.readOffset ≤ idx + 0 := hput.read_le h.ledger hput.pos
  have htop : idx + w.count ≤ s.writeOffset := hput.top
  have hpos := hput.pos
  have hlt : s.writeClosedAt < s.writeOffset := hlt
  exact ⟨h.mem.within hread hlt.le, h.mem.within (by omega) (by omega)⟩

/-- A task that looks for the block of its ticket. -/
theorem Inv.idx_lt (h : Inv cfg s m) (hk : m.role p = j.role idx ∧ m.stage idx = .blank) :
    s.readOffset ≤ idx ∧ idx < s.writeOffset :=
  ⟨h.ledger.read_le_blank hk.2, h.ledger.covers_lt (h.ledger.role_covers hk.1)⟩

theorem Inv.within_idx (h : Inv cfg s m) (hk : m.role p = j.role idx ∧ m.stage idx = .blank) :
    Within cfg s m (1 + idx) := by
  obtain ⟨hr, hw⟩ := h.idx_lt hk
  exact h.mem.within (by omega) (by omega)

/-- The block that a walk to `idx` is at. -/
theorem Inv.within_at (h : Inv cfg s m) (hk : m.role p = j.role idx ∧ m.stage idx = .blank)
    (ha : Find.At cfg.toLayout m.chain (m.floor s idx) idx k b) : Within cfg s m (s.offset b) := by
  rw [h.mem.offset ⟨ha.lo, ha.last, ha.block⟩ (h.mem.first_le_floor idx)]
  exact .of_at ha (h.mem.head_le_floor idx) (h.idx_lt hk).2

theorem Inv.within_sees (h : Inv cfg s m) (hk : m.Sees (m.floor s idx) k b) (hu : InUse cfg s k) :
    Within cfg s m (s.offset b) := by
  rw [h.mem.offset hk (h.mem.first_le_floor idx)]
  exact hu.within ((h.mem.head_le_floor idx).trans hk.1)

theorem Near.taskStep (hn : Near cfg s m) (h : Inv cfg s m) {spurious : Bool} :
    (s.wrap cfg.toLayout).taskStep .wrapping cfg p spurious =
      (s.taskStep .natural cfg p spurious).map (State.wrap cfg.toLayout) := by
  have hk := h.task p
  cases hpc : s.task p
  all_goals
    rw [hpc] at hk
    rw [State.taskStep, State.taskStep, State.task_wrap, hpc]
  case idle => rfl
  case fetchTicket w =>
    refine congrArg some ?_
    rw [State.wrap_setTask]
    simp [State.wrap, word_word_add, Pc.wrap]
  case loadClosed w idx =>
    exact congrArg some (State.setTask_wrap rfl (ite_map .rfl (fun _ => rfl) fun _ => rfl))
  case spinReady w idx =>
    exact congrArg some (State.setTask_wrap rfl (ite_map .rfl (fun _ => rfl) fun _ => rfl))
  case loadClosedAt w idx =>
    obtain ⟨hc, hidx⟩ := h.within_closedAt hk
    exact ite_map (by rw [← hn.less_one hc hidx]; rfl)
      (fun _ => congrArg some State.wrap_returnPost.symm)
      fun _ => congrArg some (State.setTask_wrap rfl rfl)
  case hintOffset j idx b =>
    obtain ⟨hh, k, hk, hu⟩ := hk
    exact ite_map (by rw [← hn.less_one (h.within_sees hk hu) (h.within_idx hh)]; rfl)
      (fun _ => congrArg some State.wrap_afterStart.symm)
      fun _ => congrArg some (State.setTask_wrap rfl rfl)
  case assertWriteBlock j idx b =>
    obtain ⟨hh, k, hk⟩ := hk
    refine congrArg some ?_
    rw [State.wrap_afterStart, State.wrap_check,
      ← hn.less_one (h.within_at hh hk) (h.within_idx hh)]
    rfl
  case assertObserved w idx b =>
    obtain ⟨hh, k, hk⟩ := hk
    have hh : m.role p = (Job.put w).role idx ∧ m.stage idx = .blank := hh
    refine congrArg some ?_
    rw [State.wrap_setTask, State.wrap_check,
      ← hn.less_one (h.within_at hh hk) (h.within_idx hh)]
    rfl
  case find j idx observed f =>
    obtain ⟨hh, -, hf⟩ := hk
    have hfind := Find.step_wrap h.mem.ok (h.mem.first_le_floor idx) hf
      (hn.find (h.mem.head_le_floor idx) (h.idx_lt hh).2.le)
    have hheap : (s.wrap cfg.toLayout).heap = s.heap.wrap cfg.toLayout := rfl
    simp only [Pc.wrap, hheap, hfind]
    generalize f.step .natural cfg.toLayout idx s.heap = x
    obtain ⟨heap, ok, f'⟩ := x
    cases f' with
    | found b => exact congrArg some (State.afterFind_wrap rfl)
    | _ => exact congrArg some (State.setTask_wrap rfl rfl)
  case findEnd w idx observed b f =>
    obtain ⟨hh, -, -, hf⟩ := hk
    have hput := h.ledger.put p w idx 0 true hh.1
    have htop : idx + w.count ≤ s.writeOffset := hput.top
    have hlast : cfg.reg .wrapping (word cfg.bits idx + w.count - 1) =
        word cfg.bits (idx + w.count - 1) := by
      rw [Layout.reg_wrapping, Nat.add_sub_assoc hput.pos, word_word_add,
        Nat.add_sub_assoc hput.pos]
    have hfind := Find.step_wrap h.mem.ok (h.mem.first_le_floor idx) hf
      (hn.find (h.mem.head_le_floor idx) (by omega))
    have hheap : (s.wrap cfg.toLayout).heap = s.heap.wrap cfg.toLayout := rfl
    simp only [Pc.wrap, hheap, hlast, hfind, Layout.reg_natural]
    generalize f.step .natural cfg.toLayout (idx + w.count - 1) s.heap = x
    obtain ⟨heap, ok, f'⟩ := x
    cases f' <;> exact congrArg some (State.setTask_wrap rfl rfl)
  case hintTarget w idx b current target offset =>
    obtain ⟨hh, hb, ht, k, hk, hu, rfl⟩ := hk
    have hh : m.role p = (Job.put w).role idx ∧ m.stage idx = .blank := hh
    have hput := h.ledger.put p w idx 0 true hh.1
    have hpos := hput.pos
    have htop : idx + w.count ≤ s.writeOffset := hput.top
    have hread := (h.idx_lt hh).1
    have hat : Within cfg s m (s.offset target) := by
      have hoff := h.mem.ok.offset _ (h.mem.has (n := idx + w.count - 1) (by omega) ht)
      rw [ht.2] at hoff
      have hmul := Nat.div_mul_le_self (idx + w.count - 1) cfg.blockSize
      refine ⟨?_, ?_⟩ <;> rw [State.offset, hoff]
      · exact Nat.mul_le_mul_right _ (h.mem.head_le_div (by omega))
      · exact hmul.trans (by omega)
    refine congrArg some (State.setTask_wrap rfl (ite_map ?_ (fun _ => rfl) fun _ => rfl))
    rw [← hn.less (hu.within ((h.mem.head_le_floor idx).trans hk.1)) hat]
    rfl
  case hintCas w idx b current target =>
    exact ite_map .rfl (fun _ => congrArg some (State.setTask_wrap rfl rfl))
      fun _ => congrArg some (State.setTask_wrap rfl rfl)
  case emplace w idx k b =>
    have hi : cfg.reg .wrapping (word cfg.bits idx + k) = word cfg.bits (idx + k) := word_word_add
    refine congrArg some (State.setTask_wrap ?_ rfl)
    rw [hi, State.elem_wrap, Layout.reg_natural, ← State.wrap_setElem, ← State.wrap_check,
      State.wrap]
    simp only [State.wrap, List.map_append]
    rfl
  case publish w idx k b =>
    obtain ⟨hh, hlt, -⟩ := hk
    have hi : cfg.reg .wrapping (word cfg.bits idx + k) = word cfg.bits (idx + k) := word_word_add
    have hitems := hn.items h hh.1
    simp only [Pc.wrap, hi, State.elem_wrap, Layout.reg_natural, ← State.wrap_setFlags]
    split
    · cases (s.elem cfg b (idx + k)).flags with
      | consumer frame => exact congrArg some (State.setTask_wrap rfl rfl)
      | null => exact congrArg some (State.afterWrite_wrap rfl hlt hitems.le)
      | data | closed => exact congrArg some (State.afterWrite_wrap rfl hlt hitems.le)
    · exact congrArg some (State.afterWrite_wrap rfl hlt hitems.le)
  case resumeConsumer w idx k b frame =>
    obtain ⟨hh, hlt, -⟩ := hk
    have hitems := hn.items h hh.1
    exact congrArg some (State.afterWrite_wrap State.wrap_resumeConsumer.symm hlt (by omega))
  case nextBlock w idx k b =>
    obtain ⟨hh, -⟩ := hk
    have hput := h.ledger.put p w idx k true hh.1
    have hle := hput.le
    have hitems := hn.items h hh.1
    have hhalf := half_le cfg.bits
    have hnext : ((s.wrap cfg.toLayout).heap.block b).next = (s.heap.block b).next := rfl
    have hless : cfg.less .wrapping (cfg.reg .wrapping (word cfg.bits idx + k))
        (cfg.reg .wrapping (word cfg.bits idx + w.count)) =
          cfg.less .natural (cfg.reg .natural (idx + k)) (cfg.reg .natural (idx + w.count)) := by
      rw [Layout.reg_wrapping, Layout.reg_wrapping, word_word_add, word_word_add]
      exact Layout.less_wrapping (by omega) (by omega)
    have heq : cfg.reg .wrapping (word cfg.bits idx + k) =
        cfg.reg .wrapping (word cfg.bits idx + w.count) ↔
          cfg.reg .natural (idx + k) = cfg.reg .natural (idx + w.count) := by
      rw [Layout.reg_wrapping, Layout.reg_wrapping, word_word_add, word_word_add]
      exact word_inj (by omega) (by omega)
    simp only [Pc.wrap, hnext]
    cases (s.heap.block b).next with
    | some n => exact congrArg some (State.afterItem_wrap rfl hle (by omega))
    | none =>
      refine ite_map heq (fun _ => congrArg some ?_) fun _ => congrArg some
        (State.setTask_wrap ?_ rfl)
      · rw [State.wrap_returnPost, State.wrap_check, hless]
      · rw [State.wrap_check, State.wrap_check, hless]
  case closeCas =>
    exact ite_map .rfl (fun _ => congrArg some State.wrap_returnClose.symm)
      fun _ => congrArg some (State.setTask_wrap rfl rfl)
  case closeTicket =>
    refine congrArg some (State.setTask_wrap ?_ rfl)
    simp [State.wrap, word_word_add]
  case exchangeClosed idx b =>
    simp only [Pc.wrap, State.elem_wrap, ← State.wrap_setFlags]
    cases (s.elem cfg b idx).flags with
    | consumer frame => exact congrArg some (State.setTask_wrap rfl rfl)
    | _ => exact congrArg some State.wrap_returnClose.symm
  case elemNull idx frame =>
    have hcons : ((s.wrap cfg.toLayout).setTask p
        (.closeResume (word cfg.bits idx) frame)).consumer = s.consumer.wrap cfg.toLayout := rfl
    have hframe : ((s.wrap cfg.toLayout).setTask p
        (.closeResume (word cfg.bits idx) frame)).frame = s.frame := rfl
    have hcons' : (s.setTask p (.closeResume idx frame)).consumer = s.consumer := rfl
    have hframe' : (s.setTask p (.closeResume idx frame)).frame = s.frame := rfl
    have htask : (s.wrap cfg.toLayout).setTask p (.closeResume (word cfg.bits idx) frame) =
        (s.setTask p (.closeResume idx frame)).wrap cfg.toLayout := State.setTask_wrap rfl rfl
    simp only [Pc.wrap, hcons, hframe, hcons', hframe']
    cases s.consumer with
    | suspended i b e =>
      exact ite_map .rfl (fun _ => by rw [htask]; rfl) fun _ => by rw [htask]; rfl
    | _ => rw [htask]; rfl
  case closeResume idx frame =>
    refine congrArg some ?_
    rw [State.wrap_returnClose, State.wrap_resumeConsumer]
  all_goals exact congrArg some (State.setTask_wrap rfl rfl)

/-! ## The steps of the consumer -/

/-- The cutoff test agrees. -/
def CutoffAgrees (cfg : Config) (s : State V) : Prop :=
  ∀ x, s.pendingReclaim = some x →
    cfg.less .wrapping (word cfg.bits s.readOffset) (word cfg.bits s.pendingReclaimCutoff) =
      cfg.less .natural s.readOffset s.pendingReclaimCutoff

namespace State

variable {t : State V}

theorem finishLast_wrap (ht : t = s.wrap cfg.toLayout) (hc : CutoffAgrees cfg s) :
    t.finishLast .wrapping cfg b = (s.finishLast .natural cfg b).wrap cfg.toLayout := by
  subst ht
  have hp : (s.wrap cfg.toLayout).pendingReclaim = s.pendingReclaim := rfl
  rw [finishLast, finishLast, hp]
  cases hx : s.pendingReclaim with
  | none => rfl
  | some x => exact ite_map (by rw [← hc x hx]; rfl) (fun _ => rfl) fun _ => rfl

theorem startReclaim_wrap (ht : t = s.wrap cfg.toLayout) (hc : CutoffAgrees cfg s) :
    t.startReclaim .wrapping cfg b = (s.startReclaim .natural cfg b).wrap cfg.toLayout := by
  subst ht
  have hp : (s.wrap cfg.toLayout).pendingReclaim = s.pendingReclaim := rfl
  rw [startReclaim, startReclaim, hp]
  cases s.pendingReclaim with
  | none => rfl
  | some x => exact finishLast_wrap rfl hc

theorem tryReclaimBlocks_wrap (ht : t = s.wrap cfg.toLayout) (hc : CutoffAgrees cfg s) :
    t.tryReclaimBlocks .wrapping cfg b = (s.tryReclaimBlocks .natural cfg b).wrap cfg.toLayout := by
  subst ht
  have hp : (s.wrap cfg.toLayout).pendingReclaim = s.pendingReclaim := rfl
  rw [tryReclaimBlocks, tryReclaimBlocks, hp]
  cases hx : s.pendingReclaim with
  | none => exact startReclaim_wrap rfl hc
  | some x =>
    exact ite_map (by rw [← hc x hx]; rfl) (fun _ => startReclaim_wrap rfl hc) fun _ => rfl

theorem consumer_wrap : (s.wrap cfg.toLayout).consumer = s.consumer.wrap cfg.toLayout := rfl

theorem returnPull_wrap {x x' : Pull V} (hx : x = x'.wrap cfg.toLayout) :
    (s.wrap cfg.toLayout).returnPull x = (s.returnPull x').wrap cfg.toLayout := by
  rw [wrap_returnPull, hx]

theorem handOut_wrap (ht : t = s.wrap cfg.toLayout) :
    t.handOut cfg (word cfg.bits idx) b = (s.handOut cfg idx b).wrap cfg.toLayout := by
  rw [ht, wrap_handOut]

end State

/-- The consumer is at a block that it has released the first value of. -/
theorem Entered.within (h : Entered cfg s m b) (hm : Mem cfg s m)
    (hr : s.readOffset ≤ s.writeOffset) : Within cfg s m (s.offset b) := by
  have hread := h.2
  have hmul := Nat.mul_le_mul_right cfg.blockSize (hm.head_le.trans hm.write_le)
  rw [hm.offset_entered h]
  exact ⟨hmul, by omega⟩

theorem Near.consumerStep (hn : Near cfg s m) (h : Inv cfg s m) {spurious : Bool} :
    (s.wrap cfg.toLayout).consumerStep .wrapping cfg spurious =
      (s.consumerStep .natural cfg spurious).map (State.wrap cfg.toLayout) := by
  have hk := h.consumer
  have hread : s.readOffset ≤ s.writeOffset := h.ledger.read_le
  have hheap : (s.wrap cfg.toLayout).heap = s.heap.wrap cfg.toLayout := rfl
  cases hpc : s.consumer
  all_goals
    rw [hpc] at hk
    rw [State.consumerStep, State.consumerStep, State.consumer_wrap, hpc]
  case idle => rfl
  case assertRead k =>
    have hoff : s.offset s.readBlock = m.read * cfg.blockSize := by
      have hoff := h.mem.ok.offset m.read
        ⟨h.mem.first.trans (h.mem.head_le.trans h.mem.write_le), h.mem.read_le⟩
      rw [h.mem.read] at hoff
      exact hoff
    have hlt := h.mem.read_lt
    have hle : m.read * cfg.blockSize ≤ s.readOffset := by
      rcases hlt with h0 | hlt
      · rw [h0, Nat.zero_mul]
        exact Nat.zero_le _
      · exact hlt.le
    have hless : cfg.less .wrapping (word cfg.bits (s.offset s.readBlock))
        (cfg.reg .wrapping (1 + word cfg.bits s.readOffset)) =
          cfg.less .natural (s.offset s.readBlock) (cfg.reg .natural (1 + s.readOffset)) := by
      have hread := hn.read
      rw [Layout.reg_wrapping, word_add_word, hoff]
      exact Layout.less_wrapping (by omega) (by omega)
    refine congrArg some ?_
    rw [State.wrap_setConsumer, State.wrap_check, ← hless]
    rfl
  case find k idx f =>
    obtain ⟨-, -, rfl, hf, -⟩ := hk
    have hhead := h.mem.head_le.trans h.mem.write_le
    have hfind := Find.step_wrap h.mem.ok (h.mem.first.trans hhead) hf (hn.find hhead hread)
    simp only [ConsumerPc.wrap, hheap, hfind]
    generalize f.step .natural cfg.toLayout s.readOffset s.heap = x
    obtain ⟨heap, ok, f'⟩ := x
    cases f' <;> rfl
  case poll k idx b =>
    simp only [ConsumerPc.wrap, State.elem_wrap]
    cases k <;> cases (s.elem cfg b idx).flags
    case pull.data | tryPull.data => exact congrArg some (State.handOut_wrap rfl)
    case tryPull.null | tryPull.closed | tryPull.consumer =>
      exact congrArg some (State.returnPull_wrap rfl)
    all_goals rfl
  case tryWait idx b =>
    have hframe : (s.wrap cfg.toLayout).frame = s.frame := rfl
    simp only [ConsumerPc.wrap, State.elem_wrap, hframe, ← State.wrap_setFlags]
    cases (s.elem cfg b idx).flags
    all_goals first
      | exact congrArg some (State.handOut_wrap rfl)
      | rfl
  case storeClosed idx b =>
    refine congrArg some ?_
    rw [State.wrap_returnPull, State.wrap_setFlags]
    rfl
  case suspended idx b e => rfl
  case resumed idx b e =>
    exact ite_map .rfl (fun _ => congrArg some (State.returnPull_wrap rfl))
      fun _ => congrArg some (State.handOut_wrap rfl)
  case holding idx b => rfl
  case reclaim b r last =>
    obtain ⟨-, -, -, hp, -⟩ := hk
    have htail : (s.wrap cfg.toLayout).tailBlock = s.tailBlock := rfl
    simp only [ConsumerPc.wrap, hheap, htail, Reclaim.step_wrap]
    generalize r.step .natural cfg.toLayout s.heap s.tailBlock = x
    obtain ⟨heap, tail, ok, r'⟩ := x
    cases r' with
    | done =>
      exact congrArg some (ite_map .rfl (fun _ => rfl)
        fun _ => State.startReclaim_wrap rfl fun x hx => by cases hp.symm.trans hx)
    | _ => rfl
  case assertHead b =>
    obtain ⟨-, -, -, hent⟩ := hk
    have hbase := cfg.base_le (n := s.readOffset)
    have hlt := cfg.lt_base_add (n := s.readOffset)
    have hoff := h.mem.offset_entered hent
    have hB := cfg.blockSize_le
    have hpos := cfg.blockSize_pos
    have heq : word cfg.bits (s.offset b) = cfg.base (word cfg.bits s.readOffset) ↔
        s.offset b = cfg.base s.readOffset := by
      have hread := hent.2
      have hle : s.offset b ≤ cfg.base s.readOffset := by
        rw [hoff, Layout.base_eq]
        refine Nat.mul_le_mul_right _ ((Nat.le_div_iff_mul_le hpos).mpr ?_)
        omega
      rw [Layout.base_word]
      exact word_inj hle (by omega)
    refine congrArg some ?_
    rw [State.wrap_setConsumer, State.wrap_check, ← decide_eq_decide.mpr heq]
    rfl
  case oldOffset b =>
    obtain ⟨hc, -, hp, hent⟩ := hk
    have hhead : s.offset s.headBlock = m.head * cfg.blockSize := by
      have hoff := h.mem.ok.offset m.head
        ⟨h.mem.first, h.mem.head_le.trans (h.mem.write_le.trans h.mem.read_le)⟩
      rw [h.mem.head] at hoff
      exact hoff
    have hbase := cfg.base_le (n := s.readOffset)
    have hwith : Within cfg s m (cfg.base s.readOffset) := by
      refine ⟨?_, hbase.trans hread⟩
      rw [Layout.base_eq]
      exact Nat.mul_le_mul_right _ (h.mem.head_le_div le_rfl)
    have hwhead : Within cfg s m (s.offset s.headBlock) := by
      rw [hhead]
      exact ⟨le_rfl, h.mem.head_mul_le.trans hread⟩
    refine ite_map ?_ (fun _ => rfl) fun _ => congrArg some
      (State.finishLast_wrap rfl fun x hx => by cases hp.symm.trans hx)
    rw [← hn.less hwhead hwith, ← Layout.base_word]
    rfl
  case startTarget b current offset =>
    obtain ⟨hst, k, hk, hle, rfl⟩ := hk
    have hhint := Nat.mul_le_mul_right cfg.blockSize hle
    have hcur : Within cfg s m (k * cfg.blockSize) :=
      ⟨Nat.mul_le_mul_right _ hk.1, hhint.trans h.mem.hint_lt.mul_le⟩
    refine congrArg some ?_
    rw [State.wrap_setConsumer]
    refine congrArg (State.setConsumer _) (ite_map ?_ (fun _ => rfl) fun _ => rfl)
    rw [← hn.less hcur (hst.entered.within h.mem hread)]
    rfl
  case startCas b current => exact ite_map .rfl (fun _ => rfl) fun _ => rfl
  case loadCutoff b =>
    refine congrArg some (State.finishLast_wrap rfl fun x hx => ?_)
    exact hn.less (h.mem.within le_rfl hread) (h.mem.within hread le_rfl)
  case emptyFind scope f =>
    obtain ⟨-, hf, -⟩ := hk
    have hhead := h.mem.head_le.trans h.mem.write_le
    have hfind := Find.step_wrap h.mem.ok (h.mem.first.trans hhead) hf (hn.find hhead hread)
    have hidx : (s.wrap cfg.toLayout).readOffset = word cfg.bits s.readOffset := rfl
    simp only [ConsumerPc.wrap, hheap, hidx, hfind]
    generalize f.step .natural cfg.toLayout s.readOffset s.heap = x
    obtain ⟨heap, ok, f'⟩ := x
    cases f' <;> rfl
  case emptyPoll scope b =>
    have hidx : (s.wrap cfg.toLayout).readOffset = word cfg.bits s.readOffset := rfl
    refine congrArg some ?_
    rw [State.wrap_afterEmpty]
    simp only [hidx, State.elem_wrap]
    rfl
  all_goals rfl

/-- The scope is destroyed. -/
theorem Near.release (hn : Near cfg s m) (h : Inv cfg s m) :
    (s.wrap cfg.toLayout).release .wrapping cfg =
      (s.release .natural cfg).map (State.wrap cfg.toLayout) := by
  have hk := h.consumer
  rw [State.release, State.release, State.consumer_wrap]
  cases hpc : s.consumer
  case holding idx b =>
    rw [hpc] at hk
    obtain ⟨-, ⟨rfl, -⟩, v, hv⟩ := hk
    have hlt : s.readOffset < s.writeOffset := by
      by_contra hge
      cases hv.symm.trans (h.ledger.unused _ (Nat.not_lt.mp hge))
    have hslot : cfg.slot (word cfg.bits s.readOffset) = 0 ↔ cfg.slot s.readOffset = 0 := by
      rw [Layout.slot_word]
    have hnext : cfg.reg .wrapping (word cfg.bits s.readOffset + 1) =
        word cfg.bits (s.readOffset + 1) := word_word_add
    simp only [ConsumerPc.wrap, State.elem_wrap, hnext, Layout.reg_natural, ← State.wrap_setElem]
    refine ite_map hslot (fun _ => congrArg some (State.tryReclaimBlocks_wrap rfl fun x hx => ?_))
      fun _ => rfl
    obtain ⟨-, -, -, hle, hw⟩ := h.mem.pending x.1 x.2 hx
    have hmul := Nat.mul_le_mul_right cfg.blockSize h.mem.head_le
    exact hn.less (h.mem.within (Nat.le_succ _) hlt) ⟨hmul.trans hle, hw⟩
  all_goals rfl

/-- A step on registers is the step on natural numbers. -/
theorem Near.step {a : Act V} (hn : Near cfg s m) (h : Inv cfg s m) :
    step .wrapping cfg (s.wrap cfg.toLayout) a =
      (step .natural cfg s a).map (State.wrap cfg.toLayout) := by
  cases a
  case task p spurious => exact hn.taskStep h
  case consumer spurious => exact hn.consumerStep h
  case release => exact hn.release h
  case empty =>
    rw [MpscUnbounded.step, MpscUnbounded.step, State.callEmpty, State.callEmpty,
      State.consumer_wrap]
    cases s.consumer <;> rfl
  case pull k =>
    have hlength : (s.wrap cfg.toLayout).posts.length = s.posts.length := List.length_map ..
    unfold MpscUnbounded.step
    dsimp only
    rw [State.consumer_wrap, hlength]
    cases s.consumer
    case idle =>
      cases k with
      | pull => exact ite_map .rfl (fun _ => rfl) fun _ => rfl
      | tryPull => rfl
    all_goals rfl
  case post p v =>
    rw [MpscUnbounded.step, MpscUnbounded.step, State.task_wrap]
    cases s.task p
    case idle => exact congrArg some (State.setTask_wrap rfl rfl)
    all_goals rfl
  case close p =>
    rw [MpscUnbounded.step, MpscUnbounded.step, State.task_wrap]
    cases s.task p
    case idle => exact congrArg some (State.setTask_wrap rfl rfl)
    all_goals rfl
  case bulk p items count =>
    rw [MpscUnbounded.step, MpscUnbounded.step, State.task_wrap]
    cases s.task p
    case idle =>
      exact ite_map .rfl (fun _ => congrArg some (ite_map .rfl (fun _ => rfl)
        fun _ => State.setTask_wrap rfl rfl)) fun _ => rfl
    all_goals rfl

/-! ## Runs -/

/-- The distance from the head block to `write_offset` and one block is less than
half the range of a register. -/
def Window (cfg : Config) (s : State V) : Prop :=
  s.writeOffset + cfg.blockSize < s.offset s.headBlock + 2 ^ (cfg.bits - 1)

instance : Decidable (Window cfg s) := inferInstanceAs (Decidable (_ < _))

theorem Mem.offset_head (h : Mem cfg s m) : s.offset s.headBlock = m.head * cfg.blockSize := by
  have hoff := h.ok.offset m.head ⟨h.first, h.head_le.trans (h.write_le.trans h.read_le)⟩
  rw [h.head] at hoff
  exact hoff

theorem Window.near (hw : Window cfg s) (h : Inv cfg s m) : Near cfg s m := by
  have hread : s.readOffset ≤ s.writeOffset := h.ledger.read_le
  have hpos := cfg.blockSize_pos
  have hmul := Nat.mul_le_mul_right cfg.blockSize (h.mem.head_le.trans h.mem.write_le)
  rw [Window, h.mem.offset_head] at hw
  exact ⟨by omega, by omega⟩

/-- With two elements a block or more the comparisons are within half the range as
long as fewer tickets than that have been taken. -/
theorem Near.of_tickets (hB : 1 < cfg.blockSize) (hw : s.writeOffset < 2 ^ (cfg.bits - 1))
    (h : Inv cfg s m) : Near cfg s m := by
  have hnear := h.mem.read_near
  have hle := cfg.blockSize_le
  have hhalf : 2 ^ cfg.bits = 2 * 2 ^ (cfg.bits - 1) := by
    have hlog := cfg.log_lt
    rw [← Nat.pow_succ']
    congr 1
    omega
  rw [Nat.succ_mul] at hnear
  exact ⟨by omega, by omega⟩

theorem State.wrap_init : (State.init : State V).wrap cfg.toLayout = .init := by
  have hzero : word cfg.bits 0 = 0 := Nat.zero_mod _
  have hheap : (State.init : State V).heap.wrap cfg.toLayout = State.init.heap := by
    rw [Heap.wrap]
    simp [State.init, Block.wrap, Block.new, hzero]
  rw [State.wrap, hheap]
  simp [State.init, hzero, Pc.wrap, ConsumerPc.wrap]

/-- The run of a list of moves on registers is the run on natural numbers. -/
theorem run_wrap {P : State V → Prop} (hP : ∀ s m, Inv cfg s m → P s → Near cfg s m)
    (acts : List (Act V)) (h : Inv cfg s m)
    (hrun : ∀ k t, (acts.take k).foldlM (step .natural cfg) s = some t → P t) :
    acts.foldlM (step .wrapping cfg) (s.wrap cfg.toLayout) =
      (acts.foldlM (step .natural cfg) s).map (State.wrap cfg.toLayout) := by
  induction acts generalizing s m with
  | nil => rfl
  | cons a acts ih =>
    have hn := hP s m h (hrun 0 s rfl)
    rw [List.foldlM_cons, List.foldlM_cons, hn.step h]
    cases hs : step .natural cfg s a with
    | none => rfl
    | some s' =>
      obtain ⟨m', h'⟩ := h.step hs
      refine ih h' fun k t ht => hrun (k + 1) t ?_
      rw [List.take_succ_cons, List.foldlM_cons, hs]
      exact ht

/-- Two elements a block and 8-bit offsets. -/
def eightBits : Config := ⟨⟨8, 1, by decide⟩, true⟩

/-- Two elements a block and 4-bit offsets. -/
def fourBits : Config := ⟨⟨4, 1, by decide⟩, true⟩

/-- Task `p` takes `n` steps. -/
def taskSteps (p n : Nat) : List (Act Nat) := List.replicate n (.task p false)

def consumerSteps (n : Nat) : List (Act Nat) := List.replicate n (.consumer false)

/-- Task 0 posts the two values of a block.  The consumer takes them, and recycles the
block before. -/
def oneBlock (v : Nat) : List (Act Nat) := List.flatten
  [[.post 0 v], taskSteps 0 13, [.pull .tryPull], consumerSteps 5, [.release], consumerSteps 17,
   [.post 0 (v + 1)], taskSteps 0 10, [.pull .tryPull], consumerSteps 3, [.release]]

/-- A bulk of two blocks, six blocks of posts, and the offsets are at the end of their
range.  The consumer recycles a block, task 1 has a ticket, and task 2 is about to move
the hint to the block of its bulk. -/
def wrapAround : List (Act Nat) := List.flatten
  [[.bulk 0 id 4], taskSteps 0 23, [.pull .tryPull], consumerSteps 3, [.release], consumerSteps 2,
   [.pull .tryPull], consumerSteps 3, [.release, .pull .tryPull], consumerSteps 5, [.release],
   consumerSteps 7, [.pull .tryPull], consumerSteps 3, [.release],
   [.post 0 4], taskSteps 0 14, [.pull .tryPull], consumerSteps 5, [.release], consumerSteps 29,
   [.post 0 5], taskSteps 0 10, [.pull .tryPull], consumerSteps 3, [.release],
   oneBlock 6, oneBlock 8, oneBlock 10, oneBlock 12, oneBlock 14,
   [.post 0 16], taskSteps 0 13, [.pull .tryPull], consumerSteps 5, [.release], consumerSteps 11,
   [.post 1 17], taskSteps 1 2, [.bulk 2 id 2], taskSteps 2 11]

/-- The hint is past the ticket of task 1, which starts from `write_block` and resumes the
consumer.  The consumer comes to the block of the bulk and asks for the block before it
to be recycled, while a `close()` has its ticket. -/
def wrapThenClose : List (Act Nat) := List.flatten
  [wrapAround, taskSteps 2 6, consumerSteps 6, [.pull .pull], consumerSteps 4, taskSteps 1 11,
   consumerSteps 1, [.release, .pull .tryPull], consumerSteps 5, [.close 3], taskSteps 3 9,
   [.release], consumerSteps 7]

theorem window_of_wrapAround (k : Nat) (s : State Nat)
    (hs : (wrapAround.take k).foldlM (step .natural fourBits) .init = some s) :
    Window fourBits s :=
  System.ofStep_take wrapAround (by decide) (by decide +kernel) k hs

theorem window_of_wrapThenClose (k : Nat) (s : State Nat)
    (hs : (wrapThenClose.take k).foldlM (step .natural fourBits) .init = some s) :
    Window fourBits s :=
  System.ofStep_take wrapThenClose (by decide) (by decide +kernel) k hs

end CoroUtil.MpscUnbounded
