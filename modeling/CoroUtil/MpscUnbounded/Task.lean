import CoroUtil.MpscUnbounded.Moves

/-!
# The steps of a task keep the invariant

One lemma for each program counter of `post`, `post_bulk` and `close`;
`Inv.taskStep` puts them together.
-/

namespace CoroUtil.MpscUnbounded

open CoroUtil.Blocks

variable {V : Type} {cfg : Config} {s s' : State V} {m m' : Map V} {p : Tid} {pc pc' : Pc V}
  {n b k idx : Nat} {w : Put V} {j : Job V} {x : Option Nat} {acc : Bool}

theorem Knows.setTask {r : Role V} (h : Knows cfg s m r pc) :
    Knows cfg (s.setTask p pc') m r pc := by
  cases pc <;> exact h

theorem Open.close (h : Open cfg s m p x) (hk : Knows cfg s m (m.role p) pc)
    (hx : pc.wakes = x) : Inv cfg (s.setTask p pc) m := by
  have htask : (s.setTask p pc).task p = pc := Function.update_self ..
  refine (h.setTask pc).inv ?_ (by rw [htask]; exact hx)
  rw [htask]
  exact hk.setTask

/-- The call returns. -/
theorem Open.finish (h : Open cfg s m p none) (hp : m.role p = .put w idx k acc) {ok : Bool}
    (hok : (m.ledger s).PostOk ⟨p, idx, w, ok⟩) :
    ∃ m', Inv cfg (s.returnPost p w idx ok) m' := by
  have htask : (s.returnPost p w idx ok).task p = .idle := Function.update_self ..
  refine ⟨_, (h.reply hp hok).inv ?_ (by rw [htask]; rfl)⟩
  rw [htask]
  exact Map.role_setRole_self

theorem Mem.floor_le_hint (h : Mem cfg s m) (n : Nat) : m.floor s n ≤ m.hint := by
  rw [Map.floor]
  split
  · next x hx =>
    split
    · exact (h.pending x.1 x.2 hx).2.2.1
    · exact h.head_hint
  · exact h.head_hint

/-- A ticket whose first index is blank has not been passed by the consumer. -/
theorem Ledger.Ok.read_le_blank (hg : (m.ledger s).Ok) (hs : m.stage n = .blank) :
    s.readOffset ≤ n := hg.read_le_of fun v hv => by cases hs.symm.trans hv

/-- The offset of a block of the chain. -/
theorem Mem.offset (h : Mem cfg s m) {lo : Nat} (hk : m.Sees lo k b) (hlo : m.chain.first ≤ lo) :
    s.offset b = k * cfg.blockSize := by
  rw [State.offset, ← hk.2.2]
  exact h.ok.offset k ⟨hlo.trans hk.1, hk.2.1⟩

/-! ## Tickets and the closed test -/

theorem Open.fetchTicket (h : Open cfg s m p none) (hk : Knows cfg s m (m.role p) (.fetchTicket w)) :
    ∃ m', Inv cfg ({ s with writeOffset := cfg.reg .natural (s.writeOffset + w.count) }.setTask p
      (.loadClosed w s.writeOffset)) m' :=
  ⟨_, (h.reserve hk.1 hk.2).close Map.role_setRole_self rfl⟩

/-- The closed test lets the call pass. -/
theorem Open.pass (h : Open cfg s m p none) (hp : m.role p = .put w idx 0 false)
    (hc : ∀ c, m.cut = some c → idx + w.count ≤ c) :
    ∃ m', Inv cfg (s.setTask p (.loadHint (.put w) idx)) m' := by
  have hput := h.ledger.put p w idx 0 false hp
  exact ⟨_, (h.accept hp hc).close ⟨Map.role_setRole_self, hput.fresh rfl 0 hput.pos⟩ rfl⟩

theorem Open.loadClosed (h : Open cfg s m p none)
    (hk : Knows cfg s m (m.role p) (.loadClosed w idx)) :
    ∃ m', Inv cfg (s.setTask p (if s.closed then .spinReady w idx else .loadHint (.put w) idx))
      m' := by
  split
  · next hc => exact ⟨m, h.close ⟨hk, hc⟩ rfl⟩
  · next hc =>
    refine h.pass hk fun c hcut => ?_
    have hnone := h.ledger.opened (Bool.not_eq_true _ ▸ hc)
    cases hnone.symm.trans hcut

theorem Open.spinReady (h : Open cfg s m p none)
    (hk : Knows cfg s m (m.role p) (.spinReady w idx)) :
    Inv cfg (s.setTask p (if s.closedReady then .loadClosedAt w idx else .spinReady w idx)) m := by
  split
  · next hr => exact h.close ⟨hk.1, hr⟩ rfl
  · exact h.close hk rfl

theorem Open.loadClosedAt (h : Open cfg s m p none)
    (hk : Knows cfg s m (m.role p) (.loadClosedAt w idx)) :
    ∃ m', Inv cfg (if cfg.less .natural s.writeClosedAt (cfg.reg .natural (1 + idx)) then
      s.returnPost p w idx false else s.setTask p (.loadHint (.put w) idx)) m' := by
  obtain ⟨hp, hready⟩ := hk
  have hput := h.ledger.put p w idx 0 false hp
  have hpos := hput.pos
  have hcut := h.ready hready
  rw [Layout.less_natural, Layout.reg_natural]
  split
  · next hlt =>
    have hlt : s.writeClosedAt < 1 + idx := of_decide_eq_true hlt
    have hidx : s.writeClosedAt < idx := by
      rcases hput.cutoff _ hcut with hle | ⟨-, hlt⟩
      · omega
      · exact hlt
    exact h.finish hp (h.ledger.postOk_false hp hcut hidx)
  · next hge =>
    refine h.pass hp fun c hc => ?_
    cases hcut.symm.trans hc
    have hge : ¬s.writeClosedAt < 1 + idx := fun hlt => hge (decide_eq_true hlt)
    rcases hput.cutoff _ hcut with hle | ⟨-, hlt⟩
    · exact hle
    · omega

/-! ## The block of a ticket -/

theorem Open.loadHint (h : Open cfg s m p none) (hk : Knows cfg s m (m.role p) (.loadHint j idx)) :
    Inv cfg (s.setTask p (.hintOffset j idx s.writeBlockHint)) m :=
  h.close ⟨hk, m.hint, ⟨h.mem.floor_le_hint idx, h.mem.hint_le, h.mem.hint⟩, h.mem.hint_lt⟩ rfl

theorem Open.loadWriteBlock (h : Open cfg s m p none)
    (hk : Knows cfg s m (m.role p) (.loadWriteBlock j idx)) :
    Inv cfg (s.setTask p (.assertWriteBlock j idx s.writeBlock)) m :=
  h.close ⟨hk, m.write, h.mem.floor_le_write idx, h.mem.write_le.trans h.mem.read_le, h.mem.write,
    h.mem.write_le_div (h.ledger.read_le_blank hk.2)⟩ rfl

/-- The block that `get_mpsc_write_start_block` returns is not behind the ticket. -/
theorem Open.afterStart (h : Open cfg s m p none)
    (hj : m.role p = j.role idx ∧ m.stage idx = .blank)
    (hat : Find.At cfg.toLayout m.chain (m.floor s idx) idx k b) :
    Inv cfg (s.afterStart p j idx b) m := by
  cases j with
  | put w => exact h.close ⟨hj, k, hat⟩ rfl
  | close => exact h.close ⟨hj, ⟨k, hat⟩, k, hat⟩ rfl

theorem Mem.offset_lt_iff (h : Mem cfg s m) (hk : m.Sees (m.floor s idx) k b) :
    cfg.less .natural (s.offset b) (cfg.reg .natural (1 + idx)) = true ↔
      k ≤ idx / cfg.blockSize := by
  rw [Layout.less_natural, Layout.reg_natural, decide_eq_true_iff,
    h.offset hk (h.first_le_floor idx), Nat.le_div_iff_mul_le cfg.blockSize_pos]
  omega

theorem Open.hintOffset (h : Open cfg s m p none)
    (hk : Knows cfg s m (m.role p) (.hintOffset j idx b)) :
    Inv cfg (if cfg.less .natural (s.offset b) (cfg.reg .natural (1 + idx)) then
      s.afterStart p j idx b else s.setTask p (.loadWriteBlock j idx)) m := by
  obtain ⟨hj, k, hk, -⟩ := hk
  split
  · next hlt => exact h.afterStart hj ⟨hk.1, hk.2.1, hk.2.2, (h.mem.offset_lt_iff hk).mp hlt⟩
  · exact h.close hj rfl

/-- The assertion on the block that a walk starts from. -/
theorem Open.checkStart (h : Open cfg s m p x)
    (hat : Find.At cfg.toLayout m.chain (m.floor s idx) idx k b) :
    Open cfg (s.check (cfg.less .natural (s.offset b) (cfg.reg .natural (1 + idx)))) m p x :=
  h.check fun _ => (h.mem.offset_lt_iff ⟨hat.lo, hat.last, hat.block⟩).mpr hat.le

theorem Open.assertWriteBlock (h : Open cfg s m p none)
    (hk : Knows cfg s m (m.role p) (.assertWriteBlock j idx b)) :
    Inv cfg ((s.check (cfg.less .natural (s.offset b) (cfg.reg .natural (1 + idx)))).afterStart p j
      idx b) m := by
  obtain ⟨hj, k, hat⟩ := hk
  exact (h.checkStart hat).afterStart hj hat

theorem Open.assertObserved (h : Open cfg s m p none)
    (hk : Knows cfg s m (m.role p) (.assertObserved w idx b)) :
    Inv cfg ((s.check (cfg.less .natural (s.offset b) (cfg.reg .natural (1 + idx)))).setTask p
      (.find (.put w) idx b (.load b))) m := by
  obtain ⟨hj, k, hat⟩ := hk
  exact (h.checkStart hat).close ⟨hj, ⟨k, hat⟩, k, hat⟩ rfl

theorem Find.At.inUse {c : Chain} {lo : Nat} (h : Find.At cfg.toLayout c lo idx k b)
    (hlt : idx < s.writeOffset) : InUse cfg s k :=
  .inr (((Nat.le_div_iff_mul_le cfg.blockSize_pos).mp h.le).trans_lt hlt)

/-- A step of `find_block`. -/
theorem Open.findStep (h : Open cfg s m p x) {f : Find} {lo : Nat} (hlo : m.chain.first ≤ lo)
    (hf : f.Ok cfg.toLayout m.chain lo n) :
    ∃ c', m.chain.Extends c' ∧
      Open cfg ({ s with heap := (f.step .natural cfg.toLayout n s.heap).1 }.check
        (f.step .natural cfg.toLayout n s.heap).2.1) { m with chain := c' } p x ∧
      (f.step .natural cfg.toLayout n s.heap).2.2.Ok cfg.toLayout c' lo n := by
  obtain ⟨c', hg, hok, hf'⟩ := Find.step_spec h.mem.ok hlo hf
  exact ⟨c', hg.ext, (h.grow hg).check fun _ => hok, hf'⟩

theorem Open.find {f : Find} {spurious : Bool} (h : Open cfg s m p none)
    (hk : Knows cfg s m (m.role p) (.find j idx b f)) (hpc : s.task p = .find j idx b f)
    (hs : s.taskStep .natural cfg p spurious = some s') : ∃ m', Inv cfg s' m' := by
  obtain ⟨hj, ⟨k, hat⟩, hf⟩ := hk
  obtain ⟨c', hext, hopen, hf'⟩ := h.findStep (h.mem.first_le_floor idx) hf
  have hat' := hat.mono hext le_rfl
  have huse := Find.At.inUse hat (h.ledger.covers_lt (h.ledger.role_covers hj.1))
  rw [State.taskStep, hpc] at hs
  dsimp only at hs
  generalize f.step .natural cfg.toLayout idx s.heap = r at hs hopen hf'
  obtain ⟨heap, ok, f'⟩ := r
  cases f' with
  | found t =>
    cases hs
    obtain ⟨hlo, hlast, ht⟩ := hf'
    cases j with
    | close => exact ⟨_, hopen.close ⟨hj, hlast, ht⟩ rfl⟩
    | put w =>
      cases w with
      | post v =>
        exact ⟨_, hopen.close
          ⟨hj, ⟨hlast, ht⟩, ⟨hlast, ht⟩, k, ⟨hat'.lo, hat'.last, hat'.block⟩, huse⟩ rfl⟩
      | bulk items count =>
        have hpos := (h.ledger.put p _ idx 0 true hj.1).pos
        exact ⟨_, hopen.close ⟨hj, ⟨k, hat'⟩, ⟨hlast, ht⟩, _, hlo, hlast, ht,
          Nat.div_le_div_right (by omega)⟩ rfl⟩
  | load t | next t off | cas t off | check t off =>
    cases hs
    exact ⟨_, hopen.close ⟨hj, ⟨k, hat'⟩, hf'⟩ rfl⟩

theorem Open.findEnd {f : Find} {t : Nat} {spurious : Bool} (h : Open cfg s m p none)
    (hk : Knows cfg s m (m.role p) (.findEnd w idx b t f)) (hpc : s.task p = .findEnd w idx b t f)
    (hs : s.taskStep .natural cfg p spurious = some s') : ∃ m', Inv cfg s' m' := by
  obtain ⟨hj, ⟨k, hat⟩, hb, hf⟩ := hk
  obtain ⟨c', hext, hopen, hf'⟩ := h.findStep (h.mem.first_le_floor idx) hf
  have hat' := hat.mono hext le_rfl
  have hb' : Map.BlockOf cfg { m with chain := c' } idx t := hb.mono hext
  have huse := Find.At.inUse hat (h.ledger.covers_lt (h.ledger.role_covers (j := .put w) hj.1))
  rw [State.taskStep, hpc] at hs
  dsimp only [Layout.reg_natural] at hs
  generalize f.step .natural cfg.toLayout (idx + w.count - 1) s.heap = r at hs hopen hf'
  obtain ⟨heap, ok, f'⟩ := r
  cases f' with
  | found t' =>
    cases hs
    obtain ⟨-, hlast, ht⟩ := hf'
    exact ⟨_, hopen.close
      ⟨hj, hb', ⟨hlast, ht⟩, k, ⟨hat'.lo, hat'.last, hat'.block⟩, huse⟩ rfl⟩
  | load t' | next t' off | cas t' off | check t' off =>
    cases hs
    exact ⟨_, hopen.close ⟨hj, ⟨k, hat'⟩, hb', hf'⟩ rfl⟩

/-! ## The hint -/

theorem Open.hintCurrent {c t : Nat} (h : Open cfg s m p none)
    (hk : Knows cfg s m (m.role p) (.hintCurrent w idx b c t)) :
    Inv cfg (s.setTask p (.hintTarget w idx b c t (s.offset c))) m := by
  obtain ⟨hj, hb, ht, k, hk, hu⟩ := hk
  exact h.close ⟨hj, hb, ht, k, hk, hu, h.mem.offset hk (h.mem.first_le_floor idx)⟩ rfl

/-- The blocks of the ticket are there. -/
theorem Open.startWriting {t : Nat} (h : Open cfg s m p none)
    (hj : m.role p = .put w idx 0 true ∧ m.stage idx = .blank) (hb : m.BlockOf cfg idx b)
    (ht : m.BlockOf cfg (idx + w.count - 1) t) : Inv cfg (s.setTask p (.emplace w idx 0 b)) m :=
  h.close ⟨hj, (h.ledger.put p w idx 0 true hj.1).pos, hb, ht.1⟩ rfl

theorem Open.hintTarget {c t off : Nat} (h : Open cfg s m p none)
    (hk : Knows cfg s m (m.role p) (.hintTarget w idx b c t off)) :
    Inv cfg (s.setTask p (if cfg.less .natural off (s.offset t) then .hintCas w idx b c t
      else .emplace w idx 0 b)) m := by
  obtain ⟨hj, hb, ht, k, hk, -, rfl⟩ := hk
  have hread := h.ledger.read_le_blank hj.2
  have hpos := (h.ledger.put p w idx 0 true hj.1).pos
  have hoff : s.offset t = (idx + w.count - 1) / cfg.blockSize * cfg.blockSize :=
    h.mem.offset ⟨le_rfl, ht.1, ht.2⟩ (h.mem.first_le_div (by omega))
  split
  · next hlt =>
    rw [Layout.less_natural, hoff, decide_eq_true_iff] at hlt
    exact h.close ⟨hj, hb, ht, k, hk, Nat.lt_of_mul_lt_mul_right hlt⟩ rfl
  · exact h.startWriting hj hb ht

theorem Open.hintCas {c t : Nat} {spurious : Bool} (h : Open cfg s m p none)
    (hk : Knows cfg s m (m.role p) (.hintCas w idx b c t)) (hpc : s.task p = .hintCas w idx b c t)
    (hs : s.taskStep .natural cfg p spurious = some s') : ∃ m', Inv cfg s' m' := by
  obtain ⟨hj, hb, ht, k, hk, hlt⟩ := hk
  have hread := h.ledger.read_le_blank hj.2
  have hput := h.ledger.put p w idx 0 true hj.1
  have hpos := hput.pos
  have htop : idx + w.count ≤ s.writeOffset := hput.top
  rw [State.taskStep, hpc] at hs
  dsimp only at hs
  split at hs <;> cases hs
  · next heq =>
    -- the hint is the block that was read, at the position that it had then
    have hhint : m.hint = k := by
      refine h.mem.ok.inj _ _ ⟨h.mem.first.trans h.mem.head_hint, h.mem.hint_le⟩
        ⟨(h.mem.first_le_floor idx).trans hk.1, hk.2.1⟩ ?_
      rw [h.mem.hint, heq.2, hk.2.2]
    have hlast : m.head ≤ (idx + w.count - 1) / cfg.blockSize := h.mem.head_le_div (by omega)
    have hmul := Nat.div_mul_le_self (idx + w.count - 1) cfg.blockSize
    exact ⟨_, (h.setHint (k := (idx + w.count - 1) / cfg.blockSize) (b := t) (by omega)
      ⟨hlast, ht⟩ (.inr (by omega))).startWriting hj hb ht⟩
  · exact ⟨m, h.close ⟨hj, hb, ht, m.hint,
      ⟨h.mem.floor_le_hint idx, h.mem.hint_le, h.mem.hint⟩, h.mem.hint_lt⟩ rfl⟩

/-! ## Items -/

theorem Open.emplace (h : Open cfg s m p none)
    (hk : Knows cfg s m (m.role p) (.emplace w idx k b)) (hpc : s.task p = .emplace w idx k b)
    {spurious : Bool} (hs : s.taskStep .natural cfg p spurious = some s') :
    ∃ m', Inv cfg s' m' := by
  obtain ⟨⟨hp, hblank⟩, hlt, hb, hlast⟩ := hk
  have hread := h.ledger.read_le_blank hblank
  have hnone : (s.elem cfg b (idx + k)).data.isNone = true := by
    rw [hb.elem, h.mem.data _ hread, hblank]
    rfl
  have hopen := (h.build hp hlt hblank hb).check fun _ => hnone
  rw [State.taskStep, hpc] at hs
  cases hs
  refine ⟨_, hopen.close ⟨⟨Map.role_setRole_self, ?_⟩, hlt, hb, hlast⟩ rfl⟩
  exact Map.stage_setStage.trans (if_pos rfl)

/-- The loop of `post_bulk` goes on or ends. -/
theorem Open.afterItem (h : Open cfg s m p none)
    (hp : m.role p = .put w idx k true ∧ (k < w.count → m.stage (idx + k) = .blank))
    (hb : k < w.count → m.BlockOf cfg (idx + k) b)
    (hlast : (idx + w.count - 1) / cfg.blockSize ≤ m.chain.last) :
    ∃ m', Inv cfg (s.afterItem .natural cfg p w idx k b) m' := by
  obtain ⟨hp, hblank⟩ := hp
  have hle := (h.ledger.put p w idx k true hp).le
  rw [State.afterItem, Layout.reg_natural, Layout.reg_natural]
  split
  · next heq =>
    obtain rfl : k = w.count := Nat.add_left_cancel heq
    exact h.finish hp (h.ledger.postOk_true hp)
  · next hne =>
    have hlt : k < w.count := Nat.lt_of_le_of_ne hle fun heq => hne (by rw [heq])
    exact ⟨m, h.close ⟨⟨hp, hblank hlt⟩, hlt, hb hlt, hlast⟩ rfl⟩

/-- The call goes on after item `k` has been published. -/
theorem Open.afterWrite (h : Open cfg s m p none)
    (hp : m.role p = .put w idx (k + 1) true ∧
      (k + 1 < w.count → m.stage (idx + (k + 1)) = .blank)) (hk : k < w.count)
    (hb : m.BlockOf cfg (idx + k) b)
    (hlast : (idx + w.count - 1) / cfg.blockSize ≤ m.chain.last) :
    ∃ m', Inv cfg (s.afterWrite .natural cfg p w idx k b) m' := by
  cases w with
  | post v =>
    obtain rfl : k = 0 := Nat.lt_one_iff.mp hk
    exact h.finish hp.1 (h.ledger.postOk_true hp.1)
  | bulk items count =>
    rw [State.afterWrite]
    split
    · next hslot => exact ⟨m, h.close ⟨hp, Nat.succ_pos k, hslot, hb, hlast⟩ rfl⟩
    · next hslot =>
      refine h.afterItem hp (fun _ => ?_) hlast
      have hsame : (idx + (k + 1)) / cfg.blockSize = (idx + k) / cfg.blockSize :=
        Nat.succ_div_of_not_dvd fun hdvd => hslot (Nat.mod_eq_zero_of_dvd hdvd)
      rw [Map.BlockOf, hsame]
      exact hb

theorem Open.publishItem (h : Open cfg s m p none)
    (hk : Knows cfg s m (m.role p) (.publish w idx k b)) (hpc : s.task p = .publish w idx k b)
    {spurious : Bool} (hs : s.taskStep .natural cfg p spurious = some s') :
    ∃ m', Inv cfg s' m' := by
  obtain ⟨⟨hp, hbuilt⟩, hlt, hb, hlast⟩ := hk
  have hput := h.ledger.put p w idx k true hp
  have hread : s.readOffset ≤ idx + k := hput.read_le h.ledger hlt
  have hopen := h.publish hp hlt hbuilt hb
  have hrole : ((m.setStage (idx + k) (.ready (w.item k))).setRole p
      (.put w idx (k + 1) true)).role p = .put w idx (k + 1) true := Map.role_setRole_self
  have hnext : k + 1 < w.count → ((m.setStage (idx + k) (.ready (w.item k))).setRole p
      (.put w idx (k + 1) true)).stage (idx + (k + 1)) = .blank := fun hk =>
    (Map.stage_setStage.trans (if_neg (by omega))).trans (hput.todo (k + 1) (Nat.lt_succ_self k) hk)
  have hflags := h.flags hread (fun v hv => by cases hbuilt.symm.trans hv)
    (fun hv => by cases hbuilt.symm.trans hv)
  rw [State.taskStep, hpc] at hs
  dsimp only [Layout.reg_natural] at hs
  rw [hb.elem] at hs
  rcases hflags with ⟨hf, hnone⟩ | ⟨hf, b', hwait⟩
  · -- nobody waits for the item
    have hdone := (hopen.drop none fun n b e hc hn => by
      cases hn
      exact hnone b e hc).afterWrite ⟨hrole, hnext⟩ hlt hb hlast
    rw [hf] at hs
    split at hs <;> cases hs <;> exact hdone
  · have hk := h.consumer
    rw [hwait] at hk
    rw [hf, if_pos hk.2.2.2.2] at hs
    cases hs
    exact ⟨_, hopen.close ⟨⟨hrole, hnext⟩, hlt, hb, hlast, ⟨b', hwait⟩, rfl⟩ rfl⟩

/-- The consumer that waits for a published index is resumed. -/
theorem Open.resume {frame : Nat} {e : Bool} (h : Open cfg s m p (some n))
    (hw : Waits s n frame e) (hcov : (m.role p).Covers n)
    (hstage : if e then m.stage n = .mark else ∃ v, m.stage n = .ready v) :
    Open cfg (s.resumeConsumer frame) m p none := by
  obtain ⟨⟨b, hc⟩, rfl⟩ := hw
  have hk := h.consumer
  rw [hc] at hk
  obtain ⟨hcalm, hlooks, hflags, -, -⟩ := hk
  rw [State.resumeConsumer, hc]
  dsimp only
  rw [if_pos rfl]
  refine h.setConsumer hc hcov rfl ⟨{ hcalm with }, ?_, hlooks, hstage⟩ (fun i b e hne => by cases hne)
  have hwait : (m.stage n).waitFlags s.frame = (m.stage n).flags := by
    cases e with
    | true =>
      rw [show m.stage n = .mark from hstage]
      rfl
    | false =>
      obtain ⟨v, hv⟩ : ∃ v, m.stage n = .ready v := hstage
      rw [hv]
      rfl
  rw [hwait, hlooks.1] at hflags
  exact hflags

theorem Open.resumeItem {frame : Nat} (h : Open cfg s m p (some (idx + k)))
    (hk : Knows cfg s m (m.role p) (.resumeConsumer w idx k b frame)) :
    ∃ m', Inv cfg ((s.resumeConsumer frame).afterWrite .natural cfg p w idx k b) m' := by
  obtain ⟨hp, hlt, hb, hlast, hwait⟩ := hk
  have hdone := (h.ledger.put p w idx (k + 1) true hp.1).done k (Nat.lt_succ_self k)
  refine (h.resume hwait ?_ ?_).afterWrite hp hlt hb hlast
  · rw [hp.1]
    exact Role.covers_put hlt
  · rw [if_neg (by simp)]
    exact ⟨_, hdone⟩

theorem Open.nextBlock (h : Open cfg s m p none)
    (hk : Knows cfg s m (m.role p) (.nextBlock w idx k b)) (hpc : s.task p = .nextBlock w idx k b)
    {spurious : Bool} (hs : s.taskStep .natural cfg p spurious = some s') :
    ∃ m', Inv cfg s' m' := by
  obtain ⟨hp, hpos, hslot, hb, hlast⟩ := hk
  have hput := h.ledger.put p w idx k true hp.1
  have hle := hput.le
  have hB := cfg.blockSize_pos
  have hmod : (idx + k) % cfg.blockSize = 0 := hslot
  have hdvd := Nat.dvd_of_mod_eq_zero hmod
  have hdiv : (idx + k) / cfg.blockSize = (idx + k - 1) / cfg.blockSize + 1 := by
    obtain ⟨i, hi⟩ : ∃ i, idx + k = i + 1 := ⟨idx + k - 1, by omega⟩
    rw [hi, Nat.add_sub_cancel, Nat.succ_div_of_dvd (hi ▸ hdvd)]
  have hnext : k < w.count → (s.heap.block b).next =
      some (m.chain.block ((idx + k) / cfg.blockSize)) := by
    intro hlt
    have hread : s.readOffset ≤ idx + k := hput.read_le h.ledger hlt
    have hmul : (idx + k) / cfg.blockSize * cfg.blockSize = idx + k := Nat.div_mul_cancel hdvd
    have hend : (idx + k) / cfg.blockSize ≤ (idx + w.count - 1) / cfg.blockSize :=
      Nat.div_le_div_right (by omega)
    have hwrite : m.write ≤ (idx + k - 1) / cfg.blockSize := by
      rcases h.mem.write_lt with h0 | hw
      · exact h0.trans_le (Nat.zero_le _)
      · have := Nat.lt_of_mul_lt_mul_right (hw.trans_le (hread.trans hmul.ge))
        omega
    have hfirst := h.mem.first.trans h.mem.head_le
    have hok := h.mem.ok.next _ ⟨hfirst.trans hwrite, hb.1⟩
    rw [hb.2, if_neg (by omega), ← hdiv] at hok
    exact hok
  rw [State.taskStep, hpc] at hs
  dsimp only [Layout.reg_natural] at hs
  split at hs
  · next t ht =>
    cases hs
    refine h.afterItem hp (fun hlt => ?_) hlast
    have heq := (hnext hlt).symm.trans ht
    have hend : (idx + k) / cfg.blockSize ≤ (idx + w.count - 1) / cfg.blockSize :=
      Nat.div_le_div_right (by omega)
    exact ⟨hend.trans hlast, Option.some.inj heq⟩
  · next hnone =>
    have hend : k = w.count := by
      by_contra hne
      cases hnone.symm.trans (hnext (by omega))
    subst hend
    have hcheck := h.check (c := !cfg.less .natural (idx + w.count) (idx + w.count)) fun _ => by simp
    simp only [↓reduceIte, Option.some.injEq] at hs
    exact hs ▸ hcheck.finish hp.1 (hcheck.ledger.postOk_true hp.1)

/-! ## `close` -/

/-- `close()` returns. -/
theorem Open.finishClose (h : Open cfg s m p none) (hp : m.role p = .out) :
    Inv cfg (s.returnClose p) m := by
  have htask : (s.returnClose p).task p = .idle := Function.update_self ..
  refine h.returnClose.inv ?_ (by rw [htask]; rfl)
  rw [htask]
  exact hp

theorem Open.closeCas (h : Open cfg s m p none) (hp : m.role p = .out) :
    ∃ m', Inv cfg (if s.closed then s.returnClose p
      else { s with closed := true }.setTask p .closeTicket) m' := by
  split
  · exact ⟨m, h.finishClose hp⟩
  · next hc => exact ⟨_, (h.win hp (Bool.not_eq_true _ ▸ hc)).close Map.role_setRole_self rfl⟩

theorem Open.closeTicket (h : Open cfg s m p none) (hp : m.role p = .winner) :
    ∃ m', Inv cfg ({ s with writeOffset := cfg.reg .natural (s.writeOffset + 1) }.setTask p
      (.storeClosedAt s.writeOffset)) m' :=
  ⟨_, (h.takeCut hp).close ⟨Function.update_self .., h.ledger.unused _ le_rfl⟩ rfl⟩

theorem Open.publishMark (h : Open cfg s m p none)
    (hk : Knows cfg s m (m.role p) (.exchangeClosed idx b)) (hpc : s.task p = .exchangeClosed idx b)
    {spurious : Bool} (hs : s.taskStep .natural cfg p spurious = some s') :
    ∃ m', Inv cfg s' m' := by
  obtain ⟨⟨hp, hblank⟩, hb⟩ := hk
  have hread := h.ledger.read_le_blank hblank
  have hopen := h.setMark hp hblank hb
  have hmark : ((m.setStage idx .mark).setRole p (.closer idx)).stage idx = .mark :=
    Map.stage_setStage.trans (if_pos rfl)
  have hflags := h.flags hread (fun v hv => by cases hblank.symm.trans hv)
    (fun hv => by cases hblank.symm.trans hv)
  rw [State.taskStep, hpc] at hs
  dsimp only at hs
  rw [hb.elem] at hs
  rcases hflags with ⟨hf, hnone⟩ | ⟨hf, b', hwait⟩
  · rw [hf] at hs
    cases hs
    have hdone := hopen.drop none fun n b e hc hn => by
      cases hn
      exact hnone b e hc
    exact ⟨_, (hdone.leave Map.role_setRole_self hmark).finishClose Map.role_setRole_self⟩
  · rw [hf] at hs
    cases hs
    exact ⟨_, hopen.close ⟨⟨Map.role_setRole_self, hmark⟩, ⟨b', hwait⟩, rfl⟩ rfl⟩

theorem Open.setElemNull {frame : Nat} (h : Open cfg s m p (some idx))
    (hk : Knows cfg s m (m.role p) (.elemNull idx frame)) (hpc : s.task p = .elemNull idx frame)
    {spurious : Bool} (hs : s.taskStep .natural cfg p spurious = some s') : Inv cfg s' m := by
  obtain ⟨⟨hp, hmark⟩, ⟨b, hc⟩, rfl⟩ := hk
  have hk := h.consumer
  rw [hc] at hk
  obtain ⟨hcalm, hlooks, hflags, -, hcan⟩ := hk
  have hcov : (m.role p).Covers idx := by
    rw [hp]
    rfl
  have hopen := h.setConsumer (y := some idx) (c := .suspended idx b true) hc hcov rfl
    ⟨{ hcalm with }, hlooks, hflags, fun _ => hmark, hcan⟩ fun i b e heq => by
      cases heq
      rfl
  have hinv : Inv cfg (State.setTask _ p (.closeResume idx s.frame)) m :=
    hopen.close ⟨⟨hp, hmark⟩, ⟨b, rfl⟩, rfl⟩ rfl
  rw [State.taskStep, hpc] at hs
  dsimp only at hs
  rw [show (s.setTask p (.closeResume idx s.frame)).consumer = .suspended idx b false from hc] at hs
  dsimp only at hs
  simp only [State.setTask, ↓reduceIte, Option.some.injEq] at hs
  exact hs ▸ hinv

theorem Open.resumeMark {frame : Nat} (h : Open cfg s m p (some idx))
    (hk : Knows cfg s m (m.role p) (.closeResume idx frame)) :
    ∃ m', Inv cfg ((s.resumeConsumer frame).returnClose p) m' := by
  obtain ⟨⟨hp, hmark⟩, hwait⟩ := hk
  have hcov : (m.role p).Covers idx := by
    rw [hp]
    rfl
  exact ⟨_, ((h.resume hwait hcov hmark).leave hp hmark).finishClose Map.role_setRole_self⟩

/-! ## All steps -/

/-- A step of a task keeps the invariant. -/
theorem Inv.taskStep (h : Inv cfg s m) {spurious : Bool}
    (hs : s.taskStep .natural cfg p spurious = some s') : ∃ m', Inv cfg s' m' := by
  have hk := h.task p
  have ho := h.open p
  cases hpc : s.task p <;> rw [hpc] at hk ho
  case find j idx b f => exact Open.find ho hk hpc hs
  case findEnd w idx b t f => exact Open.findEnd ho hk hpc hs
  case hintCas w idx b c t => exact Open.hintCas ho hk hpc hs
  case emplace w idx k b => exact Open.emplace ho hk hpc hs
  case publish w idx k b => exact Open.publishItem ho hk hpc hs
  case nextBlock w idx k b => exact Open.nextBlock ho hk hpc hs
  case exchangeClosed idx b => exact Open.publishMark ho hk hpc hs
  case elemNull idx frame => exact ⟨m, Open.setElemNull ho hk hpc hs⟩
  all_goals
    rw [State.taskStep, hpc] at hs
    dsimp only at hs
  case idle => cases hs
  case fetchTicket w =>
    cases hs
    exact Open.fetchTicket ho hk
  case loadClosed w idx =>
    cases hs
    exact Open.loadClosed ho hk
  case spinReady w idx =>
    cases hs
    exact ⟨m, Open.spinReady ho hk⟩
  case loadClosedAt w idx =>
    rw [← apply_ite some] at hs
    cases hs
    exact Open.loadClosedAt ho hk
  case loadHint j idx =>
    cases hs
    exact ⟨m, Open.loadHint ho hk⟩
  case hintOffset j idx b =>
    rw [← apply_ite some] at hs
    cases hs
    exact ⟨m, Open.hintOffset ho hk⟩
  case loadWriteBlock j idx =>
    cases hs
    exact ⟨m, Open.loadWriteBlock ho hk⟩
  case assertWriteBlock j idx b =>
    cases hs
    exact ⟨m, Open.assertWriteBlock ho hk⟩
  case assertObserved w idx b =>
    cases hs
    exact ⟨m, Open.assertObserved ho hk⟩
  case hintCurrent w idx b c t =>
    cases hs
    exact ⟨m, Open.hintCurrent ho hk⟩
  case hintTarget w idx b c t off =>
    cases hs
    exact ⟨m, Open.hintTarget ho hk⟩
  case resumeConsumer w idx k b frame =>
    cases hs
    exact Open.resumeItem ho hk
  case closeCas =>
    rw [← apply_ite some] at hs
    cases hs
    exact Open.closeCas ho hk
  case closeTicket =>
    cases hs
    exact Open.closeTicket ho hk
  case storeClosedAt idx =>
    cases hs
    exact ⟨m, (ho.storeClosedAt hk.1).close ⟨hk, rfl⟩ rfl⟩
  case storeReady idx =>
    cases hs
    exact ⟨m, (ho.storeReady hk.1.1 hk.2).close hk.1 rfl⟩
  case closeResume idx frame =>
    cases hs
    exact Open.resumeMark ho hk

end CoroUtil.MpscUnbounded
