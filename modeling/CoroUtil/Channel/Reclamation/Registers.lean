import Mathlib.Data.List.Perm.Subperm
import CoroUtil.Channel.Reclamation.Bounds
import CoroUtil.Blocks.Wrap

/-!
# The channel on registers

While the indices and the elements that have been allocated are less than a quarter of
the range of a register (`Window`), a register is the number that it stands for, and a
comparison of two registers is one of the numbers: `step_wrapping`.  So `Reach.natural`
takes what holds on natural numbers to the registers of the code.
-/

namespace CoroUtil.Channel

open CoroUtil.General CoroUtil.Blocks

variable {V : Type} {cfg : Config} {s s' : State V} {l : List Nat} {m : Map} {a : Plan} {t u : Tid}
  {z n b idx : Nat}

theorem Config.four_inactive : 4 * cfg.inactive = 2 ^ cfg.bits := by
  have hbits := cfg.log_lt
  rw [Config.inactive, show 4 = 2 ^ 2 from rfl, ← Nat.pow_add]
  congr 1
  omega

theorem Config.two_inactive : 2 * cfg.inactive = 2 ^ (cfg.bits - 1) := by
  have hbits := cfg.log_lt
  rw [Config.inactive, ← Nat.pow_succ']
  congr 1
  omega

theorem Config.inactive_pos : 0 < cfg.inactive := Nat.two_pow_pos _

theorem Config.blockSize_lt_inactive : cfg.blockSize < cfg.inactive := by
  have hlog := cfg.log_le
  exact Nat.pow_lt_pow_right (by omega) (by omega)

theorem Config.reg_eq (hn : n < 4 * cfg.inactive) : cfg.reg .wrapping n = cfg.reg .natural n :=
  Layout.reg_of_lt (by rwa [← Config.four_inactive])

theorem Config.less_eq {x y : Nat} (hx : x < 2 * cfg.inactive) (hy : y < 2 * cfg.inactive) :
    cfg.less .wrapping x y = cfg.less .natural x y :=
  Layout.less_of_lt (by rwa [← Config.two_inactive]) (by rwa [← Config.two_inactive])

/-- The indices that have been taken and the elements that have been allocated are
together less than a quarter of the range of a register. -/
structure Window (cfg : Config) (s : State V) : Prop where
  write : s.writeOffset + s.heap.fresh * cfg.blockSize < cfg.inactive
  read : s.readOffset < cfg.inactive
  hazPtr : s.hazPtrCounter < 2 ^ cfg.bits
  reclaim : s.reclaimCounter < 2 ^ cfg.bits

namespace Sight

variable {S : Sight}

/-- No block is in two places. -/
theorem Inv.blocks_le (h : Inv cfg l S m a) :
    m.chain.last + 1 + (limbo S.run).length ≤ m.lo + S.heap.fresh := by
  have hle := h.heaps.ok.le
  have hlo := h.heaps.lo
  have hlimbo : (limbo S.run).Nodup ∧ (∀ k, m.chain.Has k → m.chain.block k ∉ limbo S.run) ∧
      ∀ p ∈ limbo S.run, p < S.heap.fresh := by
    have hruns := h.runs
    cases hrun : S.run with
    | none => simp [limbo]
    | some x =>
      obtain ⟨z, idx, r⟩ := x
      rw [hrun] at hruns
      cases r with
      | move r => exact hruns.2.2.1.limbo
      | _ => simp [limbo]
  have hnodup : (m.chain.all ++ limbo S.run).Nodup := by
    refine List.nodup_append.mpr ⟨h.heaps.ok.nodup_all, hlimbo.1, fun p hp q hq heq => ?_⟩
    obtain ⟨k, hk, rfl⟩ := h.heaps.ok.mem_all.mp hp
    exact hlimbo.2.1 k hk (heq ▸ hq)
  have hsub : m.chain.all ++ limbo S.run ⊆ List.range S.heap.fresh := by
    intro p hp
    rw [List.mem_range]
    rcases List.mem_append.mp hp with hp | hp
    · obtain ⟨k, hk, rfl⟩ := h.heaps.ok.mem_all.mp hp
      exact h.heaps.ok.fresh k hk
    · exact hlimbo.2.2 p hp
  have hlen := (hnodup.subperm hsub).length_le
  have hall : m.chain.all.length = m.chain.last + 1 - m.chain.first := by
    rw [Chain.all, Chain.span, List.length_map, List.length_range']
  rw [List.length_append, List.length_range, hall] at hlen
  have hfirst := hlo.1
  omega

end Sight

open Sight

/-- The offset of the last block, with those that are put behind it. -/
theorem Window.last (hw : Window cfg s) (h : Inv cfg l s.sight m a) :
    (m.chain.last + 1 + (limbo s.sight.run).length) * cfg.blockSize < cfg.inactive := by
  have hcount := Nat.mul_le_mul_right cfg.blockSize h.blocks_le
  have hlo := h.heaps.off .write
  have hwrite := hw.write
  rw [Nat.add_mul m.lo] at hcount
  change m.lo * cfg.blockSize ≤ s.writeOffset at hlo
  change _ ≤ m.lo * cfg.blockSize + s.heap.fresh * cfg.blockSize at hcount
  omega

/-! ## The steps -/

namespace State

variable {s₁ : State V} {w : Put V} {k : Nat}

theorem leave_of_lt (hn : n < cfg.inactive) :
    s₁.leave .wrapping cfg t z n = s₁.leave .natural cfg t z n := by
  rw [leave, leave, Config.reg_eq (by omega)]

theorem afterItem_of_lt (hle : idx + w.count < cfg.inactive) (hk : k ≤ w.count) :
    s₁.afterItem .wrapping cfg t z w idx k b = s₁.afterItem .natural cfg t z w idx k b := by
  rw [afterItem, afterItem, Config.reg_eq (n := idx + k) (by omega),
    Config.reg_eq (n := idx + w.count) (by omega)]

theorem afterWrite_of_lt (hle : idx + w.count < cfg.inactive) (hk : k < w.count) :
    s₁.afterWrite .wrapping cfg t z w idx k b = s₁.afterWrite .natural cfg t z w idx k b := by
  cases w with
  | post v => rfl
  | bulk items count =>
    rw [afterWrite, afterWrite, afterItem_of_lt hle hk, Config.reg_eq (n := idx + (k + 1)) (by
      change k < count at hk
      change idx + count < cfg.inactive at hle
      omega)]

theorem afterWake_of_lt {fin : Nat} (hi : idx + 1 < cfg.inactive) (hfin : fin < cfg.inactive) :
    s₁.afterWake .wrapping cfg t idx fin b = s₁.afterWake .natural cfg t idx fin b := by
  rw [afterWake, afterWake, Config.reg_eq (n := idx + 1) (by omega), Layout.reg_natural,
    Config.less_eq (by omega) (by omega)]

end State

/-! ### `try_reclaim_blocks` -/

section Reclaim

variable {x : Scan} {new curr : Nat} {side : Side}

/-- Its variables are less than half the range. -/
structure Scan.Low (cfg : Config) (x : Scan) : Prop where
  old : x.oldOff < cfg.inactive
  protect : x.protect < 2 * cfg.inactive

theorem Scan.Low.scans_eq (hx : x.Low cfg) :
    State.scans .wrapping cfg x = State.scans .natural cfg x :=
  Config.less_eq (Nat.lt_of_lt_of_le hx.old (by omega)) hx.protect

theorem Scan.Low.endMin_eq (hx : x.Low cfg) :
    State.endMin .wrapping cfg x = State.endMin .natural cfg x := by
  have hold := hx.old
  rw [State.endMin, State.endMin, Config.reg_eq (n := 1 + x.oldOff) (by omega), Layout.reg_natural,
    Config.less_eq hx.protect (by omega)]

theorem Scan.Low.afterMin_eq (hx : x.Low cfg) :
    State.afterMin .wrapping cfg z x n = State.afterMin .natural cfg z x n := by
  rw [State.afterMin, State.afterMin, hx.endMin_eq, hx.scans_eq]

theorem Scan.Low.afterAdv_eq (hx : x.Low cfg) :
    State.afterAdv .wrapping cfg z x new n = State.afterAdv .natural cfg z x new n := by
  rw [State.afterAdv, State.afterAdv, hx.scans_eq]

theorem Scan.Low.afterSide_eq (hx : x.Low cfg) :
    State.afterSide .wrapping cfg z x new curr n side =
      State.afterSide .natural cfg z x new curr n side := by
  cases side with
  | write => rfl
  | read => exact hx.afterAdv_eq

theorem Scan.Low.keepMin (hx : x.Low cfg) {src : Nat} (hsrc : src < 2 * cfg.inactive) :
    State.keepMin .wrapping cfg x src = State.keepMin .natural cfg x src ∧
      (State.keepMin .natural cfg x src).Low cfg := by
  constructor
  · rw [State.keepMin, State.keepMin, Config.less_eq hsrc hx.protect]
  · rw [State.keepMin]
    split
    · exact ⟨hx.old, hsrc⟩
    · exact hx

end Reclaim

theorem Window.write_lt (hw : Window cfg s) : s.writeOffset < cfg.inactive :=
  Nat.lt_of_le_of_lt (Nat.le_add_right ..) hw.write

/-- `find_block` for an index that has been taken. -/
theorem Config.find_eq (heap : Heap Flags V) {f : Find} {lo i : Nat}
    (hf : f.Ok cfg.toLayout m.chain lo i) (hi : i < cfg.inactive) :
    f.step .wrapping cfg.toLayout i heap = f.step .natural cfg.toLayout i heap := by
  have hB := cfg.blockSize_lt_inactive
  refine Find.step_of_lt hf ?_
  rw [← Config.four_inactive]
  omega

/-- The reclaim of a task, and what its steps rely on. -/
theorem Sight.Inv.site (h : Inv cfg l s.sight m a) {k : Read} {r : TryReclaim}
    (hpc : (s.token t).pc = .read z k (.reclaim idx b r)) :
    s.sight.run = some (z, idx, r) ∧ Site cfg l s.sight m a z idx r := by
  have ht : s.sight.task t = .reclaims z idx b r := State.task_of_pc hpc
  have hlock := (h.lock t).mp (by rw [ht]; rfl)
  have hrun : s.sight.run = some (z, idx, r) := by
    rw [Sight.run, hlock]
    change (s.sight.task t).run = _
    rw [ht]
    rfl
  have hruns := h.runs
  rw [hrun] at hruns
  exact ⟨hrun, hruns.2.2.1⟩

section Steps

variable (hw : Window cfg s) (h : Inv cfg l s.sight m a)
include hw h

theorem Window.lo : m.lo * cfg.blockSize < cfg.inactive := by
  have hlo : m.lo * cfg.blockSize ≤ s.writeOffset := h.heaps.off .write
  have hwrite := hw.write
  omega

/-- The blocks that the reclaim looks at. -/
theorem Window.offset (hrun : limbo s.sight.run = []) (hlt : b < s.heap.fresh) :
    s.offset b < cfg.inactive := by
  have hlast := hw.last h
  rw [hrun] at hlast
  rcases h.heaps.mem b hlt with hmem | ⟨k, hk, hkb⟩
  · rw [hrun] at hmem
    cases hmem
  · have hoff := h.heaps.ok.offset k hk
    rw [hkb] at hoff
    change s.offset b = k * cfg.blockSize at hoff
    rw [hoff]
    refine Nat.lt_of_le_of_lt (Nat.mul_le_mul_right _ ?_) hlast
    exact hk.2.trans (Nat.le_add_right _ 1)

theorem Window.scans {x : Scan} (hx : Scans cfg s.sight m x) : x.Low cfg where
  old := by
    rw [hx.oldOff]
    exact hw.lo h
  protect := by
    have hle : x.protect ≤ s.writeOffset := hx.le
    have hlt := hw.write_lt
    omega

theorem Window.reclaimStep {k : Read} {r : TryReclaim} (hb : s.Bounds cfg)
    (hpc : (s.token t).pc = .read z k (.reclaim idx b r))
    (hw' : Window cfg (s.reclaimStep .natural cfg z r).1) :
    s.reclaimStep .wrapping cfg z r = s.reclaimStep .natural cfg z r := by
  obtain ⟨hrun, hsite⟩ := h.site hpc
  have hoffset : ∀ {b}, limbo (some (z, idx, r)) = [] → b < s.heap.fresh →
    s.offset b < cfg.inactive :=
    fun hnil => hw.offset h (by rw [hrun, hnil])
  have hnew : ∀ {new}, New cfg s.sight m a new → s.offset new < cfg.inactive := fun hn => by
    have hoff : s.sight.offset _ = _ := h.at_offset hn.at_ hn.le
    rw [show s.offset _ = s.sight.offset _ from rfl, hoff]
    exact Nat.lt_of_le_of_lt (hn.off .write) hw.write_lt
  have hactive : ∀ {z}, (s.hazard z).activeOffset < 2 * cfg.inactive := fun {z} => by
    have hle := hb.active z
    have hwrite := hw.write_lt
    have hread := hw.read
    omega
  cases r with
  | loadHead | loadCount | minNext | advNext | advOffset | storeHead | check | rollback | newOffset
  | storeOffset | done => rfl
  | oldOffset protect old count =>
    obtain ⟨hle, hdvd, rfl, -⟩ := hsite
    have hoff : s.sight.offset (m.chain.block m.lo) = m.lo * cfg.blockSize :=
      h.at_offset ⟨h.heaps.lo.2, rfl⟩ le_rfl
    have hx : Scan.Low cfg ⟨m.chain.block m.lo, s.offset (m.chain.block m.lo), protect, count⟩ := by
      refine ⟨?_, ?_⟩
      · change s.sight.offset (m.chain.block m.lo) < cfg.inactive
        rw [hoff]
        exact hw.lo h
      · have hlt := hw.write_lt
        change protect ≤ s.writeOffset at hle
        change protect < 2 * cfg.inactive
        omega
    rw [State.reclaimStep, State.reclaimStep, hx.scans_eq, hx.endMin_eq]
  | minOwned x curr n =>
    rw [State.reclaimStep, State.reclaimStep, (hw.scans h hsite.1).afterMin_eq]
  | minActive x curr n =>
    obtain ⟨heq, hx⟩ := (hw.scans h hsite.1).keepMin (hactive (z := curr))
    rw [State.reclaimStep, State.reclaimStep, heq, hx.afterMin_eq]
  | walk x new again =>
    obtain ⟨hx, hn, -⟩ := hsite
    have hscans := hw.scans h hx
    rw [State.reclaimStep, State.reclaimStep, hscans.scans_eq,
      Config.less_eq (Nat.lt_of_lt_of_le (hnew hn) (by omega)) hscans.protect]
  | walkNext x new again => rfl
  | advOwned x new curr n =>
    rw [State.reclaimStep, State.reclaimStep, (hw.scans h hsite.1.scans).afterAdv_eq]
  | advBlock x new curr n side =>
    rw [State.reclaimStep, State.reclaimStep, (hw.scans h hsite.1.scans).afterSide_eq]
  | advNewOffset x new curr n side b boff =>
    obtain ⟨had, -, hlt, rfl⟩ := hsite
    have hboff : s.sight.offset b < cfg.inactive := hoffset rfl hlt
    rw [State.reclaimStep, State.reclaimStep, (hw.scans h had.scans).afterSide_eq,
      Config.less_eq (Nat.lt_of_lt_of_le hboff (by omega))
        (Nat.lt_of_lt_of_le (hnew had.new) (by omega))]
  | advCas x new curr n side b =>
    rw [State.reclaimStep, State.reclaimStep]
    split
    · rfl
    · cases s.getBlock curr side with
      | none => exact congrArg (Prod.mk s) (hw.scans h hsite.1.scans).afterSide_eq
      | some b => rfl
  | advFailed x new curr n side b =>
    obtain ⟨had, -, hlt⟩ := hsite
    obtain ⟨heq, -⟩ := (hw.scans h had.scans).keepMin
      (Nat.lt_of_lt_of_le (hoffset rfl hlt) (by omega))
    rw [State.reclaimStep, State.reclaimStep, heq]
  | advActive x new curr n side =>
    obtain ⟨heq, hx⟩ := (hw.scans h hsite.1.scans).keepMin (hactive (z := curr))
    rw [State.reclaimStep, State.reclaimStep, heq, hx.afterSide_eq]
  | reduce x new =>
    obtain ⟨hx, hn, -⟩ := hsite
    rw [State.reclaimStep, State.reclaimStep, Config.less_eq (hw.scans h hx).protect
      (Nat.lt_of_lt_of_le (hnew hn) (by omega))]
  | assertRead x new =>
    have hread := hw.read
    rw [State.reclaimStep, State.reclaimStep, Config.reg_eq (n := 1 + s.readOffset) (by omega),
      Layout.reg_natural, Config.less_eq (Nat.lt_of_lt_of_le (hnew hsite.2) (by omega)) (by omega)]
  | assertWrite x new =>
    have hwrite := hw.write_lt
    rw [State.reclaimStep, State.reclaimStep, Config.reg_eq (n := 1 + s.writeOffset) (by omega),
      Layout.reg_natural, Config.less_eq (Nat.lt_of_lt_of_le (hnew hsite.2) (by omega)) (by omega)]
  | count x new =>
    have hcount : s.reclaimCounter + 1 < 2 ^ cfg.bits := hw'.reclaim
    rw [State.reclaimStep, State.reclaimStep,
      Config.reg_eq (by rw [Config.four_inactive]; exact hcount)]
  | move r =>
    have hlast := hw.last h
    rw [hrun] at hlast
    have hlt : (m.chain.last + 1 + r.limbo.length) * cfg.blockSize < 2 ^ cfg.bits := by
      rw [← Config.four_inactive]
      exact Nat.lt_of_lt_of_le hlast (by omega)
    have hstep : r.step .wrapping cfg.toLayout s.heap s.tailBlock =
        r.step .natural cfg.toLayout s.heap s.tailBlock := Reclaim.step_of_lt h.heaps.ok hsite hlt
    rw [State.reclaimStep, State.reclaimStep, hstep]

theorem Window.acquireStep {c : Call V} {q : Acquire} (hpc : (s.token t).pc = .acquire c q)
    (hw' : Window cfg (s.acquireStep .natural cfg t c q)) :
    s.acquireStep .wrapping cfg t c q = s.acquireStep .natural cfg t c q := by
  cases q with
  | initActive rc p off head =>
    have hle : off ≤ s.writeOffset := h.initActive_le (t := t) (State.task_of_pc hpc)
    have hlt := hw.write_lt
    rw [State.acquireStep, State.acquireStep, Config.reg_eq (n := off + cfg.inactive) (by omega)]
  | count rc p =>
    have hcount : s.hazPtrCounter + 1 < 2 ^ cfg.bits := hw'.hazPtr
    rw [State.acquireStep, State.acquireStep,
      Config.reg_eq (by rw [Config.four_inactive]; exact hcount)]
  | _ => rfl

theorem Window.putStep (hb : s.Bounds cfg) {w : Put V} {q : PutPc}
    (hpc : (s.token t).pc = .put z w q)
    (hw' : Window cfg (s.putStep .natural cfg t z w q)) :
    s.putStep .wrapping cfg t z w q = s.putStep .natural cfg t z w q := by
  have hlt := hw.write_lt
  have hcounts := hb.pc t id
  rw [hpc] at hcounts
  have hend : ∀ {idx}, q.idx? = some idx → idx + w.count < cfg.inactive := fun hidx =>
    Nat.lt_of_le_of_lt (hcounts.1 _ hidx) hlt
  have hholds : Holds cfg s.sight m z (q.phase w) :=
    h.holds t z _ (by rw [State.task_of_pc hpc]; rfl)
  cases q with
  | protect | loadBlock | loadClosed | spinClosed | storeBlock => rfl
  | fetchTicket act =>
    have hlt' : s.writeOffset + w.count < cfg.inactive := hw'.write_lt
    rw [State.putStep, State.putStep, Config.reg_eq (by omega)]
  | blockOffset act idx b =>
    have hidx := hend rfl
    obtain ⟨hact, hat⟩ := hholds.knows
    have hle := (hholds.idx idx rfl).1
    have hboff : s.offset b ≤ idx := by
      rw [show s.offset b = s.sight.offset b from rfl, h.at_offset hat (hholds.looks rfl).2.1]
      exact (hholds.looks rfl).2.2 idx rfl
    rw [State.putStep, State.putStep, Config.reg_eq (n := 1 + idx) (by omega), Layout.reg_natural,
      Config.less_eq (x := act) (by omega) (by omega),
        Config.less_eq (x := s.offset b) (by omega) (by omega)]
  | loadClosedAt idx b boff =>
    have hidx := hend rfl
    have hclosed := hb.closedAt
    rw [State.putStep, State.putStep, Config.reg_eq (n := 1 + idx) (by omega), Layout.reg_natural,
      Config.less_eq (x := s.writeClosedAt) (by omega) (by omega)]
  | reject idx | release idx =>
    have hleft : w.left idx ≤ idx + w.count := State.left_le.2
    have hidx := hend rfl
    rw [State.putStep, State.putStep, State.leave_of_lt (by omega)]
  | find idx boff f =>
    have hidx := hend rfl
    have hstep := Config.find_eq s.heap hholds.knows.2.2 (by omega)
    rw [State.putStep, State.putStep, hstep]
  | findEnd idx boff b f =>
    have hidx := hend rfl
    have hstep := Config.find_eq s.heap hholds.knows.2.2.2.2 (by omega)
    rw [State.putStep, State.putStep, Config.reg_eq (n := idx + w.count - 1) (by omega),
      Layout.reg_natural,
      hstep]
  | protectOffset idx b target =>
    rw [State.putStep, State.putStep, State.afterItem_of_lt (hend rfl) (Nat.zero_le _)]
  | emplace idx k b =>
    have hidx := hend rfl
    have hk : k < w.count := hcounts.2
    rw [State.putStep, State.putStep, Config.reg_eq (n := idx + k) (by omega)]
  | publish idx k b =>
    have hidx := hend rfl
    have hk : k < w.count := hcounts.2
    rw [State.putStep, State.putStep, Config.reg_eq (n := idx + k) (by omega)]
    simp only [State.afterWrite_of_lt hidx hk]
  | resumeConsumer idx k b u frame =>
    rw [State.putStep, State.putStep, State.afterWrite_of_lt (hend rfl) hcounts.2]
  | nextBlock idx k b =>
    have hidx := hend rfl
    have hk : k ≤ w.count := hcounts.2
    rw [State.putStep, State.putStep, Config.reg_eq (n := idx + k) (by omega),
      Config.reg_eq (n := idx + w.count) (by omega), Layout.reg_natural, Layout.reg_natural,
      Config.less_eq (by omega) (by omega)]
    simp only [State.afterItem_of_lt hidx hk]

theorem Window.readStep {spurious : Bool} (hb : s.Bounds cfg) {k : Read} {q : ReadPc}
    (hpc : (s.token t).pc = .read z k q)
    (hw' : ∀ s', s.readStep .natural cfg t spurious z k q = some s' → Window cfg s') :
    s.readStep .wrapping cfg t spurious z k q = s.readStep .natural cfg t spurious z k q := by
  have hread := hw.read
  have hcounts := hb.pc t id
  rw [hpc] at hcounts
  have hend : ∀ {idx}, q.idx? = some idx → idx < cfg.inactive := fun hidx =>
    Nat.lt_of_le_of_lt (hcounts _ hidx) hread
  have hholds : ∀ {p}, (q.task z).doing = some (z, p) → Holds cfg s.sight m z p := fun hd =>
    h.holds t z _ (by rw [State.task_of_pc hpc]; exact hd)
  cases q with
  | protect | loadBlock | loadClosed | spinClosed | loadRead | probe | reload | tryClosed | trySpin
  | setNotWaiting | storeBlock | tryLock | loadProtect | unlock | poll | tryWait | suspended |
    resumed
  | holding => rfl
  | claim act =>
    have hlt' : s.readOffset + 1 < cfg.inactive := (hw' _ rfl).read
    rw [State.readStep, State.readStep, Config.reg_eq (n := s.readOffset + 1) (by omega)]
  | blockOffset act idx woff b =>
    have hidx := hend rfl
    have hh := hholds rfl
    obtain ⟨hact, hat⟩ := hh.knows
    have hle := (hh.idx idx rfl).1
    have hboff : s.offset b ≤ idx := by
      rw [show s.offset b = s.sight.offset b from rfl, h.at_offset hat (hh.looks rfl).2.1]
      exact (hh.looks rfl).2.2 idx rfl
    have hreg : cfg.reg .wrapping (1 + idx) = 1 + idx := Config.reg_eq (by omega)
    have hless : cfg.less .wrapping act (1 + idx) = cfg.less .natural act (1 + idx) :=
      Config.less_eq (by omega) (by omega)
    have hless' : cfg.less .wrapping (s.offset b) (1 + idx) = cfg.less .natural (s.offset b)
      (1 + idx) :=
      Config.less_eq (by omega) (by omega)
    simp only [State.readStep, hreg, Layout.reg_natural, hless, hless']
  | loadClosedAt act idx b boff =>
    have hidx := hend rfl
    have hclosed := hb.closedAt
    have hwrite := hw.write_lt
    rw [State.readStep, State.readStep, Config.reg_eq (n := 1 + idx) (by omega), Layout.reg_natural,
      Config.less_eq (x := s.writeClosedAt) (by omega) (by omega)]
  | tryClosedAt idx =>
    have hidx := hend rfl
    have hclosed := hb.closedAt
    have hwrite := hw.write_lt
    rw [State.readStep, State.readStep, Config.reg_eq (n := 1 + idx) (by omega), Layout.reg_natural,
      Config.less_eq (x := s.writeClosedAt) (by omega) (by omega)]
  | closedFind idx f =>
    have hstep := Config.find_eq s.heap (hholds rfl).knows.2.2 (hend rfl)
    rw [State.readStep, State.readStep, hstep]
  | find act idx woff boff f =>
    have hstep := Config.find_eq s.heap (hholds rfl).knows.2.2 (hend rfl)
    rw [State.readStep, State.readStep, hstep]
  | loadWrite act idx =>
    have hidx := hend rfl
    have hwrite := hw.write_lt
    rw [State.readStep, State.readStep, Config.reg_eq (n := idx + 1) (by omega), Layout.reg_natural,
      Config.less_eq (x := s.writeOffset) (by omega) (by omega)]
  | cas act idx woff boff b =>
    have hidx := hend rfl
    rw [State.readStep, State.readStep, Config.reg_eq (n := idx + 1) (by omega)]
  | leaveEmpty idx | leaveClosed idx | release idx =>
    rw [State.readStep, State.readStep, State.leave_of_lt (hend rfl)]
  | reclaim idx b r =>
    have hstep := hw.reclaimStep h hb hpc (r := r) ?_
    · simp only [State.readStep, hstep]
    · obtain ⟨hwrite, hread', hhaz, hrec⟩ := hw' _ rfl
      exact ⟨hwrite, hread', hhaz, hrec⟩

theorem Window.closeStep (hb : s.Bounds cfg) {q : ClosePc} (hpc : (s.token t).pc = .close q)
    (hw' : ∀ s', s.closeStep .natural cfg t q = some s' → Window cfg s') :
    s.closeStep .wrapping cfg t q = s.closeStep .natural cfg t q := by
  have hread := hw.read
  have hwrite := hw.write_lt
  have hcounts := hb.pc t id
  rw [hpc] at hcounts
  have hwalks : Walks cfg m q.task := by
    have hwalks := h.walks t
    rw [State.task_of_pc hpc] at hwalks
    exact hwalks
  cases q with
  | lock | check | loadOffset | closing | closedAt | closed | loadHead | notOk | unlock => rfl
  | provisional woff =>
    have hle : woff ≤ s.writeOffset := hcounts
    rw [State.closeStep, State.closeStep, Config.reg_eq (n := woff + cfg.inactive) (by omega)]
  | ticket =>
    have hlt' : s.writeOffset + 1 < cfg.inactive := (hw' _ rfl).write_lt
    rw [State.closeStep, State.closeStep, Config.reg_eq (n := s.writeOffset + 1) (by omega)]
  | loadRead woff =>
    have hle : woff ≤ s.writeOffset := hcounts
    rw [State.closeStep, State.closeStep, Config.less_eq (x := woff) (by omega) (by omega)]
  | find idx fin f =>
    obtain ⟨hlt, hle⟩ := hcounts
    have hstep := Config.find_eq s.heap hwalks.2 (by omega)
    rw [State.closeStep, State.closeStep, hstep]
  | spin idx fin b =>
    obtain ⟨hlt, hle⟩ := hcounts
    rw [State.closeStep, State.closeStep, State.afterWake_of_lt (by omega) (by omega)]
  | resumeConsumer idx fin b u frame =>
    obtain ⟨hlt, hle⟩ := hcounts
    rw [State.closeStep, State.closeStep, State.afterWake_of_lt (by omega) (by omega)]

/-- **A step on registers is the step on natural numbers.** -/
theorem Window.step (hb : s.Bounds cfg) {act : Act V}
    (hw' : ∀ s', step .natural cfg s act = some s' → Window cfg s') :
    step .wrapping cfg s act = step .natural cfg s act := by
  cases act with
  | copy | move | assign | destroy | call | close | release => rfl
  | step t spurious =>
    rw [Channel.step, Channel.step]
    rw [Channel.step] at hw'
    rw [State.tokenStep] at hw'
    rw [State.tokenStep, State.tokenStep]
    split
    · rfl
    · next c q hpc =>
      rw [hpc] at hw'
      exact congrArg some (hw.acquireStep h hpc (hw' _ rfl))
    · next z w q hpc =>
      rw [hpc] at hw'
      exact congrArg some (hw.putStep h hb hpc (hw' _ rfl))
    · next z k q hpc =>
      rw [hpc] at hw'
      exact hw.readStep h hb hpc hw'
    · next q hpc =>
      rw [hpc] at hw'
      exact hw.closeStep h hb hpc hw'
    · rfl

end Steps

/-! ## Runs -/

/-- The step, taken on natural numbers, stays inside the window. -/
def Stays (cfg : Config) (s : State V) (act : Act V) : Prop :=
  ∀ s', step .natural cfg s act = some s' → Window cfg s'

instance : Decidable (Window cfg s) :=
  decidable_of_iff (s.writeOffset + s.heap.fresh * cfg.blockSize < cfg.inactive ∧
      s.readOffset < cfg.inactive ∧ s.hazPtrCounter < 2 ^ cfg.bits ∧
        s.reclaimCounter < 2 ^ cfg.bits)
    ⟨fun ⟨hw, hr, hh, hc⟩ => ⟨hw, hr, hh, hc⟩, fun h => ⟨h.write, h.read, h.hazPtr, h.reclaim⟩⟩

instance (act : Act V) : Decidable (Stays cfg s act) :=
  match hs : step .natural cfg s act with
  | none => .isTrue fun s' h => by cases hs.symm.trans h
  | some s' => decidable_of_iff (Window cfg s')
    ⟨fun hw s'' h => by cases hs.symm.trans h; exact hw, fun h => h s' hs⟩

theorem Window.init : Window cfg (.init cfg : State V) := by
  have hB := cfg.blockSize_lt_inactive
  have hpos : 0 < 2 ^ cfg.bits := Nat.two_pow_pos _
  refine ⟨?_, cfg.inactive_pos, hpos, hpos⟩
  change 0 + 1 * cfg.blockSize < cfg.inactive
  omega

/-- A run on registers inside the window is one on natural numbers. -/
theorem reach_natural (h : (system V .wrapping cfg).Reach (Stays cfg) s) :
    (system V .natural cfg).Reach (fun s _ => Window cfg s) s ∧ Window cfg s ∧ s.Bounds cfg ∧
      ∃ l m a, Sight.Inv cfg l s.sight m a := by
  have hall : ((system V .natural cfg).Reach (fun s _ => Window cfg s) s ∧ Window cfg s ∧
    s.Bounds cfg) ∧
      ((∃ l, Hazards s l) ∧ Keeps .natural cfg True s) ∧ ∃ l m a, Sight.Inv cfg l s.sight m a := by
    refine h.invariant (I := fun s => ((system V .natural cfg).Reach (fun s _ => Window cfg s) s ∧
      Window cfg s ∧ s.Bounds cfg) ∧ ((∃ l, Hazards s l) ∧ Keeps .natural cfg True s) ∧
        ∃ l m a, Sight.Inv cfg l s.sight m a) (fun s hs => ?_) ?_
    · cases hs
      exact ⟨⟨.init rfl, .init, .init⟩, ⟨⟨_, .init⟩, .init⟩, _, _, _, .start⟩
    · intro s act s' ⟨⟨hr, hw, hb⟩, ⟨⟨l, hl⟩, hk⟩, _, m, a, hinv⟩ hstays hs
      have hs' : step .natural cfg s act = some s' := (hw.step hinv hb hstays).symm.trans hs
      obtain ⟨l', hl'⟩ := hl.step (hk.scope hl) hs'
      exact ⟨⟨hr.step hw hs', hstays s' hs', hb.step hinv hs'⟩,
        ⟨⟨l', hl'⟩, hk.step hl (fun _ _ _ _ _ _ _ _ => trivial) hs'⟩,
        hinv.step hw.write_lt.le hl'.sight hs'⟩
  exact ⟨hall.1.1, hall.1.2.1, hall.1.2.2, hall.2.2⟩

end CoroUtil.Channel
