import CoroUtil.MpscUnbounded.Wrap

/-!
# `~qu_mpsc_unbounded`, and the queue on registers

The destructor goes from `read_offset` to `write_closed_at`, from the head block
on, and destroys what has been left in the queue; no call is in progress then.
`wrapping_simulates` is that the queue and its destructor do on registers what
they do on natural numbers, in every run inside the window.
-/

namespace CoroUtil.MpscUnbounded

open CoroUtil.Blocks CoroUtil.General

variable {V : Type}

/-- Where the sweep is; `idx` and `b` are its `idx` and `block`. -/
inductive SweepPc
  | test (idx b : Nat)
  | find (idx : Nat) (f : Find)
  | poll (idx b : Nat)
  | done

/-- The sweep up to `stop`, its `end`. -/
structure Sweep (V : Type) where
  heap : Heap Flags V
  stop : Nat
  pc : SweepPc
  broken : Bool

namespace Sweep

/-- The sweep of a queue that has been closed. -/
def start (s : State V) : Sweep V := ⟨s.heap, s.writeClosedAt, .test s.readOffset s.headBlock, s.broken⟩

def step (o : Offsets) (cfg : Config) (x : Sweep V) : Sweep V :=
  match x.pc with
  | .test idx b =>
    if cfg.less o idx x.stop then { x with pc := .find idx (.load b) } else { x with pc := .done }
  | .find idx f =>
    let (heap, ok, f) := f.step o cfg.toLayout idx x.heap
    let x := { x with heap, broken := x.broken || !ok }
    match f with
    | .found b => { x with pc := .poll idx b }
    | f => { x with pc := .find idx f }
  | .poll idx b =>
    let e := x.heap.elem b (cfg.slot idx)
    let next := SweepPc.test (cfg.reg o (idx + 1)) b
    if e.flags = .data then
      { x with
        heap := x.heap.setElem b (cfg.slot idx) { e with data := none }
        broken := x.broken || !e.data.isSome
        pc := next }
    else { x with pc := next }
  | .done => x

/-- The sweep after `n` steps. -/
def run (o : Offsets) (cfg : Config) (x : Sweep V) : Nat → Sweep V
  | 0 => x
  | n + 1 => (run o cfg x n).step o cfg

end Sweep

def SweepPc.wrap (L : Layout) : SweepPc → SweepPc
  | test idx b => test (word L.bits idx) b
  | find idx f => find (word L.bits idx) (f.wrap L)
  | poll idx b => poll (word L.bits idx) b
  | done => done

def Sweep.wrap (L : Layout) (x : Sweep V) : Sweep V :=
  { x with heap := x.heap.wrap L, stop := word L.bits x.stop, pc := x.pc.wrap L }

variable {cfg : Config} {s : State V} {m : Map V} {x : Sweep V} {c : Chain} {lo idx b : Nat}

/-- Where in the chain the sweep is. -/
def SweepPc.Ok (cfg : Config) (c : Chain) (lo stop : Nat) : SweepPc → Prop
  | test idx b => idx ≤ stop ∧ ∃ k, Find.At cfg.toLayout c lo idx k b
  | find idx f => idx < stop ∧ f.Ok cfg.toLayout c lo idx
  | poll idx b => idx < stop ∧ (Find.found b).Ok cfg.toLayout c lo idx
  | done => True

/-- The sweep is in a chain of blocks from position `lo` on. -/
def Sweep.Ok (cfg : Config) (lo : Nat) (x : Sweep V) : Prop :=
  lo * cfg.blockSize ≤ x.stop ∧ ∃ c : Chain, c.Ok cfg.toLayout x.heap ∧ c.first ≤ lo ∧
    x.pc.Ok cfg c lo x.stop

theorem Inv.sweep (h : Inv cfg s m) (hready : s.closedReady = true) :
    (Sweep.start s).Ok cfg m.head := by
  obtain ⟨-, -, hst⟩ := h.ledger.cut _ (h.ready hready)
  have hread : s.readOffset ≤ s.writeClosedAt := h.ledger.read_le_of fun v hv => by
    rcases hst with hm | ⟨hb, -⟩
    · cases hm.symm.trans hv
    · cases hb.symm.trans hv
  refine ⟨h.mem.head_mul_le.trans hread, m.chain, h.mem.ok, h.mem.first, hread, m.head, ?_⟩
  exact ⟨le_rfl, h.mem.head_le.trans (h.mem.write_le.trans h.mem.read_le), h.mem.head,
    h.mem.head_le_div le_rfl⟩

/-- A step of the sweep goes on along the chain. -/
theorem Sweep.Ok.step (h : x.Ok cfg lo) : (x.step .natural cfg).Ok cfg lo := by
  obtain ⟨hstop, c, hc, hlo, hpc⟩ := h
  rw [Sweep.step]
  obtain ⟨heap, stop, pc, broken⟩ := x
  cases pc with
  | done => exact ⟨hstop, c, hc, hlo, trivial⟩
  | test idx b =>
    obtain ⟨hle, k, hk⟩ := hpc
    dsimp only
    split
    · next hlt => exact ⟨hstop, c, hc, hlo, of_decide_eq_true hlt, k, hk⟩
    · exact ⟨hstop, c, hc, hlo, trivial⟩
  | find idx f =>
    obtain ⟨hlt, hf⟩ := hpc
    obtain ⟨c', hg, -, hf'⟩ := Find.step_spec hc hlo hf
    have hlo' : c'.first ≤ lo := hg.first.trans_le hlo
    dsimp only at hf' hg ⊢
    generalize f.step .natural cfg.toLayout idx heap = y at hf' hg
    obtain ⟨heap', ok, f'⟩ := y
    cases f' <;> exact ⟨hstop, c', hg.ok, hlo', hlt, hf'⟩
  | poll idx b =>
    obtain ⟨hlt, hle, hlast, hb⟩ := hpc
    have hpc' : (SweepPc.test (idx + 1) b).Ok cfg c lo stop :=
      ⟨hlt, idx / cfg.blockSize, hle, hlast, hb, Nat.div_le_div_right (Nat.le_succ _)⟩
    dsimp only
    split
    · refine ⟨hstop, c, hc.congr le_rfl (fun _ _ => Heap.offset_setElem)
        (fun _ _ => Heap.next_setElem), hlo, hpc'⟩
    · exact ⟨hstop, c, hc, hlo, hpc'⟩

theorem Sweep.step_stop {o : Offsets} : (x.step o cfg).stop = x.stop := by
  rw [Sweep.step]
  split
  · split <;> rfl
  · dsimp only
    split <;> rfl
  · dsimp only
    split <;> rfl
  · rfl

/-- A step of the sweep on registers is the one on natural numbers. -/
theorem Sweep.Ok.step_wrap (h : x.Ok cfg lo)
    (hnear : x.stop < lo * cfg.blockSize + 2 ^ (cfg.bits - 1)) :
    (x.wrap cfg.toLayout).step .wrapping cfg = (x.step .natural cfg).wrap cfg.toLayout := by
  obtain ⟨hstop, c, hc, hlo, hpc⟩ := h
  obtain ⟨heap, stop, pc, broken⟩ := x
  dsimp only at hstop hnear hc hpc
  cases pc with
  | done => rfl
  | test idx b =>
    obtain ⟨hle, k, hk⟩ := hpc
    have hmul := (Nat.le_div_iff_mul_le cfg.blockSize_pos).mp (hk.lo.trans hk.le)
    have hless := cfg.less_wrapping (a := idx) (b := stop) (by omega) (by omega)
    exact ite_map (by rw [← hless]; rfl) (fun _ => rfl) fun _ => rfl
  | find idx f =>
    obtain ⟨hlt, hf⟩ := hpc
    have hhalf := half_le cfg.bits
    have hfind := Find.step_wrap hc hlo hf (by omega)
    simp only [Sweep.step, Sweep.wrap, SweepPc.wrap, hfind]
    generalize f.step .natural cfg.toLayout idx heap = y
    obtain ⟨heap', ok, f'⟩ := y
    cases f' <;> rfl
  | poll idx b =>
    have hnext : cfg.reg .wrapping (word cfg.bits idx + 1) = word cfg.bits (idx + 1) := word_word_add
    simp only [Sweep.step, Sweep.wrap, SweepPc.wrap, Layout.slot_word, Heap.elem_wrap, hnext,
      Layout.reg_natural, ← Heap.wrap_setElem]
    split_ifs <;> rfl

theorem Sweep.Ok.run (h : x.Ok cfg lo) (n : Nat) :
    (x.run .natural cfg n).Ok cfg lo ∧ (x.run .natural cfg n).stop = x.stop := by
  induction n with
  | zero => exact ⟨h, rfl⟩
  | succ n ih => exact ⟨ih.1.step, Sweep.step_stop.trans ih.2⟩

theorem Sweep.Ok.run_wrap (h : x.Ok cfg lo)
    (hnear : x.stop < lo * cfg.blockSize + 2 ^ (cfg.bits - 1)) (n : Nat) :
    (x.wrap cfg.toLayout).run .wrapping cfg n = (x.run .natural cfg n).wrap cfg.toLayout := by
  induction n with
  | zero => rfl
  | succ n ih =>
    obtain ⟨hok, hstop⟩ := h.run n
    rw [Sweep.run, ih, hok.step_wrap (hstop ▸ hnear)]
    rfl

/-- What the queue does on registers, after a run to `s` on natural numbers. -/
structure Simulated (cfg : Config) (s : State V) : Prop where
  step : ∀ a, step .wrapping cfg (s.wrap cfg.toLayout) a =
    (MpscUnbounded.step .natural cfg s a).map (State.wrap cfg.toLayout)
  sweep : s.closedReady = true → ∀ n, (Sweep.start (s.wrap cfg.toLayout)).run .wrapping cfg n =
    ((Sweep.start s).run .natural cfg n).wrap cfg.toLayout

/-- The queue on registers simulates itself on natural numbers, in every run inside
the window. -/
theorem wrapping_simulates (acts : List (Act V)) (hrun : ∀ k (s : State V),
      (acts.take k).foldlM (step .natural cfg) .init = some s → Window cfg s) :
    acts.foldlM (step .wrapping cfg) .init =
        (acts.foldlM (step .natural cfg) .init).map (State.wrap cfg.toLayout) ∧
      ∀ s : State V, acts.foldlM (step .natural cfg) .init = some s → Simulated cfg s := by
  have hP : ∀ (s : State V) m, Inv cfg s m → Window cfg s → Near cfg s m :=
    fun _ _ h hw => hw.near h
  refine ⟨?_, fun s hs => ?_⟩
  · have hwrap := run_wrap hP acts .init hrun
    rw [State.wrap_init] at hwrap
    exact hwrap
  · obtain ⟨m, h⟩ := reachable_inv (System.ofStep_reachable acts hs)
    have hn := hP s m h (hrun acts.length s (by rw [List.take_length]; exact hs))
    refine ⟨fun a => hn.step h, fun hready n => ?_⟩
    have hlt : s.writeClosedAt < s.writeOffset := (h.ledger.cut _ (h.ready hready)).1
    exact (h.sweep hready).run_wrap (hlt.trans hn.write) n

theorem wrapping_simulates_wrapThenClose :
    ∃ s, wrapThenClose.foldlM (step .natural fourBits) .init = some s ∧ s.writeOffset = 21 ∧
      s.readOffset = 19 ∧ s.closedReady = true ∧
      wrapThenClose.foldlM (step .wrapping fourBits) .init = some (s.wrap fourBits.toLayout) ∧
      Simulated fourBits s := by
  have hrun : (wrapThenClose.foldlM (step .natural fourBits) .init).any (fun s =>
      s.writeOffset = 21 && s.readOffset = 19 && s.closedReady) = true := by
    decide +kernel
  obtain ⟨s, hs, hand⟩ := (Option.any_eq_true _ _).mp hrun
  simp only [Bool.and_eq_true, decide_eq_true_iff] at hand
  obtain ⟨⟨hwrite, hread⟩, hready⟩ := hand
  obtain ⟨hwrap, hsim⟩ := wrapping_simulates wrapThenClose window_of_wrapThenClose
  rw [hs] at hwrap
  exact ⟨s, hs, hwrite, hread, hready, hwrap, hsim s hs⟩

end CoroUtil.MpscUnbounded
