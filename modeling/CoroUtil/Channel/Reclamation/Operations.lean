import CoroUtil.Channel.Reclamation.Aside
import CoroUtil.Channel.Reclamation.Work

/-!
# The operations keep what keeps their blocks

`Inv.grow` is the growth of the list and of the offsets, and `Inv.works` is what an
operation does with its own hazard pointer.  Every step of `Work` is made of them.
-/

namespace CoroUtil.Channel

open CoroUtil.General CoroUtil.Blocks

/-- Hazard pointer `z` at other positions. -/
def Map.set (m : Map) (z : Nat) (pos : Side → Nat) (low : Nat) : Map :=
  { m with pos := Function.update m.pos z pos, low := Function.update m.low z low }

namespace HazardPtr

variable {x : HazardPtr} {b o : Nat} {side s : Side}

/-- A block pointer and the offset that protects it are stored. -/
def store (x : HazardPtr) (b o : Nat) : Side → HazardPtr
  | .write => { x with writeBlock := some b, nextProtectWrite := o }
  | .read => { x with readBlock := some b, nextProtectRead := o }

@[simp] theorem activeOffset_store : (x.store b o side).activeOffset = x.activeOffset := by
  cases side <;> rfl

@[simp] theorem owned_store : (x.store b o side).owned = x.owned := by cases side <;> rfl

@[simp] theorem next_store : (x.store b o side).next = x.next := by cases side <;> rfl

theorem block_store : (x.store b o side).block s = if s = side then some b else x.block s := by
  cases side <;> cases s <;> rfl

theorem nextProtect_store :
    (x.store b o side).nextProtect s = if s = side then o else x.nextProtect s := by
  cases side <;> cases s <;> rfl

end HazardPtr

namespace Sight

variable {cfg : Config} {l l' : List Nat} {S S' : Sight} {m m' : Map} {a a' : Plan}
  {f k b z y n idx top top' : Nat} {side : Side} {p p' : Phase} {t u : Tid} {v : HazardPtr}

@[simp] theorem hazard_setHazard : (S.setHazard z v).hazard z = v := Function.update_self ..

theorem hazard_setHazard_of_ne (h : y ≠ z) : (S.setHazard z v).hazard y = S.hazard y :=
  Function.update_of_ne h ..

theorem setHazard_self : S.setHazard z (S.hazard z) = S := by
  rw [setHazard, Function.update_eq_self]

@[simp] theorem off_setHazard : (S.setHazard z v).off side = S.off side := by cases side <;> rfl

@[simp] theorem off_goes {k : Task} : (S.goes t k).off side = S.off side := by cases side <;> rfl

theorem task_goes_of_ne {k : Task} (h : u ≠ t) : (S.goes t k).task u = S.task u :=
  Function.update_of_ne h ..

variable {pos : Side → Nat} {low : Nat}

@[simp] theorem pos_set : (m.set z pos low).pos z = pos := Function.update_self ..

@[simp] theorem low_set : (m.set z pos low).low z = low := Function.update_self ..

theorem setHazard_setHazard {v' : HazardPtr} :
    (S.setHazard z v').setHazard z v = S.setHazard z v := by
  rw [setHazard, setHazard, setHazard, Function.update_idem]

theorem store_eq {o : Nat} : (S.setBlock z (some b) side).setNext z o side =
    S.setHazard z ((S.hazard z).store b o side) := by
  cases side with
  | write =>
    rw [setBlock, setNext, hazard_setHazard, setHazard_setHazard]
    rfl
  | read =>
    rw [setBlock, setNext, hazard_setHazard, setHazard_setHazard]
    rfl

theorem setBlock_eq : S.setBlock z (some b) side =
    S.setHazard z ((S.hazard z).store b ((S.hazard z).nextProtect side) side) := by
  cases side <;> rfl

theorem setNext_eq {o : Nat} (hb : (S.hazard z).block side = some b) :
    S.setNext z o side = S.setHazard z ((S.hazard z).store b o side) := by
  cases side with
  | write =>
    have hb : (S.hazard z).writeBlock = some b := hb
    rw [HazardPtr.store, ← hb]
    rfl
  | read =>
    have hb : (S.hazard z).readBlock = some b := hb
    rw [HazardPtr.store, ← hb]
    rfl

theorem set_self : m.set z (m.pos z) (m.low z) = m := by
  rw [Map.set, Function.update_eq_self, Function.update_eq_self]

theorem apart_set {S' : Sight} (h : Alike (S.hazard y) (S'.hazard y)) (hne : y ≠ z) :
    Apart S S' m (m.set z pos low) y :=
  ⟨h, Function.update_of_ne hne .., Function.update_of_ne hne ..⟩

theorem Seat.congr (h : Seat cfg S m f z side)
    (hblock : (S'.hazard z).block side = (S.hazard z).block side)
    (hprotect : (S'.hazard z).nextProtect side = (S.hazard z).nextProtect side)
    (hoff : S'.off side = S.off side) (hchain : m'.chain = m.chain)
    (hpos : m'.pos z side = m.pos z side) : Seat cfg S' m' f z side where
  block := by
    rw [hblock, hchain, hpos]
    exact h.block
  le := by
    rw [hpos]
    exact h.le
  last := by
    rw [hpos, hchain]
    exact h.last
  off := by
    rw [hpos, hoff]
    exact h.off
  protect := by
    rw [hprotect, hpos]
    exact h.protect

theorem Seat.goes {k : Task} (h : Seat cfg S m f z side) : Seat cfg (S.goes t k) m f z side :=
  h.congr rfl rfl off_goes rfl rfl

theorem Holds.goes {k : Task} (h : Holds cfg S m z p) : Holds cfg (S.goes t k) m z p where
  idx i hi := by
    obtain ⟨hact, hlo, hoff⟩ := h.idx i hi
    refine ⟨hact, hlo, fun side hs => ?_⟩
    rw [off_goes]
    exact hoff side hs
  aims := h.aims
  looks := h.looks
  knows := by cases p <;> exact h.knows

/-- The token of an operation has its hazard pointer. -/
theorem Ring.has_of_uses (h : S.Ring l) (ht : (S.task t).role = .uses z)
    (hk : (S.task t).keeps = true) : S.Has t z := by
  have hfits := h.fits t
  rw [View.Fits, show (S.view t).role = .uses z from ht] at hfits
  exact .inl ⟨hfits.2, hk⟩

theorem Ring.has_of_doing (h : S.Ring l) (ht : (S.task t).doing = some (z, p)) : S.Has t z := by
  cases hk : S.task t with
  | uses | locks | reclaims =>
    rw [hk] at ht
    cases ht
    refine Ring.has_of_uses h ?_ ?_
    · rw [hk]
      rfl
    · rw [hk]
      rfl
  | rest | acquires | waits | closes | marks | walks | frees =>
    rw [hk] at ht
    cases ht

theorem Inv.at_offset (h : Inv cfg l S m a) (hb : m.At k b) (hk : m.lo ≤ k) :
    S.offset b = k * cfg.blockSize := by
  rw [offset, ← hb.2]
  exact h.heaps.ok.offset k ⟨h.heaps.lo.1.trans hk, hb.1⟩

/-! ## The frame of a step -/

/-- The list grows at its end, and the offsets grow. -/
theorem Inv.grow (h : Inv cfg l S m a) {c' : Chain} {h' : Heap Unit Empty} {w r : Nat}
    (hb : Reclaim.Beside cfg.toLayout m.chain S.heap m.lo c' h')
    (hmem : ∀ b < h'.fresh, b < S.heap.fresh ∨ Reclaim.Points c' b) (hw : S.writeOffset ≤ w)
    (hr : S.readOffset ≤ r) :
    ∃ rest, Inv cfg l { S with heap := h', writeOffset := w, readOffset := r }
      { m with chain := c' } { a with rest } := by
  refine h.aside (w := none) (T := fun _ => False)
    ⟨hb, hmem, fun side => ?_, le_rfl, .same (fun _ hy => hy) fun _ _ => rfl, rfl, rfl, rfl, rfl,
      rfl, rfl⟩
    h.ring rfl h.lock ⟨fun z side b hzb => (h.nodes.fresh z side b hzb).trans_le hb.fresh,
      h.nodes.dvd,
    h.nodes.active⟩ (fun _ _ => ⟨rfl, rfl⟩) (fun _ _ => ⟨.refl _, rfl, rfl⟩) (fun _ _ _ _ heq => ?_)
    (fun _ hf => hf.elim) (fun _ hf => hf.elim) (fun _ hf => hf.elim) (fun _ hf => hf.elim)
    (fun _ hf => hf.elim) fun _ hf => hf.elim
  · cases side with
    | write => exact hw
    | read => exact hr
  · cases heq

/-- A step of `find_block`. -/
theorem Inv.find (h : Inv cfg l S m a) {lo : Nat} {f : Find} (hlo : m.lo ≤ lo)
    (hf : f.Ok cfg.toLayout m.chain lo idx) :
    ∃ c' rest, Inv cfg l { S with heap := (f.step .natural cfg.toLayout idx S.heap).1 }
        { m with chain := c' } { a with rest } ∧ m.chain.Extends c' ∧
      (f.step .natural cfg.toLayout idx S.heap).2.2.Ok cfg.toLayout c' lo idx := by
  obtain ⟨hgrows, -, hok⟩ := Find.step_chain h.heaps.ok (h.heaps.lo.1.trans hlo) hf
  have hmem : ∀ b < (f.step .natural cfg.toLayout idx S.heap).1.fresh,
      b < S.heap.fresh ∨ Reclaim.Points (f.chain m.chain S.heap) b := by
    intro b hb
    rw [Find.step_fresh] at hb
    split_ifs at hb with hlinks
    · rcases Nat.lt_or_eq_of_le (Nat.le_of_lt_succ hb) with hb | rfl
      · exact .inl hb
      · have hle := h.heaps.ok.le
        rw [Find.chain, if_pos hlinks]
        exact .inr ⟨m.chain.last + 1 + 0, ⟨hle.trans (Nat.le_succ _), le_rfl⟩,
          Chain.append_block Nat.one_pos⟩
    · exact .inl hb
  obtain ⟨rest, hinv⟩ := h.grow (.of_grows h.heaps.ok hgrows) hmem le_rfl le_rfl
  exact ⟨_, rest, hinv, hgrows.ext, hok⟩

/-- What an operation does with its hazard pointer. -/
theorem Inv.works (h : Inv cfg l S m a) (ht : S.task t = .uses z p top) (v : HazardPtr)
    (pos : Side → Nat) (low : Nat)
    (howned : v.owned = (S.hazard z).owned) (hnext : v.next = (S.hazard z).next)
    (hfresh : ∀ side b, v.block side = some b → b < S.heap.fresh)
    (hdvd : ∀ side, cfg.blockSize ∣ v.nextProtect side)
    (hactive : cfg.blockSize ∣ v.activeOffset ∨ cfg.inactive ≤ v.activeOffset)
    (hseat : ∀ side, Seat cfg (S.setHazard z v) (m.set z pos low) m.lo z side)
    (htop : top' ≤ S.writeOffset)
    (hholds : Holds cfg (S.setHazard z v) (m.set z pos low) z p')
    (hmoves : Moves S m z p (m.set z pos low) p') :
    ∃ rest, Inv cfg l ((S.setHazard z v).goes t (.uses z p' top')) (m.set z pos low)
      { a with rest } := by
  set S₁ := (S.setHazard z v).goes t (.uses z p' top') with hS₁
  have htask : S₁.task t = .uses z p' top' := task_goes
  have hhas : S.Has t z := Ring.has_of_doing h.ring (p := p) (by rw [ht]; rfl)
  have hview : S₁.view = S.view := by
    funext u
    rw [view, view]
    by_cases hu : u = t
    · rw [hu, htask, ht]
      rfl
    · rw [hS₁, task_goes_of_ne hu]
      rfl
  have hhazard : ∀ y, S₁.hazard y = if y = z then v else S.hazard y := fun y =>
    Function.update_apply ..
  have hnexts : S₁.next = S.next := by
    funext y
    rw [next, hhazard]
    split_ifs with hy
    · rw [hnext, hy, next]
    · rfl
  have howneds : S₁.owned = S.owned := by
    funext y
    rw [owned, hhazard]
    split_ifs with hy
    · rw [howned, hy, owned]
    · rfl
  have hring : S₁.Ring l := by
    rw [Ring, hview, howneds, hnexts]
    exact h.ring
  have hlocked : (S₁.task t).locked = (S.task t).locked := by rw [htask, ht]; rfl
  have hrun : S₁.run = S.run := by
    rw [run, run]
    change S.blocksLock.bind _ = _
    cases hlock : S.blocksLock with
    | none => rfl
    | some u =>
      have hu : u ≠ t := by
        rintro rfl
        have hbad := (h.lock u).mpr hlock
        rw [ht] at hbad
        exact Bool.noConfusion hbad
      change (S₁.task u).run = (S.task u).run
      rw [hS₁, task_goes_of_ne hu]
      rfl
  have hown : ∀ y, S₁.Has t y → y = z := fun y hy =>
    Option.some.inj ((Ring.node_of_has hring hy).symm.trans
      (Ring.node_of_doing hring (p := p') (by rw [htask]; rfl)))
  have hf : Frame cfg l l S S₁ m (m.set z pos low) :=
    ⟨.of_grows h.heaps.ok (.refl h.heaps.ok), fun b hb => .inl hb,
      fun side => by cases side <;> exact le_rfl, le_rfl,
      .same (fun _ hy => hy) fun y _ => congrFun hnexts y, rfl, rfl, rfl, rfl, rfl, rfl⟩
  refine h.aside (w := some z) (T := (· = t)) hf
    hring hrun (fun u => ?_) ⟨fun y side b hb => ?_, fun y side => ?_, fun y => ?_⟩ (fun u hu => ?_)
    (fun y hy => ?_) (fun u y hu hy heq => ?_) ?_ ?_ ?_ ?_ ?_ ?_
  · by_cases hu : u = t
    · rw [hu, hlocked]
      exact h.lock t
    · rw [hS₁, task_goes_of_ne hu]
      exact h.lock u
  · rw [hhazard] at hb
    split_ifs at hb
    · exact hfresh side b hb
    · exact h.nodes.fresh y side b hb
  · rw [hhazard]
    split_ifs
    · exact hdvd side
    · exact h.nodes.dvd y side
  · rw [hhazard]
    split_ifs
    · exact hactive
    · exact h.nodes.active y
  · exact ⟨task_goes_of_ne hu, rfl⟩
  · have hne : y ≠ z := fun heq => hy (congrArg some heq.symm)
    refine apart_set ?_ hne
    rw [hhazard, if_neg hne]
    exact .refl _
  · cases heq
    exact hu (h.ring.leases.inj u t z hy (Ring.node_of_has h.ring hhas))
  · rintro u rfl y hy side
    rw [hown y hy]
    exact (hseat side).goes
  · rintro u rfl y p'' top'' htask'
    cases htask.symm.trans htask'
    exact htop
  · rintro u rfl y p'' hd
    rw [htask] at hd
    cases hd
    exact hholds.goes
  · rintro u rfl q hq
    cases htask.symm.trans hq
  · rintro u rfl
    rw [htask]
    trivial
  · rintro u rfl y hy
    rw [hown y hy]
    refine .inr ⟨u, hhas, ?_⟩
    rw [htask, ht]
    exact hmoves

/-- The operation is in another phase. -/
theorem Inv.moves (h : Inv cfg l S m a) (ht : S.task t = .uses z p top) (low : Nat)
    (htop : top' ≤ S.writeOffset)
    (hholds : Holds cfg S (m.set z (m.pos z) low) z p')
    (hmoves : Moves S m z p (m.set z (m.pos z) low) p') :
    ∃ m a, Inv cfg l (S.goes t (.uses z p' top')) m a := by
  have hseats := h.seats t z (Ring.has_of_doing h.ring (p := p) (by rw [ht]; rfl))
  have hself : S.setHazard z (S.hazard z) = S := setHazard_self
  obtain ⟨rest, hinv⟩ :=
    h.works ht (S.hazard z) (m.pos z) low rfl rfl (h.nodes.fresh z) (h.nodes.dvd z)
      (h.nodes.active z)
    (fun side => by
      rw [hself]
      exact (hseats side).congr rfl rfl rfl rfl (by rw [pos_set])) htop
    (by rw [hself]; exact hholds) hmoves
  rw [hself] at hinv
  exact ⟨_, _, hinv⟩

/-- It has not loaded a pointer. -/
theorem Inv.goes (h : Inv cfg l S m a) (ht : S.task t = .uses z p top) (htop : top' ≤ S.writeOffset)
    (hholds : Holds cfg S m z p') (hmoves : Moves S m z p m p') :
    ∃ m a, Inv cfg l (S.goes t (.uses z p' top')) m a :=
  h.moves ht (m.low z) htop (by rw [set_self]; exact hholds) (by rw [set_self]; exact hmoves)

theorem Moves.same (hidx : ∀ i, p'.idx = some i → p.idx = some i ∨ ∃ side, S.off side ≤ i)
    (hlooks : ∀ side, p'.Looks side → p.Looks side) : Moves S m z p m p' :=
  ⟨hidx, fun _ => le_rfl, fun side hl => .inr ⟨hlooks side hl, rfl, rfl⟩⟩

theorem holds_out : Holds cfg S m z .out :=
  ⟨fun _ hi => (by cases hi), fun hf => Bool.noConfusion hf, fun hf => Bool.noConfusion hf, trivial⟩

/-! ## The ticket -/

section

variable (h : Inv cfg l S m a) (ht : S.task t = .uses z p top)
include h ht

theorem Inv.using : Holds cfg S m z p ∧ (∀ side, Seat cfg S m m.lo z side) ∧
    top ≤ S.writeOffset := by
  have hd : (S.task t).doing = some (z, p) := by
    rw [ht]
    rfl
  exact ⟨h.holds t z p hd, h.seats t z (Ring.has_of_doing h.ring hd), h.top t z p top ht⟩

theorem Inv.drop : ∃ m a, Inv cfg l (S.goes t (.uses z .out 0)) m a :=
  h.goes ht (Nat.zero_le _) holds_out
    (.same (fun _ hi => by cases hi) fun _ hl => Bool.noConfusion hl.1)

theorem Inv.protect (side : Side) :
    ∃ m a, Inv cfg l ((S.setActive z ((S.hazard z).nextProtect side)).goes t
      (.uses z (.guards side ((S.hazard z).nextProtect side)) 0)) m a := by
  obtain ⟨-, hseats, -⟩ := h.using ht
  set v := { S.hazard z with activeOffset := (S.hazard z).nextProtect side } with hv
  have hseats' : ∀ s, Seat cfg (S.setHazard z v) (m.set z (m.pos z) (m.low z)) m.lo z s := fun s =>
    (hseats s).congr (by rw [hazard_setHazard]; cases s <;> rfl)
      (by rw [hazard_setHazard]; cases s <;> rfl) off_setHazard rfl (by rw [pos_set])
  have hknows : Knows cfg (S.setHazard z v) (m.set z (m.pos z) (m.low z)) z
      (.guards side ((S.hazard z).nextProtect side)) := by
    rw [Knows, hazard_setHazard]
    refine ⟨rfl, ?_⟩
    cases side <;> rfl
  obtain ⟨rest, hinv⟩ := h.works ht v (m.pos z) (m.low z) rfl rfl (h.nodes.fresh z) (h.nodes.dvd z)
    (.inl (h.nodes.dvd z side)) hseats' (Nat.zero_le _)
    ⟨fun _ hi => (by cases hi), fun hf => Bool.noConfusion hf, fun hf => Bool.noConfusion hf,
      hknows⟩
    ⟨fun _ hi => (by cases hi), fun _ => (by rw [pos_set]), fun _ hl => Bool.noConfusion hl.1⟩
  exact ⟨_, _, hinv⟩

/-- An index that is taken or observed. -/
theorem Inv.ticket {act : Nat} (hact : act = (S.hazard z).activeOffset)
    (hguard : (S.hazard z).activeOffset = (S.hazard z).nextProtect side) :
    ∃ m a, Inv cfg l (S.goes t (.uses z (.ticket side act (S.off side)) 0)) m a := by
  obtain ⟨-, hseats, -⟩ := h.using ht
  have hseat := hseats side
  refine h.goes ht (Nat.zero_le _) ⟨?_, ?_, fun hf => Bool.noConfusion hf, hact⟩
    (.same ?_ fun _ hl => Bool.noConfusion hl.1)
  · rintro i hi
    cases hi
    refine ⟨?_, ?_, ?_⟩
    · rw [hguard]
      exact hseat.protect.trans hseat.off
    · exact (Nat.mul_le_mul_right _ hseat.le).trans hseat.off
    · rintro side' hs
      cases hs
      exact le_rfl
  · rintro - side' hs
    cases hs
    refine ⟨hguard, ?_⟩
    rintro i hi
    cases hi
    exact hseat.off
  · rintro i hi
    cases hi
    exact .inr ⟨side, le_rfl⟩

/-- It goes back to where it has an index. -/
theorem Inv.back {act : Nat} {boff : Option Nat} {f : Find}
    (hp : p = .seeks .read (some act) idx boff f) :
    ∃ m a, Inv cfg l (S.goes t (.uses z (.ticket .read act idx) 0)) m a := by
  subst hp
  obtain ⟨hholds, -, -⟩ := h.using ht
  exact h.goes ht (Nat.zero_le _) ⟨hholds.idx, hholds.aims, fun hf => Bool.noConfusion hf,
    hholds.knows.1 act rfl⟩ (.same (fun _ hi => .inl hi) fun _ hl => Bool.noConfusion hl.1)

/-! ## The walk -/

/-- It loads its block pointer. -/
theorem Inv.load {act : Nat} (hp : p = .ticket side act idx)
    (hb : (S.hazard z).block side = some b) :
    ∃ m a, Inv cfg l (S.goes t (.uses z (.loaded side act idx b) top)) m a := by
  subst hp
  obtain ⟨hholds, hseats, htop⟩ := h.using ht
  have hseat := hseats side
  obtain ⟨hguard, hpos⟩ := hholds.aims rfl side rfl
  have hblock : m.chain.block (m.pos z side) = b := Option.some.inj (hseat.block.symm.trans hb)
  refine h.moves ht (m.pos z side) htop
    ⟨hholds.idx, fun _ s hs => ?_, fun _ => ?_, hholds.knows, ?_⟩
    ⟨fun _ hi => .inl hi, fun _ => (by rw [pos_set]), fun s hl => .inl ?_⟩
  · rw [pos_set]
    exact hholds.aims rfl s hs
  · rw [low_set, hguard]
    exact ⟨hseat.protect, hseat.le, hpos⟩
  · rw [low_set]
    exact ⟨hseat.last, hblock⟩
  · cases hl.2
    rw [pos_set, low_set]

/-- It loads the offset of the block. -/
theorem Inv.loadOffset {act : Nat} (hp : p = .loaded side act idx b) :
    ∃ m a, Inv cfg l (S.goes t
      (.uses z (.seeks side (some act) idx (some (S.offset b)) (.load b)) top)) m a := by
  subst hp
  obtain ⟨hholds, -, htop⟩ := h.using ht
  obtain ⟨-, hlo, hlow⟩ := hholds.looks rfl
  obtain ⟨hact, hb⟩ := hholds.knows
  have hle : m.low z ≤ idx / cfg.blockSize :=
    (Nat.le_div_iff_mul_le cfg.blockSize_pos).mpr (hlow idx rfl)
  refine h.goes ht htop
    ⟨hholds.idx, hholds.aims, hholds.looks, ?_, ?_, m.low z, le_rfl, hb.1, hb.2, hle⟩
    (.same (fun _ hi => .inl hi) fun _ hl => hl)
  · rintro o ho
    cases ho
    exact hact
  · rintro o ho
    cases ho
    exact h.at_offset hb hlo

theorem Inv.forget {act act' boff boff' : Option Nat} {f : Find}
    (hp : p = .seeks side act idx boff f)
    (hact : ∀ o ∈ act', o ∈ act) (hboff : ∀ o ∈ boff', o ∈ boff) :
    ∃ m a, Inv cfg l (S.goes t (.uses z (.seeks side act' idx boff' f) top)) m a := by
  subst hp
  obtain ⟨hholds, -, htop⟩ := h.using ht
  obtain ⟨ha, ho, hf⟩ := hholds.knows
  exact h.goes ht htop ⟨hholds.idx, hholds.aims, hholds.looks, fun o hm => ha o (hact o hm),
    fun o hm => ho o (hboff o hm), hf⟩ (.same (fun _ hi => .inl hi) fun _ hl => hl)

/-- It knows less, or more, of `write_offset`. -/
theorem Inv.tops (htop : top' ≤ S.writeOffset) : ∃ m a, Inv cfg l (S.goes t (.uses z p top')) m a :=
  h.goes ht htop (h.using ht).1 .refl

theorem Inv.walkOn {act boff : Option Nat} {f : Find} (hp : p = .seeks side act idx boff f) :
    ∃ m a, Inv cfg l ({ S with heap := (f.step .natural cfg.toLayout idx S.heap).1 }.goes t
      (.uses z (.seeks side act idx boff (f.step .natural cfg.toLayout idx S.heap).2.2) top)) m
        a := by
  subst hp
  obtain ⟨hholds, -, -⟩ := h.using ht
  obtain ⟨c', rest, h', -, hf⟩ := h.find (hholds.looks rfl).2.1 hholds.knows.2.2
  have ht' : ({ S with heap := (f.step .natural cfg.toLayout idx S.heap).1 } : Sight).task t =
    .uses z (.seeks side act idx boff f) top := ht
  obtain ⟨hholds', -, htop'⟩ := h'.using ht'
  exact h'.goes ht' htop' ⟨hholds'.idx, hholds'.aims, hholds'.looks, hholds'.knows.1,
    hholds'.knows.2.1, hf⟩ (.same (fun _ hi => .inl hi) fun _ hl => hl)

/-- `post` and `post_bulk` have found the block of the first index. -/
theorem Inv.meets {act : Option Nat} {boff last : Nat}
    (hp : p = .seeks .write act idx (some boff) (.found b))
    (hidx : idx ≤ last) (hlast : last ≤ top) :
    ∃ m a, Inv cfg l (S.goes t (.uses z (.ends idx last boff b (.load b)) 0)) m a := by
  subst hp
  obtain ⟨hholds, -, htop⟩ := h.using ht
  obtain ⟨-, hoff, hle, hb⟩ := hholds.knows
  refine h.goes ht (Nat.zero_le _) ⟨hholds.idx, hholds.aims, hholds.looks, hoff boff rfl, hidx,
    hlast.trans htop, hb, idx / cfg.blockSize, hle, hb.1, hb.2, Nat.div_le_div_right hidx⟩
    (.same (fun _ hi => .inl hi) fun _ hl => hl)

theorem Inv.lands {act : Option Nat} {boff : Nat}
    (hp : p = .seeks .write act idx (some boff) (.found b))
    (hidx : idx ≤ top) :
    ∃ m a, Inv cfg l (S.goes t (.uses z (.ends idx idx boff b (.found b)) 0)) m a := by
  subst hp
  obtain ⟨hholds, -, htop⟩ := h.using ht
  obtain ⟨-, hoff, hle, hb⟩ := hholds.knows
  exact h.goes ht (Nat.zero_le _) ⟨hholds.idx, hholds.aims, hholds.looks, hoff boff rfl, le_rfl,
    hidx.trans htop, hb, hle, hb⟩ (.same (fun _ hi => .inl hi) fun _ hl => hl)

theorem Inv.walkEnd {last boff : Nat} {f : Find} (hp : p = .ends idx last boff b f) :
    ∃ m a, Inv cfg l ({ S with heap := (f.step .natural cfg.toLayout last S.heap).1 }.goes t
      (.uses z (.ends idx last boff b (f.step .natural cfg.toLayout last S.heap).2.2) 0)) m a := by
  subst hp
  obtain ⟨hholds, -, -⟩ := h.using ht
  obtain ⟨c', rest, h', -, hf⟩ := h.find (hholds.looks rfl).2.1 hholds.knows.2.2.2.2
  have ht' : ({ S with heap := (f.step .natural cfg.toLayout last S.heap).1 } : Sight).task t =
    .uses z (.ends idx last boff b f) top := ht
  obtain ⟨hholds', -, -⟩ := h'.using ht'
  obtain ⟨hboff, hidx, hlast, hb, -⟩ := hholds'.knows
  exact h'.goes ht' (Nat.zero_le _)
    ⟨hholds'.idx, hholds'.aims, hholds'.looks, hboff, hidx, hlast, hb, hf⟩
    (.same (fun _ hi => .inl hi) fun _ hl => hl)

/-- It stores a block that is not before the one that the pointer has. -/
theorem Inv.stores (side : Side) {o : Nat} (hb : m.At k b) (hk : m.pos z side ≤ k)
    (hoff : k * cfg.blockSize ≤ S.off side) (ho : o ≤ k * cfg.blockSize) (hdvd : cfg.blockSize ∣ o)
    (htop : top' ≤ S.writeOffset) (hidx : ∀ i, p'.idx = some i → p.idx = some i)
    (hside : ∀ s, p'.side = some s → p.side = some s) (haims : p'.aims = false)
      (hlooks : p'.looks = false)
    (hknows : Knows cfg (S.setHazard z ((S.hazard z).store b o side))
      (m.set z (Function.update (m.pos z) side k) (m.low z)) z p') :
    ∃ m a, Inv cfg l ((S.setHazard z ((S.hazard z).store b o side)).goes t (.uses z p' top')) m
      a := by
  obtain ⟨hholds, hseats, -⟩ := h.using ht
  set v := (S.hazard z).store b o side with hv
  set m' := m.set z (Function.update (m.pos z) side k) (m.low z) with hm'
  have hpos : ∀ s, m'.pos z s = if s = side then k else m.pos z s := by
    intro s
    rw [hm', pos_set, Function.update_apply]
  have hseats' : ∀ s, Seat cfg (S.setHazard z v) m' m.lo z s := by
    intro s
    by_cases hs : s = side
    · subst hs
      have hps : m'.pos z s = k := (hpos s).trans (if_pos rfl)
      refine ⟨?_, ?_, ?_, ?_, ?_⟩
      · rw [hazard_setHazard, hps, hv, HazardPtr.block_store, if_pos rfl]
        exact congrArg some hb.2.symm
      · rw [hps]
        exact (hseats s).le.trans hk
      · rw [hps]
        exact hb.1
      · rw [hps, off_setHazard]
        exact hoff
      · rw [hazard_setHazard, hps, hv, HazardPtr.nextProtect_store, if_pos rfl]
        exact ho
    · refine (hseats s).congr ?_ ?_ off_setHazard rfl ((hpos s).trans (if_neg hs))
      · rw [hazard_setHazard, hv, HazardPtr.block_store, if_neg hs]
      · rw [hazard_setHazard, hv, HazardPtr.nextProtect_store, if_neg hs]
  have hfresh : ∀ s q, v.block s = some q → q < S.heap.fresh := by
    intro s q hq
    rw [hv, HazardPtr.block_store] at hq
    split_ifs at hq with hs
    · cases hq
      have hfirst := h.heaps.lo.1
      rw [← hb.2]
      exact h.heaps.ok.fresh k ⟨hfirst.trans ((hseats side).le.trans hk), hb.1⟩
    · exact h.nodes.fresh z s q hq
  have hdvds : ∀ s, cfg.blockSize ∣ v.nextProtect s := by
    intro s
    rw [hv, HazardPtr.nextProtect_store]
    split_ifs
    · exact hdvd
    · exact h.nodes.dvd z s
  have hactive : v.activeOffset = (S.hazard z).activeOffset := HazardPtr.activeOffset_store
  have hholds' : Holds cfg (S.setHazard z v) m' z p' := by
    refine ⟨fun i hi => ?_, fun hf => ?_, fun hf => ?_, hknows⟩
    · obtain ⟨hact, hlo, hi'⟩ := hholds.idx i (hidx i hi)
      rw [hazard_setHazard, hactive]
      refine ⟨hact, hlo, fun s hs => ?_⟩
      rw [off_setHazard]
      exact hi' s (hside s hs)
    · rw [haims] at hf
      cases hf
    · rw [hlooks] at hf
      cases hf
  have hmoves : Moves S m z p m' p' := by
    refine ⟨fun i hi => .inl (hidx i hi), fun s => ?_, fun s hl => ?_⟩
    · rw [hpos]
      split_ifs with hs
      · rw [hs]
        exact hk
      · exact le_rfl
    · rw [hl.1] at hlooks
      cases hlooks
  obtain ⟨rest, hinv⟩ := h.works ht v _ _ HazardPtr.owned_store HazardPtr.next_store hfresh hdvds
    (by rw [hactive]; exact h.nodes.active z) hseats' htop hholds' hmoves
  exact ⟨_, _, hinv⟩

/-- `post` stores its block, and the offset of the one that it has started from. -/
theorem Inv.store {last boff target stop : Nat} (hp : p = .ends idx last boff b (.found target))
    (hidx : idx < stop) (hstop : stop ≤ last + 1) :
    ∃ m a, Inv cfg l (((S.setBlock z (some target) .write).setNext z boff .write).goes t
      (.uses z (.has .write idx idx stop b) 0)) m a := by
  subst hp
  obtain ⟨hholds, -, -⟩ := h.using ht
  obtain ⟨hboff, hle, hlast, hb, hlow, htarget⟩ := hholds.knows
  have hpos := (Nat.le_div_iff_mul_le cfg.blockSize_pos).mpr
    ((hholds.aims rfl .write rfl).2 idx rfl)
  have hend : (stop - 1) / cfg.blockSize ≤ m.chain.last :=
    (Nat.div_le_div_right (by omega)).trans htarget.1
  rw [store_eq]
  refine h.stores ht .write htarget (hpos.trans (Nat.div_le_div_right hle)) ?_ ?_ ?_ (Nat.zero_le _)
    (fun _ hi => hi) (fun _ hs => hs) rfl rfl ⟨le_rfl, hidx, hend, hb⟩
  · exact (Nat.div_mul_le_self ..).trans hlast
  · rw [hboff]
    exact Nat.mul_le_mul_right _ hlow
  · rw [hboff]
    exact Nat.dvd_mul_left ..

/-- `post_bulk` stores its last block. -/
theorem Inv.swap {last boff target : Nat} (hp : p = .ends idx last boff b (.found target)) :
    ∃ m a, Inv cfg l ((S.setBlock z (some target) .write).goes t
      (.uses z (.swaps idx last b target) 0)) m a := by
  subst hp
  obtain ⟨hholds, hseats, -⟩ := h.using ht
  obtain ⟨hboff, hle, hlast, hb, hlow, htarget⟩ := hholds.knows
  have hpos := (Nat.le_div_iff_mul_le cfg.blockSize_pos).mpr
    ((hholds.aims rfl .write rfl).2 idx rfl)
  have hpos' := hpos.trans (Nat.div_le_div_right hle)
  rw [setBlock_eq]
  refine h.stores ht .write htarget hpos' ((Nat.div_mul_le_self ..).trans hlast) ?_
    (h.nodes.dvd z .write) (Nat.zero_le _) (fun _ hi => hi) (fun _ hs => hs) rfl rfl
      ⟨hle, ?_, hb, htarget⟩
  · exact (hseats .write).protect.trans (Nat.mul_le_mul_right _ hpos')
  · rw [pos_set, Function.update_self]

/-- It stores the offset of that block. -/
theorem Inv.guard {last target : Nat} (hp : p = .swaps idx last b target)
    (hp' : p' = .out ∨ ∃ stop, p' = .has .write idx idx stop b ∧ idx < stop ∧ stop ≤ last + 1) :
    ∃ m a, Inv cfg l ((S.setNext z (S.offset target) .write).goes t (.uses z p' 0)) m a := by
  subst hp
  obtain ⟨hholds, hseats, -⟩ := h.using ht
  obtain ⟨hle, hpos, hb, htarget⟩ := hholds.knows
  obtain ⟨-, hlo, -⟩ := hholds.idx idx rfl
  have hlo' : m.lo ≤ last / cfg.blockSize :=
    (Nat.le_div_iff_mul_le cfg.blockSize_pos).mpr (hlo.trans hle)
  have hseat := hseats .write
  rw [setNext_eq hseat.block, h.at_offset htarget hlo']
  have ho : last / cfg.blockSize * cfg.blockSize ≤ m.pos z .write * cfg.blockSize :=
    Nat.mul_le_mul_right _ hpos
  have hself : m.At (m.pos z .write) (m.chain.block (m.pos z .write)) := ⟨hseat.last, rfl⟩
  rcases hp' with rfl | ⟨stop, rfl, hidx, hstop⟩
  · exact h.stores ht .write hself le_rfl hseat.off ho (Nat.dvd_mul_left ..) (Nat.zero_le _)
      (fun _ hi => by cases hi) (fun _ hs => by cases hs) rfl rfl trivial
  · exact h.stores ht .write hself le_rfl hseat.off ho (Nat.dvd_mul_left ..) (Nat.zero_le _)
      (fun _ hi => hi) (fun _ hs => hs) rfl rfl
      ⟨le_rfl, hidx, (Nat.div_le_div_right (by omega)).trans htarget.1, hb⟩

/-- `pull` and `try_pull` store their block, and the offset of the one before. -/
theorem Inv.hold {act : Option Nat} {boff : Nat}
    (hp : p = .seeks .read act idx (some boff) (.found b)) :
    ∃ m a, Inv cfg l (((S.setBlock z (some b) .read).setNext z boff .read).goes t
      (.uses z (.has .read idx idx (idx + 1) b) top)) m a := by
  subst hp
  obtain ⟨hholds, -, htop⟩ := h.using ht
  obtain ⟨-, hoff, hle, hb⟩ := hholds.knows
  have hboff := hoff boff rfl
  have hpos := (Nat.le_div_iff_mul_le cfg.blockSize_pos).mpr ((hholds.aims rfl .read rfl).2 idx rfl)
  rw [store_eq]
  refine h.stores ht .read hb hpos ?_ ?_ ?_ htop (fun _ hi => hi) (fun _ hs => hs) rfl rfl
    ⟨le_rfl, Nat.lt_succ_self idx, hb.1, hb⟩
  · exact (Nat.div_mul_le_self ..).trans ((hholds.idx idx rfl).2.2 .read rfl)
  · rw [hboff]
    exact Nat.mul_le_mul_right _ hle
  · rw [hboff]
    exact Nat.dvd_mul_left ..

/-- `post_bulk` goes on in its block. -/
theorem Inv.item {stop : Nat} (hp : p = .has .write idx n stop b) (hstop : n + 1 ≠ stop)
    (hslot : cfg.slot (n + 1) ≠ 0) :
    ∃ m a, Inv cfg l (S.goes t (.uses z (.has .write idx (n + 1) stop b) 0)) m a := by
  subst hp
  obtain ⟨hholds, -, -⟩ := h.using ht
  obtain ⟨hle, hlt, hend, hb⟩ := hholds.knows
  have hdiv : (n + 1) / cfg.blockSize = n / cfg.blockSize :=
    Nat.succ_div_of_not_dvd fun hdvd => hslot (Nat.mod_eq_zero_of_dvd hdvd)
  refine h.goes ht (Nat.zero_le _) ⟨hholds.idx, fun hf => Bool.noConfusion hf,
    fun hf => Bool.noConfusion hf, Nat.le_succ_of_le hle, by omega, hend, ?_⟩
    (.same (fun _ hi => .inl hi) fun _ hl => hl)
  rw [hdiv]
  exact hb

/-- It has come to the end of the block. -/
theorem Inv.cross {stop : Nat} (hp : p = .has .write idx n stop b) (hslot : cfg.slot (n + 1) = 0) :
    ∃ m a, Inv cfg l (S.goes t (.uses z (.crosses idx (n + 1) stop b) 0)) m a := by
  subst hp
  obtain ⟨hholds, -, -⟩ := h.using ht
  obtain ⟨hle, hlt, hend, hb⟩ := hholds.knows
  have hdiv : (n + 1) / cfg.blockSize = n / cfg.blockSize + 1 :=
    Nat.succ_div_of_dvd (Nat.dvd_of_mod_eq_zero hslot)
  refine h.goes ht (Nat.zero_le _) ⟨hholds.idx, fun hf => Bool.noConfusion hf,
    fun hf => Bool.noConfusion hf, Nat.lt_succ_of_le hle, hlt, hend, hslot, ?_⟩
    (.same (fun _ hi => .inl hi) fun _ hl => Bool.noConfusion hl.1)
  rw [hdiv, Nat.add_sub_cancel]
  exact hb

/-- It follows the link. -/
theorem Inv.next {stop b' : Nat} (hp : p = .crosses idx n stop b)
    (hb' : (S.heap.block b).next = some b') (hstop : n ≠ stop) :
    ∃ m a, Inv cfg l (S.goes t (.uses z (.has .write idx n stop b') 0)) m a := by
  subst hp
  obtain ⟨hholds, -, -⟩ := h.using ht
  obtain ⟨hlt, hle, hend, hslot, hb⟩ := hholds.knows
  obtain ⟨-, hlo, -⟩ := hholds.idx idx rfl
  have hpos := cfg.blockSize_pos
  obtain ⟨k, hk⟩ := Nat.dvd_of_mod_eq_zero hslot
  have hdiv : n / cfg.blockSize = k := by rw [hk, Nat.mul_div_cancel_left _ hpos]
  rw [hdiv] at hb
  have hlo' : m.lo < k := by
    refine Nat.lt_of_mul_lt_mul_right (a := cfg.blockSize) ?_
    rw [Nat.mul_comm k, ← hk]
    exact hlo.trans_lt hlt
  have hlast : k ≤ m.chain.last := by
    rw [← hdiv]
    exact (Nat.div_le_div_right (by omega)).trans hend
  have hhas : m.chain.Has (k - 1) := ⟨h.heaps.lo.1.trans (by omega), hb.1⟩
  refine h.goes ht (Nat.zero_le _) ⟨hholds.idx, fun hf => Bool.noConfusion hf,
    fun hf => Bool.noConfusion hf, hlt.le, by omega, hend, ?_⟩
    (.same (fun _ hi => .inl hi) fun _ hl => Bool.noConfusion hl.1)
  rw [hdiv]
  rcases Reclaim.next_of_has h.heaps.ok hhas hb.2 with ⟨hnone, -⟩ | ⟨q, hq, -, hblock⟩
  · cases hnone.symm.trans hb'
  · cases hq.symm.trans hb'
    rw [Nat.sub_add_cancel (by omega)] at hblock
    exact ⟨hlast, hblock⟩

/-- The operation ends. -/
theorem Inv.leave (off : Nat) :
    ∃ m a, Inv cfg l ((S.setActive z (off + cfg.inactive)).goes t (.uses z .out 0)) m a := by
  obtain ⟨-, hseats, -⟩ := h.using ht
  set v := { S.hazard z with activeOffset := off + cfg.inactive } with hv
  have hseats' : ∀ s, Seat cfg (S.setHazard z v) (m.set z (m.pos z) (m.low z)) m.lo z s := fun s =>
    (hseats s).congr (by rw [hazard_setHazard]; cases s <;> rfl)
      (by rw [hazard_setHazard]; cases s <;> rfl) off_setHazard rfl (by rw [pos_set])
  obtain ⟨rest, hinv⟩ := h.works ht v (m.pos z) (m.low z) rfl rfl (h.nodes.fresh z) (h.nodes.dvd z)
    (.inr (Nat.le_add_left ..)) hseats' (Nat.zero_le _) holds_out
    ⟨fun _ hi => (by cases hi), fun _ => (by rw [pos_set]), fun _ hl => Bool.noConfusion hl.1⟩
  exact ⟨_, _, hinv⟩

end

/-! ## The offsets -/

/-- The offsets grow. -/
theorem Inv.tickets (h : Inv cfg l S m a) {w r : Nat} (hw : S.writeOffset ≤ w)
    (hr : S.readOffset ≤ r) :
    ∃ rest, Inv cfg l { S with writeOffset := w, readOffset := r } m { a with rest } :=
  h.grow (.of_grows h.heaps.ok (.refl h.heaps.ok)) (fun _ hb => .inl hb) hw hr

theorem Inv.guards {act : Nat} (h : Inv cfg l S m a)
    (ht : S.task t = .uses z (.guards side act) top) :
    act = (S.hazard z).activeOffset ∧ (S.hazard z).activeOffset = (S.hazard z).nextProtect side :=
  (h.using ht).1.knows

theorem Inv.take (h : Inv cfg l S m a) {act : Nat} (n : Nat)
    (ht : S.task t = .uses z (.guards .write act) top) :
    ∃ m a, Inv cfg l ({ S with writeOffset := S.writeOffset + n }.goes t
      (.uses z (.ticket .write act S.writeOffset) (S.writeOffset + (n - 1)))) m a := by
  obtain ⟨hact, hguard⟩ := h.guards ht
  obtain ⟨m₁, a₁, h₁⟩ := h.ticket ht hact hguard
  obtain ⟨rest, h₂⟩ :=
    h₁.tickets (w := S.writeOffset + n) (r := S.readOffset) (Nat.le_add_right ..) le_rfl
  set S₂ : Sight := { S with writeOffset := S.writeOffset + n }.goes t
    (.uses z (.ticket .write act S.writeOffset) 0) with hS₂
  have h₂ : Inv cfg l S₂ m₁ { a₁ with rest } := h₂
  have ht₂ : S₂.task t = .uses z (.ticket .write act S.writeOffset) 0 := task_goes
  have htop : S.writeOffset + (n - 1) ≤ S₂.writeOffset :=
    Nat.add_le_add_left (Nat.sub_le ..) S.writeOffset
  obtain ⟨m₃, a₃, h₃⟩ := h₂.tops ht₂ htop
  rw [hS₂, goes_goes] at h₃
  exact ⟨m₃, a₃, h₃⟩

theorem Inv.claim (h : Inv cfg l S m a) {act : Nat}
    (ht : S.task t = .uses z (.guards .read act) top) :
    ∃ m a, Inv cfg l ({ S with readOffset := S.readOffset + 1 }.goes t
      (.uses z (.ticket .read act S.readOffset) 0)) m a := by
  obtain ⟨hact, hguard⟩ := h.guards ht
  obtain ⟨m₁, a₁, h₁⟩ := h.ticket ht hact hguard
  obtain ⟨rest, h₂⟩ :=
    h₁.tickets (w := S.writeOffset) (r := S.readOffset + 1) le_rfl (Nat.le_succ _)
  exact ⟨m₁, _, h₂⟩

/-- **What an operation does with the blocks.** -/
theorem Inv.work (h : Inv cfg l S m a) (hw : Work cfg t z S S') : ∃ m a, Inv cfg l S' m a := by
  cases hw with
  | drop ht => exact h.drop ht
  | protect side ht => exact h.protect ht side
  | take n ht => exact h.take n ht
  | claim ht => exact h.claim ht
  | observe ht hp =>
    rcases hp with rfl | ⟨idx, rfl⟩
    · obtain ⟨hact, hguard⟩ := h.guards ht
      exact h.ticket ht hact hguard
    · obtain ⟨hholds, -, -⟩ := h.using ht
      exact h.ticket ht hholds.knows (hholds.aims rfl .read rfl).1
  | written ht => exact h.tops ht le_rfl
  | back ht => exact h.back ht rfl
  | load ht hb => exact h.load ht rfl hb
  | offset ht => exact h.loadOffset ht rfl
  | forget ht hact hboff => exact h.forget ht rfl hact hboff
  | lower ht => exact h.tops ht (Nat.zero_le _)
  | find ht => exact h.walkOn ht rfl
  | @won act boff idx top f ht hidx =>
    subst hidx
    obtain ⟨rest, h₁⟩ :=
      h.tickets (w := S.writeOffset) (r := S.readOffset + 1) le_rfl (Nat.le_succ _)
    have hself : ({ S with readOffset := S.readOffset + 1 } : Sight).goes t
        (.uses z (.seeks .read act S.readOffset boff f) top) =
          { S with readOffset := S.readOffset + 1 } := goes_self ht
    rw [hself]
    exact ⟨m, _, h₁⟩
  | meets ht hidx hlast => exact h.meets ht rfl hidx hlast
  | lands ht hidx => exact h.lands ht rfl hidx
  | findEnd ht => exact h.walkEnd ht rfl
  | ended ht hlast =>
    obtain ⟨hholds, -, -⟩ := h.using ht
    rw [hlast hholds.knows.2.1]
    exact h.tops ht (Nat.zero_le _)
  | store ht hidx hstop => exact h.store ht rfl hidx hstop
  | swap ht => exact h.swap ht rfl
  | guard ht hp => exact h.guard ht rfl hp
  | hold ht => exact h.hold ht rfl
  | item ht hstop hslot => exact h.item ht rfl hstop hslot
  | cross ht hslot => exact h.cross ht rfl hslot
  | next ht hb hstop => exact h.next ht rfl hb hstop

theorem Inv.doing (h : Inv cfg l S m a) (hd : Doing cfg t z S S') : ∃ m a, Inv cfg l S' m a := by
  induction hd with
  | refl => exact ⟨m, a, h⟩
  | tail _ hw ih =>
    obtain ⟨m₁, a₁, h₁⟩ := ih
    exact h₁.work hw

end Sight

end CoroUtil.Channel
