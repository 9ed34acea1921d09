import CoroUtil.Channel.Reclamation.Calls

/-!
# `get_hazard_ptr`

`Inv.acquires` is a step of `get_hazard_ptr` that goes on.  It reads the head that the
reclaim has stored, and when it has found `reclaim_counter` as it was, that head, or the
one before it, has been the committed one since (`floor`).
-/

namespace CoroUtil.Channel

open CoroUtil.General CoroUtil.Blocks

namespace Sight

variable {V : Type} {cfg : Config} {l l' : List Nat} {S S' S₁ : Sight} {m m' : Map} {a a' : Plan}
  {f k b z y n p idx top rc : Nat} {side : Side} {q q' : Acquire} {t u : Tid} {v : HazardPtr}
  {w : Option Nat} {s : State V} {c : Call V}

theorem HeadAt.goes {k : Task} (h : HeadAt cfg S m f b) : HeadAt cfg (S.goes t k) m f b := by
  obtain ⟨j, hj, hat, hoff⟩ := h
  refine ⟨j, hj, hat, fun side => ?_⟩
  rw [off_goes]
  exact hoff side

theorem Calling.goes {k : Task} (h : Calling cfg S m f q) : Calling cfg (S.goes t k) m f q where
  rc := h.rc
  head := h.head
  stores := by cases q <;> exact h.stores
  safe heq := by
    have hs := h.safe heq
    cases q with
    | initActive rc p off head | initRead rc p head => exact HeadAt.goes hs
    | initWrite rc p head => exact ⟨HeadAt.goes hs.1, hs.2.goes⟩
    | count rc p | check rc p => exact fun side => (hs side).goes
    | loadCount | next | owned | take | append | headOffset | headBlock => trivial

theorem Seat.mono (h : Seat cfg S m f z side) (hn : n ≤ f) : Seat cfg S m n z side :=
  ⟨h.block, hn.trans h.le, h.last, h.off, h.protect⟩

/-- The blocks that a call may still be given are at or after the committed head. -/
theorem Inv.lo_le_floor (h : Inv cfg l S m a) : m.lo ≤ floor m.lo a.new S.run := by
  have hruns := h.runs
  cases hrun : S.run with
  | none => exact le_rfl
  | some x =>
    obtain ⟨z, idx, r⟩ := x
    rw [hrun] at hruns
    have hsite := hruns.2.2.1
    cases r with
    | check x new => exact hsite.2.le
    | _ => exact le_rfl

theorem Ring.haz_none (h : S.Ring l) (ht : S.task t = .acquires q) : S.haz t = none := by
  have hfits := h.fits t
  rw [View.Fits, role_of_task ht] at hfits
  exact hfits.2

/-- A step of `get_hazard_ptr` that does not return. -/
theorem Inv.acquires (h : Inv cfg l S m a) (ht : S.task t = .acquires q)
    (hf : Frame cfg l l' S (S₁.goes t (.acquires q')) m m') (htask : S₁.task = S.task)
    (hhaz : S₁.haz = S.haz) (hlock : S₁.blocksLock = S.blocksLock)
    (hring : (S₁.goes t (.acquires q')).Ring l') (hnodes : Nodes cfg S₁)
    (hapart : ∀ z, w ≠ some z → Apart S S₁ m m' z)
    (hw : ∀ z, w = some z → q.node = some z ∨ z = S.hazards)
    (hcalling : Calling cfg S₁ m' (floor m.lo a.new S.run) q')
    (hcheck : ∀ rc p, q' = .check rc p → S.hazPtrCounter < S₁.hazPtrCounter) :
    ∃ m a, Inv cfg l' (S₁.goes t (.acquires q')) m a := by
  have hself : (S₁.goes t (.acquires q')).task t = .acquires q' := task_goes
  have hother : ∀ u, u ≠ t → (S₁.goes t (.acquires q')).task u = S.task u := fun u hu =>
    (task_goes_of_ne hu).trans (congrFun htask u)
  have hlocked : ∀ u, ((S₁.goes t (.acquires q')).task u).locked = (S.task u).locked := by
    intro u
    by_cases hu : u = t
    · rw [hu, hself, ht]
      rfl
    · rw [hother u hu]
  have hrun : (S₁.goes t (.acquires q')).run = S.run := by
    rw [run, run]
    change S₁.blocksLock.bind _ = _
    rw [hlock]
    congr 1
    funext u
    by_cases hu : u = t
    · rw [hu, hself, ht]
      rfl
    · rw [hother u hu]
  have hhas : ∀ z, (S₁.goes t (.acquires q')).Has t z → q' = .check S₁.reclaimCounter z := by
    rintro z (⟨hz, -⟩ | hz)
    · have hnone : S₁.haz t = none := by rw [hhaz, Ring.haz_none h.ring ht]
      cases hnone.symm.trans hz
    · exact Task.acquires.inj (hself.symm.trans hz)
  have hlock' : ∀ u, ((S₁.goes t (.acquires q')).task u).locked = true ↔
      (S₁.goes t (.acquires q')).blocksLock = some u := by
    intro u
    rw [hlocked]
    change _ ↔ S₁.blocksLock = some u
    rw [hlock]
    exact h.lock u
  have hcalling' := hcalling.goes (t := t) (k := .acquires q')
  obtain ⟨rest, hinv⟩ := h.aside (w := w) (T := (· = t)) hf hring hrun hlock'
    ⟨hnodes.fresh, hnodes.dvd, hnodes.active⟩ (fun u hu => ⟨hother u hu, congrFun hhaz u⟩)
    (fun z hz => ⟨(hapart z hz).alike, (hapart z hz).pos, (hapart z hz).low⟩)
    (fun u z hu hz heq => by
      rcases hw z heq with hnode | hnew
      · exact hu (h.ring.leases.inj u t z hz (Ring.node_of_task h.ring ht hnode))
      · exact Nat.lt_irrefl _ (hnew ▸ h.ring.lt u z hz))
    (by
      rintro u rfl z hz side
      have hq := hhas z hz
      subst hq
      exact (hcalling'.safe rfl side).mono h.lo_le_floor)
    (by
      rintro u rfl z p top hk
      cases hself.symm.trans hk)
    (by
      rintro u rfl z p hd
      rw [hself] at hd
      cases hd)
    (by
      rintro u rfl q'' hk
      cases hself.symm.trans hk
      exact hcalling')
    (by
      rintro u rfl
      rw [hself]
      trivial)
    (by
      rintro u rfl z hz
      refine .inl ⟨?_, hcheck _ _ (hhas z hz)⟩
      rw [hself]
      rfl)
  exact ⟨_, _, hinv⟩

/-- It has no blocks yet. -/
def Plain : Acquire → Prop
  | .loadCount | .next .. | .owned .. | .take .. | .append .. | .headOffset .. => True
  | .headBlock .. | .initActive .. | .initRead .. | .initWrite .. | .count .. | .check .. => False

theorem Calling.plain (hq : Plain q) (hrc : ∀ n, q.rc = some n → n ≤ S.reclaimCounter) :
    Calling cfg S m f q := by
  cases q with
  | headBlock | initActive | initRead | initWrite | count | check => exact hq.elim
  | loadCount | next | owned | take | append | headOffset =>
    exact ⟨hrc, fun b hb => (by cases hb), trivial, fun _ => trivial⟩

theorem frame_of (h : Inv cfg l S m a) {S' : Sight} (hheap : S'.heap = S.heap)
    (hwrite : S'.writeOffset = S.writeOffset) (hread : S'.readOffset = S.readOffset)
    (hacq : S.hazPtrCounter ≤ S'.hazPtrCounter) (hlinks : Links S.next S'.next l l')
    (hhead : S'.headBlock = S.headBlock) (hoff : S'.headOffset = S.headOffset)
    (htail : S'.tailBlock = S.tailBlock) (hrc : S'.reclaimCounter = S.reclaimCounter)
    (hcommitted : S'.committed = S.committed) (hchain : m'.chain = m.chain) (hlo : m'.lo = m.lo) :
      Frame cfg l l' S S' m m' := by
  refine ⟨?_, fun b hb => ?_, fun side => ?_, hacq, hlinks, hlo, hhead, hoff, htail, hrc,
    hcommitted⟩
  · rw [hheap, hchain]
    exact .of_grows h.heaps.ok (.refl h.heaps.ok)
  · rw [hheap] at hb
    exact .inl hb
  · cases side with
    | write => exact hwrite.symm.le
    | read => exact hread.symm.le

/-- It reads what is shared. -/
theorem Inv.reads (h : Inv cfg l S m a) (ht : S.task t = .acquires q)
    (hring : (S.goes t (.acquires q')).Ring l')
    (hcalling : Calling cfg S m (floor m.lo a.new S.run) q') (hcheck : ∀ rc p, q' ≠ .check rc p) :
    ∃ m a, Inv cfg l' (S.goes t (.acquires q')) m a :=
  h.acquires (w := none) ht (frame_of h rfl rfl rfl le_rfl (Ring.links h.ring hring fun _ _ => rfl)
    rfl rfl rfl rfl rfl rfl rfl) rfl rfl rfl hring ⟨h.nodes.fresh, h.nodes.dvd, h.nodes.active⟩
    (fun _ _ => ⟨.refl _, rfl, rfl⟩) (fun _ hw => by cases hw) hcalling
    fun rc p hq => absurd hq (hcheck rc p)

theorem alike_owned {x : HazardPtr} {o : Bool} : Alike x { x with owned := o } :=
  ⟨rfl, fun side => by cases side <;> rfl, rfl, rfl⟩

theorem alike_next {x : HazardPtr} {n : Nat} : Alike x { x with next := n } :=
  ⟨rfl, fun side => by cases side <;> rfl, rfl, rfl⟩

/-- It owns a hazard pointer, or links one. -/
theorem Inv.relinks (h : Inv cfg l S m a) (ht : S.task t = .acquires q) (hv : Alike (S.hazard p) v)
    (hlinks : Links S.next (S.setHazard p v).next l l')
    (hring : ((S.setHazard p v).goes t (.acquires q')).Ring l') (hq : Plain q')
    (hrc : q'.rc = q.rc) :
    ∃ m a, Inv cfg l' ((S.setHazard p v).goes t (.acquires q')) m a := by
  have halike : ∀ z, Alike (S.hazard z) ((S.setHazard p v).hazard z) := by
    intro z
    by_cases hz : z = p
    · rw [hz, hazard_setHazard]
      exact hv
    · rw [hazard_setHazard_of_ne hz]
      exact .refl _
  refine h.acquires (w := none) ht
    (frame_of h rfl rfl rfl le_rfl hlinks rfl rfl rfl rfl rfl rfl rfl)
    rfl rfl rfl hring ⟨fun z side b hb => ?_, fun z side => ?_, fun z => ?_⟩
    (fun z _ => ⟨halike z, rfl, rfl⟩) (fun _ hw => by cases hw)
    (.plain hq fun n hn => (h.calling t q ht).rc n (hrc ▸ hn)) fun rc p heq => ?_
  · rw [(halike z).block] at hb
    exact h.nodes.fresh z side b hb
  · rw [nextProtect_alike (halike z)]
    exact h.nodes.dvd z side
  · rw [(halike z).active]
    exact h.nodes.active z
  · subst heq
    exact hq.elim

/-- It writes to the hazard pointer that it has taken. -/
theorem Inv.writes (h : Inv cfg l S m a) (ht : S.task t = .acquires q) (hp : q.node = some p)
    (v : HazardPtr) (pos : Side → Nat) (hnext : v.next = (S.hazard p).next)
    (hfresh : ∀ side b, v.block side = some b → b < S.heap.fresh)
    (hdvd : ∀ side, cfg.blockSize ∣ v.nextProtect side)
    (hactive : cfg.blockSize ∣ v.activeOffset ∨ cfg.inactive ≤ v.activeOffset)
    (hring : ((S.setHazard p v).goes t (.acquires q')).Ring l')
    (hcalling : Calling cfg (S.setHazard p v) (m.set p pos (m.low p)) (floor m.lo a.new S.run) q')
    (hcheck : ∀ rc p, q' ≠ .check rc p) :
    ∃ m a, Inv cfg l' ((S.setHazard p v).goes t (.acquires q')) m a := by
  have hhaz : ∀ y, (S.setHazard p v).hazard y = if y = p then v else S.hazard y := fun y =>
    Function.update_apply ..
  have hnexts : ∀ y ∈ l, ((S.setHazard p v).goes t (.acquires q')).next y = S.next y := by
    intro y _
    change ((S.setHazard p v).hazard y).next = _
    rw [hhaz]
    split_ifs with hy
    · rw [hnext, hy, Sight.next]
    · rfl
  have hf : Frame cfg l l' S ((S.setHazard p v).goes t (.acquires q')) m (m.set p pos (m.low p)) :=
    frame_of h rfl rfl rfl le_rfl (Ring.links h.ring hring hnexts) rfl rfl rfl rfl rfl rfl rfl
  refine h.acquires (w := some p) ht hf rfl rfl rfl hring
    ⟨fun z side b hb => ?_, fun z side => ?_, fun z => ?_⟩
    (fun z hz => ?_) (fun z hz => ?_) hcalling fun rc p heq => absurd heq (hcheck rc p)
  · rw [hhaz] at hb
    split_ifs at hb
    · exact hfresh side b hb
    · exact h.nodes.fresh z side b hb
  · rw [hhaz]
    split_ifs
    · exact hdvd side
    · exact h.nodes.dvd z side
  · rw [hhaz]
    split_ifs
    · exact hactive
    · exact h.nodes.active z
  · have hne : z ≠ p := fun heq => hz (congrArg some heq.symm)
    refine apart_set ?_ hne
    rw [hazard_setHazard_of_ne hne]
    exact .refl _
  · cases hz
    exact .inl hp

theorem acquires_of_pc (hpc : (s.token t).pc = .acquire c q) : s.sight.task t = .acquires q :=
  congrArg Pc.task hpc

/-- It goes past a hazard pointer that has an owner. -/
theorem Inv.passes (h : Inv cfg l s.sight m a) (hpc : (s.token t).pc = .acquire c q)
    (hrc : q.rc = some rc)
    (hring : (s.passHazard cfg t c rc p n).sight.Ring l') :
    ∃ m a, Inv cfg l' (s.passHazard cfg t c rc p n).sight m a := by
  have ht := acquires_of_pc hpc
  have hle : ∀ k, some rc = some k → k ≤ s.reclaimCounter := fun k hk =>
    (h.calling t q ht).rc k (hrc.trans hk)
  rw [State.passHazard] at hring ⊢
  split at hring
  · next hn =>
    rw [if_pos hn]
    rw [State.setAcquire, State.sight_setPc] at hring ⊢
    set S₁ : Sight := { s.sight.setHazard s.hazards
      (.new cfg true n) with hazards := s.hazards + 1 } with hS₁
    have hring : (S₁.goes t (.acquires (.append rc p n s.hazards))).Ring l' := hring
    change ∃ m a, Inv cfg l' (S₁.goes t (.acquires (.append rc p n s.hazards))) m a
    have hhaz : ∀ y, S₁.hazard y = if y = s.hazards then .new cfg true n else s.sight.hazard y :=
      fun y => Function.update_apply ..
    have hnexts : ∀ y ∈ l,
      (S₁.goes t (.acquires (.append rc p n s.hazards))).next y = s.sight.next y := by
      intro y hy
      have hlt : y < s.hazards := ((h.ring.mem y).mp hy).1
      change (S₁.hazard y).next = _
      rw [hhaz, if_neg (Nat.ne_of_lt hlt)]
      rfl
    refine h.acquires (w := some s.hazards) ht (frame_of h rfl rfl rfl le_rfl
      (Ring.links h.ring hring hnexts) rfl rfl rfl rfl rfl rfl rfl) rfl rfl rfl hring
      ⟨fun z side b hb => ?_, fun z side => ?_, fun z => ?_⟩ (fun z hz => ⟨?_, rfl, rfl⟩)
      (fun z hz => .inr (Option.some.inj hz).symm) (.plain trivial hle) fun _ _ hq => by cases hq
    · rw [hhaz] at hb
      split_ifs at hb
      · cases side <;> cases hb
      · exact h.nodes.fresh z side b hb
    · rw [hhaz]
      split_ifs
      · cases side <;> exact Nat.dvd_zero _
      · exact h.nodes.dvd z side
    · rw [hhaz]
      split_ifs
      · exact .inr le_rfl
      · exact h.nodes.active z
    · rw [hhaz, if_neg fun heq => hz (congrArg some heq.symm)]
      exact .refl _
  · next hn =>
    rw [if_neg hn]
    rw [State.setAcquire, State.sight_setPc] at hring ⊢
    exact h.reads ht hring (.plain trivial hle) fun _ _ hq => by cases hq

/-- It links the hazard pointer that it has allocated. -/
theorem Inv.appends (h : Inv cfg l s.sight m a) {new : Nat}
    (hpc : (s.token t).pc = .acquire c (.append rc p n new))
    (hring : (s.acquireStep .natural cfg t c (.append rc p n new)).sight.Ring l') :
    ∃ m a, Inv cfg l' (s.acquireStep .natural cfg t c (.append rc p n new)).sight m a := by
  have ht := acquires_of_pc hpc
  obtain ⟨hp, -, hnew⟩ := h.ring.on t _ (role_of_task ht)
  have hout : new ∉ l := by
    intro hmem
    refine ((h.ring.mem new).mp hmem).2 t ?_
    rw [role_of_task ht]
    rfl
  rw [State.acquireStep] at hring ⊢
  dsimp only at hring ⊢
  split at hring
  · next heq =>
    rw [if_pos heq]
    rw [State.setAcquire, State.sight_setPc] at hring ⊢
    have hring : ((s.sight.setHazard p { s.hazard p with next := new }).goes t
      (.acquires (.headOffset rc new))).Ring l' := hring
    have hnext : (s.sight.setHazard p { s.hazard p with next := new }).next =
        Function.update s.sight.next p new := by
      funext y
      rw [Sight.next, Function.update_apply]
      split_ifs with hy
      · rw [hy, hazard_setHazard]
      · rw [hazard_setHazard_of_ne hy]
        rfl
    obtain ⟨l'', hcycle, hmem⟩ := h.ring.cycle.insert hp hout (hnew.trans heq.symm)
    have hcycle' : Cycle (Function.update s.sight.next p new) hazardPtrList l' := by
      rw [← hnext]
      exact hring.cycle
    have hsub : ∀ y ∈ l'', y ∈ l' :=
      hcycle.path.mem (fun _ hx => hcycle'.next_mem hx) hcycle'.start_mem
    exact h.relinks ht alike_next (.insert p new hp hout (hnew.trans heq.symm) hnext fun y hy =>
      hsub y ((hmem y).mpr (.inl hy))) hring trivial rfl
  · next hne =>
    rw [if_neg hne]
    rw [State.setAcquire, State.sight_setPc] at hring ⊢
    have hring : ((s.sight.setHazard new { s.hazard new with next := (s.hazard p).next }).goes t
      (.acquires (.append rc p (s.hazard p).next new))).Ring l' := hring
    have hnexts : ∀ y ∈ l,
      ((s.sight.setHazard new { s.hazard new with next := (s.hazard p).next }).goes t
        (.acquires (.append rc p (s.hazard p).next new))).next y = s.sight.next y := by
      intro y hy
      have hyn : y ≠ new := by
        rintro rfl
        exact hout hy
      change ((s.sight.setHazard new _).hazard y).next = _
      rw [hazard_setHazard_of_ne hyn]
      rfl
    have hlinks := Ring.links h.ring hring hnexts
    exact h.relinks ht alike_next hlinks hring trivial rfl

theorem HeadAt.set {pos : Side → Nat} {low : Nat} (h : HeadAt cfg S m f b) :
    HeadAt cfg (S.setHazard p v) (m.set p pos low) f b := by
  obtain ⟨k, hk, hat, hoff⟩ := h
  refine ⟨k, hk, hat, fun side => ?_⟩
  rw [off_setHazard]
  exact hoff side

/-- `init_haz_ptr` stores a block. -/
theorem Inv.init (h : Inv cfg l S m a) (ht : S.task t = .acquires q) (hp : q.node = some p)
    (side : Side) (hrc : q'.rc = q.rc) (hb : b < S.heap.fresh)
    (hring : ((S.setBlock p (some b) side).goes t (.acquires q')).Ring l')
    (hhead : ∀ o, q'.head = some o → q.head = some o)
    (hlow : Low cfg S m p) (hstores : ∀ S' m', Low cfg S' m' p → Stores cfg S' m' q')
    (hsafe : q.rc = some S.reclaimCounter → HeadAt cfg S m (floor m.lo a.new S.run) b ∧
      ∀ S' m' f, HeadAt cfg S m f b → (∀ s, s ≠ side → Seat cfg S m f p s → Seat cfg S' m' f p s) →
        Seat cfg S' m' f p side → m'.chain = m.chain → (∀ s, S'.off s = S.off s) →
        Safe cfg S m f q → Safe cfg S' m' f q')
    (hcheck : ∀ rc p, q' ≠ .check rc p) :
    ∃ m a, Inv cfg l' ((S.setBlock p (some b) side).goes t (.acquires q')) m a := by
  have hcalling := h.calling t q ht
  rw [setBlock_eq] at hring ⊢
  set v := (S.hazard p).store b ((S.hazard p).nextProtect side) side with hv
  have hfresh : ∀ s o, v.block s = some o → o < S.heap.fresh := by
    intro s o ho
    rw [hv, HazardPtr.block_store] at ho
    split_ifs at ho
    · cases ho
      exact hb
    · exact h.nodes.fresh p s o ho
  have hprotect : ∀ s, v.nextProtect s = (S.hazard p).nextProtect s := by
    intro s
    rw [hv, HazardPtr.nextProtect_store]
    split_ifs with hs
    · rw [hs]
    · rfl
  have hactive : v.activeOffset = (S.hazard p).activeOffset := HazardPtr.activeOffset_store
  have hlow' : ∀ pos, Low cfg (S.setHazard p v) (m.set p pos (m.low p)) p := by
    intro pos s
    rw [hazard_setHazard, hprotect]
    exact hlow s
  have writes : ∀ pos, (q.rc = some S.reclaimCounter →
      Safe cfg (S.setHazard p v) (m.set p pos (m.low p)) (floor m.lo a.new S.run) q') →
      ∃ m a, Inv cfg l' ((S.setHazard p v).goes t (.acquires q')) m a := by
    intro pos hsafe'
    refine h.writes ht hp v pos HazardPtr.next_store hfresh (fun s => ?_) ?_ hring
      ⟨fun n hn => hcalling.rc n (hrc ▸ hn), fun o ho => hcalling.head o (hhead o ho),
        hstores _ _ (hlow' pos), fun heq => hsafe' (hrc ▸ heq)⟩ hcheck
    · rw [hprotect]
      exact h.nodes.dvd p s
    · rw [hactive]
      exact h.nodes.active p
  by_cases hera : q.rc = some S.reclaimCounter
  · obtain ⟨⟨k, hk, hat, hoff⟩, hsafe⟩ := hsafe hera
    refine writes (Function.update (m.pos p) side k) fun _ => ?_
    refine hsafe _ _ _ ⟨k, hk, hat, hoff⟩ (fun s hs hseat => ?_) ⟨?_, ?_, ?_, ?_, ?_⟩ rfl
      (fun _ => off_setHazard) (hcalling.safe hera)
    · refine hseat.congr ?_ ?_ off_setHazard rfl ?_
      · rw [hazard_setHazard, hv, HazardPtr.block_store, if_neg hs]
      · rw [hazard_setHazard, hprotect]
      · rw [pos_set, Function.update_of_ne hs]
    all_goals rw [pos_set, Function.update_self]
    · rw [hazard_setHazard, hv, HazardPtr.block_store, if_pos rfl]
      exact congrArg some hat.2.symm
    · exact hk
    · exact hat.1
    · rw [off_setHazard]
      exact hoff side
    · rw [hazard_setHazard, hprotect]
      exact (hlow side).trans (Nat.mul_le_mul_right _ (h.lo_le_floor.trans hk))
  · exact writes (m.pos p) fun heq => absurd heq hera

theorem enter_task : ∃ pc, s.enter t z c = s.setPc t pc ∧ pc.task = .uses z .out 0 := by
  cases c with
  | put w => exact ⟨_, rfl, rfl⟩
  | read k => exact ⟨_, rfl, rfl⟩

/-- `get_hazard_ptr` returns, and the operation starts. -/
theorem sight_gets : (({ s with last := Function.update s.last p none }.setToken t
      { s.token t with haz := some p }).enter t p c).sight =
    { s.sight with
      haz := Function.update s.sight.haz t (some p)
      task := Function.update s.sight.task t (.uses p .out 0) } := by
  obtain ⟨pc, heq, htask⟩ :=
    enter_task (s := { s with last := Function.update s.last p none }.setToken t
      { s.token t with haz := some p }) (t := t) (z := p) (c := c)
  have hlive : Function.update s.sight.live t (s.token t).live = s.sight.live :=
    Function.update_eq_self t _
  rw [heq, State.sight_setPc, htask, State.sight_setToken]
  change { s.sight with
    live := Function.update s.sight.live t (s.token t).live
    haz := Function.update s.sight.haz t (some p)
    task := Function.update (Function.update s.sight.task t (s.token t).pc.task) t
      (.uses p .out 0) } = _
  rw [hlive, Function.update_idem]

/-- A step of `get_hazard_ptr`. -/
theorem Inv.acquire (h : Inv cfg l s.sight m a) (hpc : (s.token t).pc = .acquire c q)
    (hring : (s.acquireStep .natural cfg t c q).sight.Ring l') :
    ∃ m a, Inv cfg l' (s.acquireStep .natural cfg t c q).sight m a := by
  have ht := acquires_of_pc hpc
  have hcalling := h.calling t q ht
  cases q with
  | loadCount =>
    rw [State.acquireStep, State.setAcquire, State.sight_setPc] at hring ⊢
    refine h.reads ht hring (.plain trivial fun n hn => ?_) fun _ _ hq => by cases hq
    cases hn
    exact le_rfl
  | next rc p =>
    rw [State.acquireStep, State.setAcquire, State.sight_setPc] at hring ⊢
    exact h.reads ht hring (.plain trivial hcalling.rc) fun _ _ hq => by cases hq
  | owned rc p n =>
    rw [State.acquireStep] at hring ⊢
    split at hring
    · next ho =>
      rw [if_pos ho]
      exact h.passes hpc rfl hring
    · next ho =>
      rw [if_neg ho]
      rw [State.setAcquire, State.sight_setPc] at hring ⊢
      exact h.reads ht hring (.plain trivial hcalling.rc) fun _ _ hq => by cases hq
  | take rc p n =>
    rw [State.acquireStep] at hring ⊢
    split at hring
    · next ho =>
      rw [if_pos ho]
      exact h.passes hpc rfl hring
    · next ho =>
      rw [if_neg ho]
      rw [State.setAcquire, State.sight_setPc] at hring ⊢
      have hring : ((s.sight.setHazard p { s.hazard p with owned := true }).goes t
        (.acquires (.headOffset rc p))).Ring l' := hring
      have hnexts : ∀ y ∈ l, ((s.sight.setHazard p { s.hazard p with owned := true }).goes t
          (.acquires (.headOffset rc p))).next y = s.sight.next y := by
        intro y _
        change ((s.sight.setHazard p { s.hazard p with owned := true }).hazard y).next = _
        by_cases hy : y = p
        · rw [hy, hazard_setHazard]
          rfl
        · rw [hazard_setHazard_of_ne hy]
          rfl
      have hlinks := Ring.links h.ring hring hnexts
      exact h.relinks ht alike_owned hlinks hring trivial rfl
  | append rc p n new => exact h.appends hpc hring
  | headOffset rc p =>
    rw [State.acquireStep, State.setAcquire, State.sight_setPc] at hring ⊢
    exact h.reads ht hring ⟨hcalling.rc, fun b hb => (by cases hb), h.off, fun _ => trivial⟩
      fun _ _ hq => by cases hq
  | headBlock rc p off =>
    rw [State.acquireStep, State.setAcquire, State.sight_setPc] at hring ⊢
    refine h.reads ht hring ⟨hcalling.rc, fun b hb => ?_, hcalling.stores, fun _ => h.head⟩
      fun _ _ hq => by cases hq
    obtain ⟨k, hk, hat, -⟩ := h.head
    have hlt := h.heaps.ok.fresh k ⟨h.heaps.lo.1.trans (h.lo_le_floor.trans hk), hat.1⟩
    rw [hat.2] at hlt
    cases hb
    exact hlt
  | initActive rc p off head =>
    rw [State.acquireStep, State.setAcquire, State.sight_setPc] at hring ⊢
    have hring : ((s.sight.setHazard p { s.hazard p with
      nextProtectWrite := off
      nextProtectRead := off
      activeOffset := off + cfg.inactive }).goes t (.acquires (.initRead rc p head))).Ring l' :=
        hring
    refine h.writes ht rfl _ (m.pos p) rfl (fun side o ho => ?_) (fun side => ?_)
      (.inr (Nat.le_add_left ..)) hring ⟨hcalling.rc, hcalling.head, fun side => ?_, fun heq => ?_⟩
      fun _ _ hq => by cases hq
    · refine h.nodes.fresh p side o ?_
      cases side <;> exact ho
    · cases side <;> exact hcalling.stores.2
    · rw [hazard_setHazard]
      cases side <;> exact hcalling.stores.1
    · exact HeadAt.set (hcalling.safe heq)
  | initRead rc p head =>
    rw [State.acquireStep, State.setAcquire, State.sight_setPc, State.sight_setBlock] at hring ⊢
    refine h.init ht rfl .read rfl (hcalling.head head rfl) hring (fun _ ho => ho) hcalling.stores
      (fun _ _ hl => hl) (fun heq =>
        ⟨hcalling.safe heq, fun S' m' f hhead _ hseat hchain hoff _ => ⟨?_, hseat⟩⟩)
      fun _ _ hq => by cases hq
    obtain ⟨k, hk, hat, hks⟩ := hhead
    refine ⟨k, hk, ?_, fun side => ?_⟩
    · rw [Map.At, hchain]
      exact hat
    · rw [hoff]
      exact hks side
  | initWrite rc p head =>
    rw [State.acquireStep, State.setAcquire, State.sight_setPc, State.sight_setBlock] at hring ⊢
    refine h.init ht rfl .write rfl (hcalling.head head rfl) hring (fun _ ho => by cases ho)
      hcalling.stores (fun _ _ hl => hl) (fun heq => ⟨(hcalling.safe heq).1,
        fun S' m' f _ hother hseat _ _ hsafe side => ?_⟩) fun _ _ hq => by cases hq
    cases side with
    | write => exact hseat
    | read => exact hother .read (fun hne => by cases hne) hsafe.2
  | count rc p =>
    rw [State.acquireStep, State.setAcquire, State.sight_setPc] at hring ⊢
    set S₁ : Sight := { s.sight with hazPtrCounter := s.hazPtrCounter + 1 } with hS₁
    have hring : (S₁.goes t (.acquires (.check rc p))).Ring l' := hring
    change ∃ m a, Inv cfg l' (S₁.goes t (.acquires (.check rc p))) m a
    exact h.acquires (w := none) ht (frame_of h rfl rfl rfl (Nat.le_succ _)
      (Ring.links h.ring hring fun _ _ => rfl) rfl rfl rfl rfl rfl rfl rfl) rfl rfl rfl hring
      ⟨h.nodes.fresh, h.nodes.dvd, h.nodes.active⟩ (fun _ _ => ⟨.refl _, rfl, rfl⟩)
      (fun _ hw => by cases hw) ⟨hcalling.rc, hcalling.head, hcalling.stores, fun heq side =>
        (hcalling.safe heq side).congr rfl rfl (by cases side <;> rfl) rfl rfl⟩
      fun _ _ _ => Nat.lt_succ_self _
  | check rc p =>
    rw [State.acquireStep] at hring ⊢
    split at hring
    · next heq =>
      rw [if_pos heq]
      subst heq
      rw [sight_gets] at hring ⊢
      have ht : s.sight.task t = .acquires (.check s.sight.reclaimCounter p) := ht
      have htask : (Function.update s.sight.task t (.uses p .out 0)) t = .uses p .out 0 :=
        Function.update_self ..
      refine h.hands (T := (· = t)) rfl hring ?_ (fun u => ?_)
        (fun u hu => ⟨Function.update_of_ne hu .., Function.update_of_ne hu ..⟩) ?_ ?_
      · refine run_goes (S := s.sight) (t := t) (fun _ => ?_) rfl
        rw [ht]
        rfl
      · by_cases hu : u = t
        · rw [hu, htask]
          have hlocked := h.lock t
          rw [ht] at hlocked
          exact hlocked
        · rw [Function.update_of_ne hu]
          exact h.lock u
      · rintro u rfl
        rw [htask]
        exact ⟨⟨rfl, rfl⟩, trivial⟩
      · rintro u rfl z hz
        refine ⟨u, .inr ?_⟩
        rcases hz with ⟨hz, -⟩ | hz
        · have hz : Function.update s.sight.haz u (some p) u = some z := hz
          rw [Function.update_self] at hz
          cases hz
          exact ht
        · cases htask.symm.trans hz
    · next hne =>
      rw [if_neg hne]
      rw [State.setAcquire, State.sight_setPc] at hring ⊢
      refine h.reads ht hring (.plain trivial fun n hn => ?_) fun _ _ hq => by cases hq
      cases hn
      exact le_rfl

end Sight

end CoroUtil.Channel
