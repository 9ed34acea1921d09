import CoroUtil.Channel.Reclamation.Step

/-!
# How far the variables are

Every index in a variable of a task is one that `write_offset` or `read_offset` has
passed, so on natural numbers nothing is further than these two and
`InactiveHazptrOffset` together.
-/

namespace CoroUtil.Channel

open CoroUtil.General CoroUtil.Blocks

variable {V : Type}

/-- The first index of a ticket. -/
def PutPc.idx? : PutPc → Option Nat
  | protect | fetchTicket _ => none
  | loadBlock _ idx | blockOffset _ idx _ | loadClosed idx _ _ | spinClosed idx _ _
  | loadClosedAt idx _ _ | reject idx | find idx _ _ | findEnd idx _ _ _ | storeBlock idx _ _ _
  | protectOffset idx _ _ | emplace idx _ _ | publish idx _ _ | resumeConsumer idx _ _ _ _
  | nextBlock idx _ _ | release idx => some idx

/-- The index that has been claimed or observed. -/
def ReadPc.idx? : ReadPc → Option Nat
  | protect | claim _ | loadRead _ => none
  | loadBlock _ idx _ | blockOffset _ idx _ _ | loadClosed _ idx _ _ | spinClosed _ idx _ _
  | loadClosedAt _ idx _ _ | closedFind idx _ | setNotWaiting idx _ | find _ idx _ _ _
  | loadWrite _ idx | probe _ idx _ _ _ | cas _ idx _ _ _ | reload _ idx | tryClosed idx
  | trySpin idx | tryClosedAt idx | leaveEmpty idx | leaveClosed idx | storeBlock idx _ _ _
  | tryLock idx _ _ | loadProtect idx _ | reclaim idx _ _ | unlock idx _ | poll idx _
  | tryWait idx _ | suspended idx _ _ | resumed idx _ _ | holding idx _ | release idx => some idx

/-- The number of items that have been written is at most the count. -/
def PutPc.Counts (w : Put V) : PutPc → Prop
  | emplace _ k _ | publish _ k _ | resumeConsumer _ k _ _ _ => k < w.count
  | nextBlock _ k _ => k ≤ w.count
  | _ => True

def ClosePc.Counts (write read : Nat) : ClosePc → Prop
  | provisional woff | closedAt woff | closed woff | loadRead woff => woff ≤ write
  | loadHead idx fin | find idx fin _ | spin idx fin _ | notOk idx fin _ _ _
  | resumeConsumer idx fin _ _ _ => idx < fin ∧ fin ≤ read
  | lock | check | loadOffset | closing | ticket | unlock => True

/-- The offsets in the variables of a task have been passed. -/
def Pc.Counts (write read : Nat) : Pc V → Prop
  | .put _ w q => (∀ idx, q.idx? = some idx → idx + w.count ≤ write) ∧ q.Counts w
  | .read _ _ q => ∀ idx, q.idx? = some idx → idx ≤ read
  | .close q => q.Counts write read
  | .idle | .acquire .. | .free .. => True

theorem Pc.Counts.mono {write read write' read' : Nat} {pc : Pc V} (h : pc.Counts write read)
    (hw : write ≤ write') (hr : read ≤ read') : pc.Counts write' read' := by
  cases pc with
  | put z w q => exact ⟨fun idx hidx => (h.1 idx hidx).trans hw, h.2⟩
  | read z k q => exact fun idx hidx => (h idx hidx).trans hr
  | close q =>
    cases q with
    | provisional | closedAt | closed | loadRead => exact Nat.le_trans h hw
    | loadHead | find | spin | notOk | resumeConsumer => exact ⟨h.1, h.2.trans hr⟩
    | lock | check | loadOffset | closing | ticket | unlock => trivial
  | idle | acquire | free => trivial

/-- What is bounded of a state, but for the task of `t`. -/
structure State.BoundsBut (cfg : Config) (T : Tid → Prop) (s : State V) : Prop where
  pc : ∀ u, ¬ T u → (s.token u).pc.Counts s.writeOffset s.readOffset
  active : ∀ z, (s.hazard z).activeOffset ≤ max s.writeOffset s.readOffset + cfg.inactive
  closedAt : s.writeClosedAt ≤ s.writeOffset + cfg.inactive

def State.Bounds (cfg : Config) (s : State V) : Prop := s.BoundsBut cfg fun _ => False

variable {cfg : Config} {s s' : State V} {t u : Tid} {z n b idx : Nat} {T : Tid → Prop} {c : Call V}

namespace State

theorem Bounds.but (h : s.Bounds cfg) : s.BoundsBut cfg T :=
  ⟨fun u _ => h.pc u id, h.active, h.closedAt⟩

namespace BoundsBut

theorem setToken {k : Token V} (h : s.BoundsBut cfg fun u => u = t ∨ T u)
    (hk : k.pc.Counts s.writeOffset s.readOffset) : (s.setToken t k).BoundsBut cfg T where
  pc u hu := by
    rw [token_setToken]
    split
    · exact hk
    · next hut => exact h.pc u fun hor => hor.elim hut hu
  active := h.active
  closedAt := h.closedAt

theorem setPc {pc : Pc V} (h : s.BoundsBut cfg fun u => u = t ∨ T u)
    (hpc : pc.Counts s.writeOffset s.readOffset) : (s.setPc t pc).BoundsBut cfg T := h.setToken hpc

/-- What is written is not bounded. -/
theorem congr (h : s.BoundsBut cfg T) (htoken : s'.token = s.token) (hhazard : s'.hazard = s.hazard)
    (hwrite : s'.writeOffset = s.writeOffset) (hread : s'.readOffset = s.readOffset)
    (hclosed : s'.writeClosedAt = s.writeClosedAt) : s'.BoundsBut cfg T where
  pc := by
    rw [htoken, hwrite, hread]
    exact h.pc
  active := by
    rw [hhazard, hwrite, hread]
    exact h.active
  closedAt := by
    rw [hclosed, hwrite]
    exact h.closedAt

theorem setHazard {x : HazardPtr} (h : s.BoundsBut cfg T)
    (hx : x.activeOffset ≤ max s.writeOffset s.readOffset + cfg.inactive) :
    (s.setHazard z x).BoundsBut cfg T where
  pc := h.pc
  active y := by
    rw [hazard_setHazard]
    split
    · exact hx
    · exact h.active y
  closedAt := h.closedAt

theorem setBlock {p : Option Nat} {side : Side} (h : s.BoundsBut cfg T) :
    (s.setBlock z p side).BoundsBut cfg T := by
  cases side <;> exact h.setHazard (h.active z)

/-- The offsets grow. -/
theorem tickets {write read : Nat} (h : s.BoundsBut cfg T) (hw : s.writeOffset ≤ write)
    (hr : s.readOffset ≤ read) :
    ({ s with writeOffset := write, readOffset := read } : State V).BoundsBut cfg T where
  pc u hu := (h.pc u hu).mono hw hr
  active y := by
    have hle := h.active y
    change (s.hazard y).activeOffset ≤ max write read + cfg.inactive
    omega
  closedAt := h.closedAt.trans (Nat.add_le_add_right hw _)

/-- A `pull()` that waits is told something. -/
theorem waits {k : Read} {ok : Bool} {q : ReadPc} (h : s.BoundsBut cfg T)
    (hpc : (s.token u).pc = .read z k (.suspended idx b ok)) (hq : q.idx? = some idx) :
    (s.setPc u (.read z k q)).BoundsBut cfg T := by
  refine ⟨fun v hv => ?_, h.active, h.closedAt⟩
  rw [token_setPc]
  split
  · next hvu =>
    have hcounts := h.pc u fun hu => hv (hvu ▸ hu)
    rw [hpc] at hcounts
    exact fun i hi => hcounts i (hq.symm.trans hi ▸ rfl)
  · exact h.pc v hv

theorem resumeConsumer {frame : Nat} (h : s.BoundsBut cfg T) :
    (s.resumeConsumer u frame).BoundsBut cfg T := by
  rw [State.resumeConsumer]
  split
  · next hpc =>
    split
    · exact h.waits hpc rfl
    · exact h.congr rfl rfl rfl rfl rfl
  · exact h.congr rfl rfl rfl rfl rfl

theorem consumerNotOk {frame : Nat} (h : s.BoundsBut cfg T) :
    (s.consumerNotOk u frame).BoundsBut cfg T := by
  rw [State.consumerNotOk]
  split
  · next hpc =>
    split
    · exact h.waits hpc rfl
    · exact h.congr rfl rfl rfl rfl rfl
  · exact h.congr rfl rfl rfl rfl rfl

theorem leave (h : s.BoundsBut cfg fun u => u = t ∨ T u)
    (hn : n ≤ s.writeOffset ∨ n ≤ s.readOffset) :
    (s.leave .natural cfg t z n).BoundsBut cfg T := by
  refine (h.setHazard ?_).setPc trivial
  change n + cfg.inactive ≤ max s.writeOffset s.readOffset + cfg.inactive
  omega

theorem check {d : Bool} (h : s.BoundsBut cfg T) : (s.check d).BoundsBut cfg T :=
  h.congr rfl rfl rfl rfl rfl

theorem setElem {e : Element Flags V} (h : s.BoundsBut cfg T) :
    (s.setElem cfg b n e).BoundsBut cfg T :=
  h.congr rfl rfl rfl rfl rfl

theorem setFlags {f : Flags} (h : s.BoundsBut cfg T) : (s.setFlags cfg b n f).BoundsBut cfg T :=
  h.setElem

theorem setAcquire {q : Acquire} (h : s.BoundsBut cfg fun u => u = t ∨ T u) :
    (s.setAcquire t c q).BoundsBut cfg T := h.setPc trivial

theorem setPut {w : Put V} {q : PutPc} (h : s.BoundsBut cfg fun u => u = t ∨ T u)
    (hidx : q.idx? = some idx) (hle : idx + w.count ≤ s.writeOffset) (hq : q.Counts w) :
    (s.setPut t z w q).BoundsBut cfg T :=
  h.setPc ⟨fun i hi => by cases hidx.symm.trans hi; exact hle, hq⟩

theorem afterItem {w : Put V} {k : Nat} (h : s.BoundsBut cfg fun u => u = t ∨ T u)
    (hle : idx + w.count ≤ s.writeOffset) (hk : k ≤ w.count) :
    (s.afterItem .natural cfg t z w idx k b).BoundsBut cfg T := by
  rw [State.afterItem]
  split
  · exact h.setPut rfl hle trivial
  · next hne =>
    refine h.setPut rfl hle (Nat.lt_of_le_of_ne hk fun heq => hne ?_)
    rw [heq]

theorem afterWrite {w : Put V} {k : Nat} (h : s.BoundsBut cfg fun u => u = t ∨ T u)
    (hle : idx + w.count ≤ s.writeOffset) (hk : k < w.count) :
    (s.afterWrite .natural cfg t z w idx k b).BoundsBut cfg T := by
  cases w with
  | post v => exact h.setPut rfl hle trivial
  | bulk items count =>
    rw [State.afterWrite]
    split
    · exact h.setPut rfl hle (Nat.succ_le_of_lt hk)
    · exact h.afterItem hle (Nat.succ_le_of_lt hk)

theorem setRead {k : Read} {q : ReadPc} (h : s.BoundsBut cfg fun u => u = t ∨ T u)
    (hq : ∀ i, q.idx? = some i → i ≤ s.readOffset) : (s.setRead t z k q).BoundsBut cfg T :=
  h.setPc hq

theorem handOut {k : Read} (h : s.BoundsBut cfg fun u => u = t ∨ T u) (hle : idx ≤ s.readOffset) :
    (s.handOut cfg t z k idx b).BoundsBut cfg T := by
  have hnote : ((s.check (s.elem cfg b idx).data.isSome).note t z
      (.ok k idx (s.elem cfg b idx).data)).BoundsBut cfg fun u => u = t ∨ T u :=
    h.congr rfl rfl rfl rfl rfl
  exact hnote.setPc fun i hi => by cases hi; exact hle

theorem afterTake {k : Read} (h : s.BoundsBut cfg fun u => u = t ∨ T u) (hle : idx ≤ s.readOffset) :
    (s.afterTake cfg t z k idx b).BoundsBut cfg T := by
  cases k with
  | pull => exact h.setRead fun i hi => by cases hi; exact hle
  | tryPull => exact h.handOut hle

theorem afterWake {fin : Nat} (h : s.BoundsBut cfg fun u => u = t ∨ T u)
    (hle : fin ≤ s.readOffset) :
    (s.afterWake .natural cfg t idx fin b).BoundsBut cfg T := by
  rw [State.afterWake]
  split
  · next hlt =>
    have hlt : idx + 1 < fin := of_decide_eq_true hlt
    refine h.setPc ?_
    split <;> exact ⟨hlt, hle⟩
  · exact h.setPc trivial

end BoundsBut

/-! ## The steps -/

theorem Bounds.acquireStep (h : s.Bounds cfg) {q : Acquire}
    (hoff : ∀ rc p off head, q = .initActive rc p off head → off ≤ s.writeOffset) :
    (s.acquireStep .natural cfg t c q).Bounds cfg := by
  have new : ∀ {n}, (HazardPtr.new cfg true n).activeOffset ≤
      max s.writeOffset s.readOffset + cfg.inactive := Nat.le_add_left ..
  -- a write to any other field of a hazard pointer
  have keep : ∀ {p x q}, x.activeOffset = (s.hazard p).activeOffset →
      ((s.setHazard p x).setAcquire t c q).Bounds cfg := fun {p x q} hx => by
    refine (h.but.setHazard ?_).setAcquire
    rw [hx]
    exact h.active p
  have pass : ∀ {rc p n}, (s.passHazard cfg t c rc p n).Bounds cfg := fun {rc p n} => by
    rw [State.passHazard]
    split
    · have hset : (s.setHazard s.hazards (.new cfg true n)).Bounds cfg := h.but.setHazard new
      have hnew : ({ s.setHazard s.hazards (.new cfg true n) with hazards := s.hazards + 1 } :
        State V).Bounds cfg :=
        hset.but.congr rfl rfl rfl rfl rfl
      exact hnew.but.setAcquire
    · exact h.but.setAcquire
  cases q with
  | loadCount | next | headOffset | headBlock => exact h.but.setAcquire
  | owned rc p n =>
    rw [State.acquireStep]
    split
    · exact pass
    · exact h.but.setAcquire
  | take rc p n =>
    rw [State.acquireStep]
    split
    · exact pass
    · exact keep rfl
  | append rc p n new =>
    rw [State.acquireStep]
    dsimp only
    split
    · exact keep rfl
    · exact keep rfl
  | initActive rc p off head =>
    refine (h.but.setHazard ?_).setAcquire
    have hle := hoff rc p off head rfl
    change off + cfg.inactive ≤ max s.writeOffset s.readOffset + cfg.inactive
    omega
  | initRead rc p head | initWrite rc p head => exact h.but.setBlock.setAcquire
  | count rc p =>
    have hcount : ({ s with hazPtrCounter := s.hazPtrCounter + 1 } : State V).Bounds cfg :=
      h.but.congr rfl rfl rfl rfl rfl
    exact hcount.but.setAcquire
  | check rc p =>
    rw [State.acquireStep]
    split
    · have hbut : ({ s with last := Function.update s.last p none } : State V).Bounds cfg :=
        h.but.congr rfl rfl rfl rfl rfl
      have hset := (hbut.but (T := fun u => u = t ∨ u = t ∨ False)).setToken
        (k := { s.token t with haz := some p }) (t := t) (h.pc t id)
      cases c with
      | put w => exact hset.setPc ⟨fun i hi => (by cases hi), trivial⟩
      | read k => exact hset.setPc fun i hi => by cases hi
    · exact h.but.setPc trivial

theorem Bounds.putStep (h : s.Bounds cfg) {w : Put V} {q : PutPc}
    (hpc : (s.token t).pc = .put z w q)
    (hprotect : (s.hazard z).nextProtectWrite ≤ s.writeOffset) :
    (s.putStep .natural cfg t z w q).Bounds cfg := by
  have hcounts := h.pc t id
  rw [hpc] at hcounts
  obtain ⟨hle, hk⟩ := hcounts
  cases q with
  | protect =>
    refine (h.but.setHazard ?_).setPc ⟨fun i hi => (by cases hi), trivial⟩
    change (s.hazard z).nextProtectWrite ≤ max s.writeOffset s.readOffset + cfg.inactive
    omega
  | fetchTicket act => exact (h.but.tickets (Nat.le_add_right ..) le_rfl).setPut rfl le_rfl trivial
  | loadBlock act idx =>
    rw [State.putStep]
    split
    · exact h.but.setPut rfl (hle idx rfl) trivial
    · exact h.but.check
  | blockOffset act idx b => exact h.but.check.setPut rfl (hle idx rfl) trivial
  | loadClosed idx b boff | spinClosed idx b boff =>
    rw [State.putStep]
    split <;> exact h.but.setPut rfl (hle idx rfl) trivial
  | loadClosedAt idx b boff =>
    rw [State.putStep]
    split <;> exact h.but.setPut rfl (hle idx rfl) trivial
  | reject idx =>
    have hidx := hle idx rfl
    refine (h.but.congr rfl rfl rfl rfl rfl :
      (s.note t z (.post w idx false)).BoundsBut cfg _).leave (.inl ?_)
    cases w with
    | post v => exact (Nat.le_add_right idx 1).trans hidx
    | bulk items count => exact hidx
  | release idx =>
    have hidx := hle idx rfl
    refine (h.but.congr rfl rfl rfl rfl rfl : (s.note t z (.post w idx true)).BoundsBut cfg _).leave
      (.inl ?_)
    cases w with
    | post v => exact (Nat.le_add_right idx 1).trans hidx
    | bulk items count => exact hidx
  | find idx boff f =>
    have hfind : ({ s with heap := (f.step .natural cfg.toLayout idx s.heap).1 } :
      State V).Bounds cfg :=
      h.but.congr rfl rfl rfl rfl rfl
    rw [State.putStep]
    dsimp only
    split
    · split
      · exact hfind.but.check.setPut rfl (hle idx rfl) trivial
      · exact hfind.but.check.setPut rfl (hle idx rfl) trivial
    · exact hfind.but.check.setPut rfl (hle idx rfl) trivial
    · exact hfind.but.check.setPut rfl (hle idx rfl) trivial
  | findEnd idx boff b f =>
    have hfind : ({ s with heap := (f.step .natural cfg.toLayout (idx + w.count - 1) s.heap).1 } :
      State V).Bounds cfg :=
      h.but.congr rfl rfl rfl rfl rfl
    rw [State.putStep]
    dsimp only
    split
    · exact hfind.but.check.setPut rfl (hle idx rfl) trivial
    · exact hfind.but.check.setPut rfl (hle idx rfl) trivial
  | storeBlock idx boff b target =>
    have hset : (s.setBlock z (some target) .write).Bounds cfg := h.but.setBlock
    cases w with
    | post v =>
      have hstore : ((s.setBlock z (some target) .write).setHazard z
          { (s.setBlock z (some target) .write).hazard z with nextProtectWrite := boff }).Bounds
            cfg :=
        hset.but.setHazard (hset.active z)
      exact hstore.but.setPut rfl (hle idx rfl) Nat.one_pos
    | bulk items count => exact hset.but.setPut rfl (hle idx rfl) trivial
  | protectOffset idx b target =>
    have hset : (s.setHazard z { s.hazard z with nextProtectWrite := s.offset target }).Bounds
      cfg :=
      h.but.setHazard (h.active z)
    exact hset.but.afterItem (hle idx rfl) (Nat.zero_le _)
  | emplace idx k b =>
    have hset : ({ (s.setElem cfg b (idx + k)
      { s.elem cfg b (idx + k) with data := some (w.item k) }).check
        (s.elem cfg b (idx + k)).data.isNone with
          constructed := s.constructed ++ [(idx + k, w.item k)] } : State V).Bounds cfg :=
      h.but.congr rfl rfl rfl rfl rfl
    exact hset.but.setPut rfl (hle idx rfl) hk
  | publish idx k b =>
    rw [State.putStep]
    split
    · exact h.but.setFlags.afterWrite (hle idx rfl) hk
    · exact h.but.setPut rfl (hle idx rfl) hk
    · exact h.but.check.afterWrite (hle idx rfl) hk
  | resumeConsumer idx k b u frame =>
    refine h.but.resumeConsumer.afterWrite ?_ hk
    rw [show (s.resumeConsumer u frame).writeOffset = s.writeOffset from
      congrArg Sight.writeOffset sight_resumeConsumer]
    exact hle idx rfl
  | nextBlock idx k b =>
    rw [State.putStep]
    split
    · exact h.but.afterItem (hle idx rfl) hk
    · dsimp only
      split
      · exact h.but.check.setPut rfl (hle idx rfl) trivial
      · exact h.but.check.check

theorem offsets_reclaimStep {o : Offsets} {r : TryReclaim} :
    (s.reclaimStep o cfg z r).1.writeOffset = s.writeOffset ∧
      (s.reclaimStep o cfg z r).1.readOffset = s.readOffset := by
  cases r with
  | walkNext x new again =>
    rw [State.reclaimStep]
    split <;> exact ⟨rfl, rfl⟩
  | advCas x new curr n side b =>
    rw [State.reclaimStep]
    split
    · cases side <;> exact ⟨rfl, rfl⟩
    · exact ⟨rfl, rfl⟩
  | check x new =>
    rw [State.reclaimStep]
    split <;> exact ⟨rfl, rfl⟩
  | _ => exact ⟨rfl, rfl⟩

theorem Bounds.reclaimStep (h : s.Bounds cfg) {r : TryReclaim} :
    (s.reclaimStep .natural cfg z r).1.Bounds cfg := by
  cases r with
  | walkNext x new again =>
    rw [State.reclaimStep]
    split
    · exact h
    · exact h.but.check
  | advCas x new curr n side b =>
    rw [State.reclaimStep]
    split
    · exact h.but.setBlock
    · exact h
  | check x new =>
    rw [State.reclaimStep]
    split
    · exact h.but.congr rfl rfl rfl rfl rfl
    · exact h
  | assertRead | assertWrite => exact h.but.check
  | storeHead | count | rollback | storeOffset | move => exact h.but.congr rfl rfl rfl rfl rfl
  | loadHead | loadCount | oldOffset | minNext | minOwned | minActive | walk | advNext | advOwned
  | advBlock | advOffset | advNewOffset | advFailed | advActive | reduce | newOffset | done =>
    exact h

theorem Bounds.goes {k : Read} {q : ReadPc} (h : s.Bounds cfg)
    (hle : ∀ i, q.idx? = some i → i ≤ s.readOffset) : (s.setRead t z k q).Bounds cfg :=
  h.but.setRead hle

theorem Bounds.find {k : Read} {q : ReadPc} {f : Find} {d : Bool} (h : s.Bounds cfg)
    (hle : ∀ i, q.idx? = some i → i ≤ s.readOffset) :
    ((({ s with heap := (f.step .natural cfg.toLayout n s.heap).1 } : State V).check d).setRead t z
      k q).Bounds cfg := by
  have hheap : ({ s with heap := (f.step .natural cfg.toLayout n s.heap).1 } :
      State V).Bounds cfg := h.but.congr rfl rfl rfl rfl rfl
  exact hheap.but.check.setRead hle

/-- The steps before an index is claimed. -/
theorem Bounds.ticketStep {spurious : Bool} (h : s.Bounds cfg) {k : Read} {q : ReadPc}
    (hpc : (s.token t).pc = .read z k q) (hq : q.claimed = false)
    (hprotect : (s.hazard z).nextProtectRead ≤ s.readOffset)
    (hs : s.readStep .natural cfg t spurious z k q = some s') : s'.Bounds cfg := by
  have hle : ∀ i, q.idx? = some i → i ≤ s.readOffset := by
    have hle := h.pc t id
    rw [hpc] at hle
    exact hle
  cases q with
  | protect =>
    cases hs
    refine (h.but.setHazard ?_).setRead fun i hi => ?_
    · change (s.hazard z).nextProtectRead ≤ max s.writeOffset s.readOffset + cfg.inactive
      omega
    · cases k <;> cases hi
  | claim act =>
    cases hs
    have hclaim := h.but.tickets (T := fun u => u = t ∨ False) le_rfl (Nat.le_succ s.readOffset)
    exact hclaim.setRead fun i hi => by cases hi; exact Nat.le_succ _
  | loadBlock act idx woff =>
    rw [State.readStep] at hs
    split at hs
    · cases hs
      exact h.goes hle
    · cases hs
      exact h.but.check
  | blockOffset act idx woff b =>
    cases hs
    refine h.but.check.setRead fun i hi => hle i ?_
    split at hi <;> exact hi
  | loadClosed act idx b boff | spinClosed act idx b boff =>
    cases hs
    refine h.goes fun i hi => hle i ?_
    split at hi <;> exact hi
  | loadClosedAt act idx b boff =>
    cases hs
    refine h.goes fun i hi => hle i ?_
    split at hi <;> exact hi
  | closedFind idx f =>
    cases hs
    refine h.find fun i hi => hle i ?_
    split at hi <;> exact hi
  | setNotWaiting idx b =>
    cases hs
    exact h.but.setFlags.setRead hle
  | find act idx woff boff f =>
    cases hs
    refine h.find fun i hi => hle i ?_
    split at hi <;> exact hi
  | loadRead act =>
    cases hs
    exact h.goes fun i hi => by cases hi; exact le_rfl
  | loadWrite act idx =>
    cases hs
    refine h.goes fun i hi => hle i ?_
    split at hi <;> exact hi
  | probe act idx woff boff b =>
    cases hs
    refine h.goes fun i hi => hle i ?_
    split at hi <;> exact hi
  | cas act idx woff boff b =>
    rw [State.readStep] at hs
    split at hs
    · next heq =>
      cases hs
      have hclaim := h.but.tickets (T := fun u => u = t ∨ False) le_rfl (Nat.le_succ s.readOffset)
      rw [heq] at hclaim
      exact hclaim.setRead fun i hi => by cases hi; exact Nat.le_succ _
    · cases hs
      exact h.goes fun i hi => by cases hi; exact le_rfl
  | reload act idx =>
    cases hs
    refine h.goes fun i hi => ?_
    split at hi
    · exact hle i hi
    · cases hi
      exact le_rfl
  | tryClosed idx | trySpin idx =>
    cases hs
    refine h.goes fun i hi => hle i ?_
    split at hi <;> exact hi
  | tryClosedAt idx =>
    cases hs
    refine h.goes fun i hi => hle i ?_
    split at hi <;> exact hi
  | leaveEmpty idx =>
    cases hs
    have hnote : (s.note t z (.empty idx)).Bounds cfg := h.but.congr rfl rfl rfl rfl rfl
    exact hnote.but.leave (.inr (hle idx rfl))
  | leaveClosed idx =>
    cases hs
    have hnote : (s.note t z (.closed k idx false)).Bounds cfg := h.but.congr rfl rfl rfl rfl rfl
    exact hnote.but.leave (.inr (hle idx rfl))
  | storeBlock | tryLock | loadProtect | reclaim | unlock | poll | tryWait | suspended | resumed
  | holding | release => cases hq

theorem Bounds.readStep {spurious : Bool} (h : s.Bounds cfg) {k : Read} {q : ReadPc}
    (hpc : (s.token t).pc = .read z k q)
    (hprotect : (s.hazard z).nextProtectRead ≤ s.readOffset)
    (hs : s.readStep .natural cfg t spurious z k q = some s') : s'.Bounds cfg := by
  have hle : ∀ i, q.idx? = some i → i ≤ s.readOffset := by
    have hle := h.pc t id
    rw [hpc] at hle
    exact hle
  cases q with
  | storeBlock idx woff boff b =>
    have hset : (s.setBlock z (some b) .read).Bounds cfg := h.but.setBlock
    have hstore : ((s.setBlock z (some b) .read).setHazard z
        { (s.setBlock z (some b) .read).hazard z with nextProtectRead := boff }).Bounds cfg :=
      hset.but.setHazard (hset.active z)
    dsimp only [State.readStep] at hs
    split at hs
    · cases hs
      exact hstore.but.setRead hle
    · cases hs
      exact hstore.but.afterTake (hle idx rfl)
  | tryLock idx woff b =>
    have hlock : ({ s with blocksLock := some t } : State V).Bounds cfg :=
      h.but.congr rfl rfl rfl rfl rfl
    dsimp only [State.readStep] at hs
    split at hs
    · cases hs
      refine hlock.but.setRead fun i hi => hle i ?_
      split at hi <;> exact hi
    · cases hs
      exact h.but.afterTake (hle idx rfl)
  | loadProtect idx b =>
    cases hs
    exact h.goes hle
  | reclaim idx b r =>
    cases hs
    refine h.reclaimStep.but.setRead fun i hi => ?_
    rw [offsets_reclaimStep.2]
    refine hle i ?_
    split at hi <;> exact hi
  | unlock idx b =>
    cases hs
    have hlock : ({ s with blocksLock := none } : State V).Bounds cfg :=
      h.but.congr rfl rfl rfl rfl rfl
    exact hlock.but.afterTake (hle idx rfl)
  | poll idx b =>
    rw [State.readStep] at hs
    split at hs
    · cases hs
      exact h.but.handOut (hle idx rfl)
    · cases hs
      exact h.goes hle
  | tryWait idx b =>
    rw [State.readStep] at hs
    split at hs
    · cases hs
      exact h.but.setFlags.setRead hle
    · cases hs
      exact h.but.handOut (hle idx rfl)
  | suspended idx b ok | holding idx b => cases hs
  | resumed idx b ok =>
    rw [State.readStep] at hs
    split at hs
    · cases hs
      exact h.but.handOut (hle idx rfl)
    · cases hs
      have hnote : (s.note t z (.closed k idx true)).Bounds cfg := h.but.congr rfl rfl rfl rfl rfl
      exact hnote.but.setPc trivial
  | release idx =>
    cases hs
    exact h.but.leave (.inr (hle idx rfl))
  | _ => exact h.ticketStep hpc rfl hprotect hs

theorem Bounds.closeStep (h : s.Bounds cfg) {q : ClosePc} (hpc : (s.token t).pc = .close q)
    (hs : s.closeStep .natural cfg t q = some s') : s'.Bounds cfg := by
  have hle := h.pc t id
  rw [hpc] at hle
  have same : ∀ {s₁ : State V} {q' : ClosePc}, s₁.Bounds cfg → s₁.writeOffset = s.writeOffset →
      s₁.readOffset = s.readOffset → q'.Counts s.writeOffset s.readOffset →
      (s₁.setClose t q').Bounds cfg := fun hb hw hr hq => by
    refine hb.but.setPc ?_
    rw [hw, hr]
    exact hq
  cases q with
  | lock =>
    rw [State.closeStep] at hs
    split at hs
    · cases hs
      exact same (h.but.congr rfl rfl rfl rfl rfl) rfl rfl trivial
    · cases hs
  | check =>
    rw [State.closeStep] at hs
    split at hs
    · cases hs
      exact same h rfl rfl trivial
    · cases hs
      exact same h rfl rfl trivial
  | loadOffset =>
    cases hs
    exact same h rfl rfl le_rfl
  | provisional woff =>
    cases hs
    refine same ⟨h.pc, h.active, ?_⟩ rfl rfl trivial
    exact Nat.add_le_add_right hle _
  | closing =>
    cases hs
    exact same (h.but.congr rfl rfl rfl rfl rfl) rfl rfl trivial
  | ticket =>
    cases hs
    have htake := h.but.tickets (T := fun u => u = t ∨ False) (Nat.le_succ s.writeOffset) le_rfl
    exact htake.setPc (Nat.le_succ _)
  | closedAt woff =>
    cases hs
    refine same ⟨h.pc, h.active, ?_⟩ rfl rfl hle
    exact Nat.le_add_right_of_le hle
  | closed woff =>
    cases hs
    exact same (h.but.congr rfl rfl rfl rfl rfl) rfl rfl hle
  | loadRead woff =>
    cases hs
    refine same h rfl rfl ?_
    split
    · next hlt => exact ⟨of_decide_eq_true hlt, le_rfl⟩
    · trivial
  | loadHead idx fin =>
    cases hs
    exact same h rfl rfl hle
  | find idx fin f =>
    cases hs
    have hheap : ({ s with heap := (f.step .natural cfg.toLayout idx s.heap).1 } :
      State V).Bounds cfg :=
      h.but.congr rfl rfl rfl rfl rfl
    refine same hheap.but.check rfl rfl ?_
    split <;> exact hle
  | spin idx fin b =>
    rw [State.closeStep] at hs
    split at hs
    · cases hs
      exact same h rfl rfl hle
    · cases hs
      exact h.but.afterWake hle.2
    · cases hs
      exact same h rfl rfl hle
    · cases hs
      exact same h.but.check rfl rfl trivial
  | notOk idx fin b u frame =>
    cases hs
    have hsight : (s.consumerNotOk u frame).sight = s.sight := sight_consumerNotOk
    exact same h.but.consumerNotOk (congrArg Sight.writeOffset hsight)
      (congrArg Sight.readOffset hsight) hle
  | resumeConsumer idx fin b u frame =>
    cases hs
    have hsight : (s.resumeConsumer u frame).sight = s.sight := sight_resumeConsumer
    refine h.but.resumeConsumer.afterWake ?_
    rw [show (s.resumeConsumer u frame).readOffset =
      s.readOffset from congrArg Sight.readOffset hsight]
    exact hle.2
  | unlock =>
    cases hs
    exact (h.but.congr rfl rfl rfl rfl rfl :
      ({ s with blocksLock := none, closes := s.closes + 1 } : State V).BoundsBut
      cfg _).setPc trivial

theorem Bounds.freeHazardPtr (h : s.Bounds cfg) {live : Bool} :
    (s.freeHazardPtr t live).Bounds cfg := by
  rw [State.freeHazardPtr]
  split
  · exact h.but.setToken trivial
  · exact h.but.setToken (h.pc t id)

theorem Bounds.freeStep (h : s.Bounds cfg) {q : FreePc} : (s.freeStep t z q).Bounds cfg := by
  cases q with
  | writeBlock | readBlock => exact h.but.setBlock.setPc trivial
  | owned =>
    have hset : (s.setHazard z { s.hazard z with owned := false }).Bounds cfg :=
      h.but.setHazard (h.active z)
    exact hset.but.setToken trivial

/-- A token that keeps its task. -/
theorem Bounds.setToken (h : s.Bounds cfg) {k : Token V} (hk : k.pc = (s.token t).pc) :
    (s.setToken t k).Bounds cfg := by
  refine h.but.setToken ?_
  rw [hk]
  exact h.pc t id

theorem Bounds.moves (h : s.Bounds cfg) {k k' : Token V} (hk : k.pc = (s.token t).pc)
    (hk' : k'.pc = (s.token u).pc) : ((s.setToken t k).setToken u k').Bounds cfg := by
  refine (h.setToken hk).but.setToken ?_
  rw [hk']
  exact h.pc u id

theorem Bounds.call (h : s.Bounds cfg) : (s.call t c).Bounds cfg := by
  rw [State.call]
  split
  · cases c with
    | put w => exact h.but.setPc ⟨fun i hi => (by cases hi), trivial⟩
    | read k => exact h.but.setPc fun i hi => by cases hi
  · exact h.but.setPc trivial

end State

/-! ## The bounds in a run -/

namespace Sight

variable {l : List Nat} {S : Sight} {m : Map} {a : Plan}

theorem Inv.protect_le (h : Inv cfg l S m a) (ht : (S.task t).role = .uses z) (side : Side) :
    (S.hazard z).nextProtect side ≤ S.off side := by
  have hkeeps : (S.task t).keeps = true := by
    cases hk : S.task t with
    | frees y =>
      rw [hk] at ht
      cases ht
    | _ => rfl
  have hseat := h.seats t z (h.ring.has_of_uses ht hkeeps) side
  exact hseat.protect.trans hseat.off

theorem Inv.initActive_le (h : Inv cfg l S m a) {rc p off head : Nat}
    (ht : S.task t = .acquires (.initActive rc p off head)) : off ≤ S.writeOffset :=
  (h.calling t _ ht).stores.1.trans (h.heaps.off .write)

end Sight

open Sight in
theorem State.Bounds.step {l : List Nat} {m : Map} {a : Plan} (h : s.Bounds cfg)
    (hinv : Inv cfg l s.sight m a)
    {act : Act V} (hs : Channel.step .natural cfg s act = some s') : s'.Bounds cfg := by
  cases act with
  | copy u t =>
    obtain ⟨-, heq⟩ := Option.ite_none_right_eq_some.mp hs
    cases heq
    exact h.setToken rfl
  | move u t =>
    obtain ⟨-, heq⟩ := Option.ite_none_right_eq_some.mp hs
    cases heq
    exact h.moves rfl rfl
  | assign u t =>
    obtain ⟨-, heq⟩ := Option.ite_none_right_eq_some.mp hs
    split at heq
    · cases heq
      exact h.freeHazardPtr
    · split at heq
      · cases heq
        exact h.freeHazardPtr
      · cases heq
        exact h.moves rfl rfl
  | destroy t =>
    obtain ⟨-, heq⟩ := Option.ite_none_right_eq_some.mp hs
    cases heq
    exact h.freeHazardPtr
  | call t c =>
    obtain ⟨-, heq⟩ := Option.ite_none_right_eq_some.mp hs
    cases heq
    have hframe : (s.setToken t { s.token t with frame := (s.token t).frame + 1 }).Bounds cfg :=
      h.setToken rfl
    exact hframe.call
  | close t =>
    obtain ⟨-, heq⟩ := Option.ite_none_right_eq_some.mp hs
    cases heq
    exact h.but.setPc trivial
  | step t spurious =>
    rw [Channel.step, State.tokenStep] at hs
    split at hs
    · cases hs
    · next c q hpc =>
      cases hs
      refine h.acquireStep fun rc p off head hq => ?_
      rw [hq] at hpc
      exact hinv.initActive_le (t := t) (congrArg Pc.task hpc)
    · next z w q hpc =>
      cases hs
      exact h.putStep hpc (hinv.protect_le (t := t) (congrArg (fun pc => pc.task.role) hpc) .write)
    · next z k q hpc =>
      have hrole : (s.sight.task t).role = .uses z := by
        change (s.token t).pc.task.role = _
        rw [Pc.role_task, hpc]
        rfl
      exact h.readStep hpc (hinv.protect_le hrole .read) hs
    · next q hpc => exact h.closeStep hpc hs
    · next z q hpc =>
      cases hs
      exact h.freeStep
  | release t =>
    rw [Channel.step] at hs
    split at hs
    · next z k idx b hpc =>
      cases hs
      have hle := h.pc t id
      rw [hpc] at hle
      have hset : ({ (s.setElem cfg b idx { s.elem cfg b idx with data := none }).check
          (s.elem cfg b idx).data.isSome with
          destroyed := s.destroyed ++ ((s.elem cfg b idx).data.map (idx, ·)).toList } :
            State V).Bounds cfg :=
        h.but.congr rfl rfl rfl rfl rfl
      exact hset.but.setRead fun i hi => hle i hi
    · cases hs

theorem State.Bounds.init : (State.init cfg : State V).Bounds cfg :=
  ⟨fun _ _ => trivial, fun _ => Nat.le_add_left .., Nat.zero_le _⟩

end CoroUtil.Channel
