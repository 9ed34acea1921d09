import CoroUtil.Blocks.Intact
import CoroUtil.Channel.Reclamation.Advance

/-!
# The head is moved

The steps of `try_reclaim_blocks` that write.  A block pointer is moved to the new head
(`Inv.advCas`), the head is stored and checked, and the blocks before a head that is
committed are moved behind the others (`Inv.move`).  `Inv.commits` is where what the loops
have done is used: no operation has an index before the new head, and no hazard pointer
that a token has is before it.
-/

namespace CoroUtil.Channel

open CoroUtil.General CoroUtil.Blocks

/-- A block pointer of `z` is at position `k`. -/
def Map.advance (m : Map) (z k : Nat) (side : Side) : Map :=
  m.set z (Function.update (m.pos z) side k) (m.low z)

namespace Sight

variable {V : Type} {cfg : Config} {l : List Nat} {S S₁ : Sight} {s : State V} {m m' : Map}
  {a a' : Plan} {f k b z y n idx o curr new : Nat} {side : Side} {p : Phase} {q : Acquire}
  {r r' : TryReclaim} {x : Scan} {t u : Tid}

theorem Safe.mono (h : Safe cfg S m f q) (hn : n ≤ f) : Safe cfg S m n q := by
  have head : ∀ {b}, HeadAt cfg S m f b → HeadAt cfg S m n b :=
    fun ⟨k, hk, hat⟩ => ⟨k, hn.trans hk, hat⟩
  cases q with
  | initActive rc p off b | initRead rc p b => exact head h
  | initWrite rc p b => exact ⟨head h.1, h.2.mono hn⟩
  | count rc p | check rc p => exact fun side => (h side).mono hn
  | loadCount | next | owned | take | append | headOffset | headBlock => trivial

/-! ## The compare-exchange of `try_advance_hazptr_block` -/

section

variable {s' : Side}

theorem pos_advance :
    (m.advance z k side).pos y s' = if y = z ∧ s' = side then k else m.pos y s' := by
  by_cases hy : y = z
  · subst hy
    rw [Map.advance, pos_set, Function.update_apply]
    simp only [true_and]
  · rw [if_neg fun hc => hy hc.1]
    exact congrFun (Function.update_of_ne hy ..) s'

@[simp] theorem low_advance : (m.advance z k side).low = m.low := Function.update_eq_self ..

theorem block_setBlock : ((S.setBlock z (some o) side).hazard y).block s' =
    if y = z ∧ s' = side then some o else (S.hazard y).block s' := by
  rw [setBlock_eq]
  by_cases hy : y = z
  · subst hy
    rw [hazard_setHazard, HazardPtr.block_store]
    simp only [true_and]
  · rw [hazard_setHazard_of_ne hy, if_neg fun hc => hy hc.1]

@[simp] theorem nextProtect_setBlock :
    ((S.setBlock z (some o) side).hazard y).nextProtect s' = (S.hazard y).nextProtect s' := by
  rw [setBlock_eq]
  by_cases hy : y = z
  · subst hy
    rw [hazard_setHazard, HazardPtr.nextProtect_store]
    split_ifs with hs
    · rw [hs]
    · rfl
  · rw [hazard_setHazard_of_ne hy]

@[simp] theorem activeOffset_setBlock :
    ((S.setBlock z (some o) side).hazard y).activeOffset = (S.hazard y).activeOffset := by
  rw [setBlock_eq]
  by_cases hy : y = z
  · subst hy
    rw [hazard_setHazard, HazardPtr.activeOffset_store]
  · rw [hazard_setHazard_of_ne hy]

@[simp] theorem off_setBlock : (S.setBlock z (some o) side).off s' = S.off s' := by
  rw [setBlock_eq, off_setHazard]

theorem Leaves.setBlock : Leaves S (S.setBlock z (some o) side) := by
  have howned : (S.setBlock z (some o) side).owned = S.owned := by
    funext y
    change ((S.setBlock z (some o) side).hazard y).owned = (S.hazard y).owned
    rw [setBlock_eq]
    by_cases hy : y = z
    · subst hy
      rw [hazard_setHazard, HazardPtr.owned_store]
    · rw [hazard_setHazard_of_ne hy]
  have hnext : (S.setBlock z (some o) side).next = S.next := by
    funext y
    change ((S.setBlock z (some o) side).hazard y).next = (S.hazard y).next
    rw [setBlock_eq]
    by_cases hy : y = z
    · subst hy
      rw [hazard_setHazard, HazardPtr.next_store]
    · rw [hazard_setHazard_of_ne hy]
  rw [setBlock_eq] at howned hnext ⊢
  exact ⟨rfl, rfl, rfl, rfl, rfl, howned, hnext, rfl, rfl⟩

theorem HeadAt.advance (h : HeadAt cfg S m f b) :
    HeadAt cfg (S.setBlock z (some o) side) (m.advance z k side) f b := by
  rw [setBlock_eq]
  exact h.set

/-- A pointer to a block that is before the new head is at a position before it. -/
theorem Inv.pos_lt (h : Inv cfg l S m a) (hs : Seat cfg S m m.lo curr side)
    (hblock : (S.hazard curr).block side = some o) (hlt : S.offset o < a.new * cfg.blockSize) :
    m.pos curr side < a.new := by
  have ho : m.chain.block (m.pos curr side) = o := Option.some.inj (hs.block.symm.trans hblock)
  rw [h.at_offset ⟨hs.last, ho⟩ hs.le] at hlt
  exact Nat.lt_of_mul_lt_mul_right hlt

/-- The operation has no index before the new head. -/
theorem Holds.advance (h : Holds cfg S m y p)
    (hcurr : y = curr → p.Clear (a.new * cfg.blockSize) ∧ m.pos y side < a.new) :
    Holds cfg (S.setBlock curr (some new) side) (m.advance curr a.new side) y p := by
  refine ⟨fun i hi => ?_, fun ha s' hs' => ?_, fun hl => ?_, ?_⟩
  · rw [activeOffset_setBlock]
    obtain ⟨hact, hlo, hoff⟩ := h.idx i hi
    refine ⟨hact, hlo, fun s' hs' => ?_⟩
    rw [off_setBlock]
    exact hoff s' hs'
  · rw [activeOffset_setBlock, nextProtect_setBlock]
    obtain ⟨hact, hpos⟩ := h.aims ha s' hs'
    refine ⟨hact, fun i hi => ?_⟩
    rw [pos_advance]
    split_ifs with hy
    · exact (hcurr hy.1).1 i hi
    · exact hpos i hi
  · rw [activeOffset_setBlock, low_advance]
    exact h.looks hl
  · have hk := h.knows
    cases p with
    | out => trivial
    | guards s' act =>
      rw [Knows, activeOffset_setBlock, nextProtect_setBlock]
      exact hk
    | ticket s' act i =>
      rw [Knows, activeOffset_setBlock]
      exact hk
    | loaded s' act i b' =>
      rw [Knows, activeOffset_setBlock, low_advance]
      exact hk
    | seeks s' act i boff f =>
      rw [Knows, activeOffset_setBlock, low_advance]
      exact hk
    | ends i last boff b' f =>
      rw [Knows, low_advance, setBlock_eq]
      exact hk
    | swaps i last b' target =>
      refine ⟨hk.1, ?_, hk.2.2⟩
      rw [pos_advance]
      split_ifs with hy
      · obtain ⟨rfl, rfl⟩ := hy
        exact hk.2.1.trans (hcurr rfl).2.le
      · exact hk.2.1
    | has | crosses => exact hk

section

variable (hnew : New cfg S m a new)
include hnew

/-- A pointer that is at a position goes on from there. -/
theorem Seat.advance (h : Seat cfg S m m.lo y s')
    (hlt : y = curr → s' = side → m.pos y s' < a.new) :
    Seat cfg (S.setBlock curr (some new) side) (m.advance curr a.new side) m.lo y s' := by
  by_cases hy : y = curr ∧ s' = side
  · have hpos : (m.advance curr a.new side).pos y s' = a.new := pos_advance.trans (if_pos hy)
    refine ⟨?_, ?_, ?_, ?_, ?_⟩
    · rw [block_setBlock, if_pos hy, hpos]
      exact congrArg some hnew.at_.2.symm
    · rw [hpos]
      exact hnew.le
    · rw [hpos]
      exact hnew.at_.1
    · rw [hpos, off_setBlock]
      exact hnew.off s'
    · rw [hpos, nextProtect_setBlock]
      exact h.protect.trans (Nat.mul_le_mul_right _ (hlt hy.1 hy.2).le)
  · refine h.congr ?_ nextProtect_setBlock off_setBlock rfl (pos_advance.trans (if_neg hy))
    rw [block_setBlock, if_neg hy]

theorem Calling.advance (h : Calling cfg S m m.lo q)
    (hlt : ∀ y, Seat cfg S m m.lo y side → y = curr → m.pos y side < a.new) :
    Calling cfg (S.setBlock curr (some new) side) (m.advance curr a.new side) m.lo q := by
  have hseat : ∀ {y s'}, Seat cfg S m m.lo y s' →
      Seat cfg (S.setBlock curr (some new) side) (m.advance curr a.new side) m.lo y s' :=
    fun hs => hs.advance hnew fun hy hs' => by
      subst hs'
      exact hlt _ hs hy
  have hlow : ∀ {y}, Low cfg S m y →
      Low cfg (S.setBlock curr (some new) side) (m.advance curr a.new side) y := by
    intro y hl s'
    rw [nextProtect_setBlock]
    exact hl s'
  refine ⟨?_, ?_, ?_, fun heq => ?_⟩
  · rw [setBlock_eq]
    exact h.rc
  · rw [setBlock_eq]
    exact h.head
  · have hstores := h.stores
    cases q with
    | headBlock | initActive => exact hstores
    | initRead | initWrite | count | check => exact hlow hstores
    | loadCount | next | owned | take | append | headOffset => trivial
  · rw [setBlock_eq] at heq
    have hsafe := h.safe heq
    cases q with
    | initActive rc p off b' | initRead rc p b' => exact HeadAt.advance hsafe
    | initWrite rc p b' => exact ⟨HeadAt.advance hsafe.1, hseat hsafe.2⟩
    | count rc p | check rc p => exact fun s' => hseat (hsafe s')
    | loadCount | next | owned | take | append | headOffset | headBlock => trivial

end

/-- The second loop has still to look at what the operation may have stored since. -/
theorem Todo.advance {Q : Side → Prop}
    (h : Todo cfg S m a y p (fun s' => y = curr ∧ Ahead side s' ∧ Q s') x)
    (hle : x.protect ≤ a.new * cfg.blockSize) :
    Duty cfg (S.setBlock curr (some new) side) (m.advance curr a.new side) a idx y p
      (.advActive x new curr n side) := by
  rw [setBlock_eq]
  refine ⟨h.1, fun s' => ?_⟩
  by_cases hc : y = curr ∧ s' = side
  · refine .inr (.inl ⟨hc.1, hc.2, fun _ => ?_⟩)
    rw [pos_advance, if_pos hc]
    exact hle
  · have hpos : (m.advance curr a.new side).pos y s' = m.pos y s' := pos_advance.trans (if_neg hc)
    rw [Follows, Done, hpos, low_advance]
    rcases h.ahead s' with ⟨hleft, hf⟩ | ⟨hcurr, hside, -⟩ | hd
    · exact .inl ⟨hleft, hf⟩
    · exact absurd ⟨hcurr, hside⟩ hc
    · exact .inr (.inr hd)

/-- A block pointer before the new head is moved to it. -/
theorem Inv.advCas (h : Inv cfg l S m a)
    (ht : S.task t = .reclaims z idx b (.advCas x new curr n side o))
    (hblock : (S.hazard curr).block side = some o) :
    ∃ m a, Inv cfg l ((S.setBlock curr (some new) side).goes t
      (.reclaiming z idx b (.advActive x new curr n side))) m a := by
  have hrun := h.run_eq ht
  have hruns := h.runs
  have hheaps := h.heaps
  have hhead := h.head
  have hcalling := h.calling
  rw [hrun] at hruns hheaps hhead hcalling
  obtain ⟨hz, ⟨hquiet, hstored⟩, ⟨hadv, hl, hfresh, hlt⟩, hduty⟩ := hruns
  have hnew := hadv.new
  have hbefore : ∀ y, Seat cfg S m m.lo y side → y = curr → m.pos y side < a.new := by
    rintro y hs rfl
    exact h.pos_lt hs hblock hlt
  have hleaves : Leaves S (S.setBlock curr (some new) side) := .setBlock
  have hnew_lt : new < S.heap.fresh := by
    rw [← hnew.at_.2]
    exact h.heaps.ok.fresh _ ⟨h.heaps.lo.1.trans hnew.le, hnew.at_.1⟩
  have hpath : Path (S.setBlock curr (some new) side).next n a.rest z := by
    rw [hleaves.next]
    exact hl.path
  have hoff : ∀ s', (S.setBlock curr (some new) side).off s' = S.off s' := fun _ => off_setBlock
  have hnodes : Nodes cfg (S.setBlock curr (some new) side) := by
    refine ⟨fun y s' o' ho' => ?_, fun y s' => ?_, fun y => ?_⟩
    · rw [block_setBlock] at ho'
      have hfresh' : (S.setBlock curr (some new) side).heap.fresh = S.heap.fresh := by
        rw [setBlock_eq]
        rfl
      rw [hfresh']
      split_ifs at ho'
      · cases ho'
        exact hnew_lt
      · exact h.nodes.fresh y s' o' ho'
    · rw [nextProtect_setBlock]
      exact h.nodes.dvd y s'
    · rw [activeOffset_setBlock]
      exact h.nodes.active y
  have hseats : ∀ u y, S.Has u y → ∀ s',
      Seat cfg (S.setBlock curr (some new) side) (m.advance curr a.new side) m.lo y s' :=
    fun u y hy s' => (h.seats u y hy s').advance hnew fun hc hs' => by
      subst hs'
      exact hbefore y (h.seats u y hy s') hc
  have hholds : ∀ u y p, (S.task u).doing = some (y, p) →
      Holds cfg (S.setBlock curr (some new) side) (m.advance curr a.new side) y p := by
    intro u y p hd
    have hy := Ring.has_of_doing h.ring hd
    refine (h.holds u y p hd).advance fun hc => ⟨?_, hbefore y (h.seats u y hy side) hc⟩
    have hclear := (hduty u y hy).1
    rw [Task.phase, hd] at hclear
    exact hclear
  have hduties : ∀ u y, S.Has u y → Duty cfg (S.setBlock curr (some new) side)
      (m.advance curr a.new side) a idx y (S.task u).phase (.advActive x new curr n side) :=
    fun u y hy => Todo.advance (hduty u y hy) hadv.le
  have hcalls : ∀ u q, S.task u = .acquires q →
      Calling cfg (S.setBlock curr (some new) side) (m.advance curr a.new side) m.lo q :=
    fun u q hk => (hcalling u q hk).advance hnew hbefore
  have hhead' : ∀ {f b}, HeadAt cfg S m f b →
      HeadAt cfg (S.setBlock curr (some new) side) (m.advance curr a.new side) f b :=
    fun hf => hf.advance
  rw [setBlock_eq] at *
  exact ⟨m.advance curr a.new side, h.reclaims (congrArg Task.locked ht) (congrArg Task.doing ht)
    hleaves _ a (.advActive x new curr n side)
    ⟨hheaps.ok, hheaps.mem, hheaps.lo, fun s' => (hoff s').symm ▸ hheaps.off s', hheaps.committed⟩
    hnodes (hhead' hhead) h.off hseats hholds hcalls
    ⟨hz, ⟨⟨hquiet.first, hquiet.off, hquiet.tail⟩, hstored⟩,
      ⟨⟨⟨hadv.scans.old, hadv.scans.oldOff, hadv.scans.count, hadv.scans.dvd, hadv.scans.le⟩,
        ⟨hnew.le, hnew.at_, fun s' => (hoff s').symm ▸ hnew.off s'⟩, hadv.le⟩,
        ⟨hl.mem, hl.next, hpath, hl.rest⟩⟩, hduties⟩⟩

end

/-! ## The head is stored, and checked -/

/-- Only the head and `reclaim_counter` are written. -/
theorem Inv.onward (h : Inv cfg l S m a) (ht : S.task t = .reclaims z idx b r) (head off rc : Nat)
    (a' : Plan) (r' : TryReclaim) (hrc : S.reclaimCounter ≤ rc)
      (hlimbo : limbo (r'.going z idx) = limbo S.run)
    (hfloor : rc = S.reclaimCounter → floor m.lo a'.new (r'.going z idx) ≤ floor m.lo a.new S.run)
    (hhead : HeadAt cfg S m (floor m.lo a'.new (r'.going z idx)) head)
    (hoff : off ≤ m.lo * cfg.blockSize ∧ cfg.blockSize ∣ off)
    (hruns : (∀ u y, { S with headBlock := head, headOffset := off, reclaimCounter := rc }.Has u y →
        S.Has u y) →
      Runs cfg l { S with headBlock := head, headOffset := off, reclaimCounter := rc } m a'
        (r'.going z idx)) :
    ∃ a, Inv cfg l ({ S with headBlock := head, headOffset := off, reclaimCounter := rc }.goes t
      (.reclaiming z idx b r')) m a := by
  have hhas : ∀ u y, { S with headBlock := head, headOffset := off, reclaimCounter := rc }.Has u y →
      S.Has u y := by
    rintro u y (hy | hy)
    · exact .inl hy
    · have hle := (h.calling u _ hy).rc rc rfl
      obtain rfl : rc = S.reclaimCounter := Nat.le_antisymm hle hrc
      exact .inr hy
  have hheaps := h.heaps
  rw [← hlimbo] at hheaps
  have hstays : ∀ side,
    { S with headBlock := head, headOffset := off, reclaimCounter := rc }.off side =
      S.off side := fun side => by cases side <;> rfl
  have seat : ∀ {f y s'}, Seat cfg S m f y s' →
      Seat cfg { S with headBlock := head, headOffset := off, reclaimCounter := rc } m f y s' :=
    fun hs => hs.congr rfl rfl (hstays _) rfl rfl
  have headAt : ∀ {f b}, HeadAt cfg S m f b →
      HeadAt cfg { S with headBlock := head, headOffset := off, reclaimCounter := rc } m f b := by
    rintro f b ⟨k, hk, hat, hks⟩
    refine ⟨k, hk, hat, fun side => ?_⟩
    rw [hstays]
    exact hks side
  have hleaves : Leaves S { S with headBlock := head, headOffset := off, reclaimCounter := rc } :=
    ⟨rfl, rfl, rfl, rfl, rfl, rfl, rfl, rfl, rfl⟩
  refine h.reclaims (congrArg Task.locked ht) (congrArg Task.doing ht) hleaves m a' r'
    ⟨hheaps.ok, hheaps.mem, hheaps.lo, fun side => ?_, hheaps.committed⟩
    ⟨h.nodes.fresh, h.nodes.dvd, h.nodes.active⟩ (headAt hhead) hoff
      (fun u y hy side => seat (h.seats u y (hhas u y hy) side))
      (fun u y p hd => ?_)
    (fun u q hk => ?_) (hruns hhas)
  · rw [hstays]
    exact hheaps.off side
  · have hold := h.holds u y p hd
    refine ⟨fun i hi => ?_, hold.aims, hold.looks, ?_⟩
    · obtain ⟨hact, hlo, hks⟩ := hold.idx i hi
      refine ⟨hact, hlo, fun side hs => ?_⟩
      rw [hstays]
      exact hks side hs
    · cases p <;> exact hold.knows
  · have hc := h.calling u q hk
    refine ⟨fun n hn => (hc.rc n hn).trans hrc, hc.head, by cases q <;> exact hc.stores,
      fun heq => ?_⟩
    have heq : q.rc = some rc := heq
    obtain rfl : rc = S.reclaimCounter := Nat.le_antisymm (hc.rc rc heq) hrc
    have hsafe := (hc.safe heq).mono (hfloor rfl)
    cases q with
    | initActive rc p off b' | initRead rc p b' => exact headAt hsafe
    | initWrite rc p b' => exact ⟨headAt hsafe.1, seat hsafe.2⟩
    | count rc p | check rc p => exact fun side => seat (hsafe side)
    | loadCount | next | owned | take | append | headOffset | headBlock => trivial

/-- `try_reclaim_blocks` goes on with `reclaim_blocks`, or returns. -/
def moving : Reclaim → TryReclaim
  | .done => .done
  | r => .move r

theorem limbo_moving {c : Reclaim} : limbo ((moving c).going z idx) = c.limbo := by cases c <;> rfl

theorem floor_moving {c : Reclaim} : floor n k ((moving c).going z idx) = n := by cases c <;> rfl

section

variable (h : Inv cfg l S m a)
include h

theorem Inv.storeHead (ht : S.task t = .reclaims z idx b (.storeHead x new)) :
    ∃ a, Inv cfg l ({ S with headBlock := new }.goes t (.reclaiming z idx b (.count x new))) m
      a := by
  have hrun := h.run_eq ht
  have hruns := h.runs
  rw [hrun] at hruns
  obtain ⟨hz, ⟨hquiet, -⟩, ⟨hs, hnew⟩, hduty⟩ := hruns
  refine h.onward ht new _ _ a (.count x new) le_rfl ?_ (fun _ => ?_)
    ⟨a.new, hnew.le, hnew.at_, hnew.off⟩ h.off fun hhas => ⟨hz,
      ⟨⟨hquiet.first, hquiet.off, hquiet.tail⟩, hnew.at_.2.symm⟩,
      ⟨⟨hs.old, hs.oldOff, hs.count, hs.dvd, hs.le⟩, ⟨hnew.le, hnew.at_, hnew.off⟩⟩,
        fun u y hy => ?_⟩
  · rw [hrun]
    rfl
  · rw [hrun]
    exact le_rfl
  · exact hduty u y (hhas u y hy)

/-- From here on a call that loads `reclaim_counter` has seen the new head, and one that
loaded it before goes back. -/
theorem Inv.count (ht : S.task t = .reclaims z idx b (.count x new)) :
    ∃ a, Inv cfg l ({ S with reclaimCounter := S.reclaimCounter + 1 }.goes t
      (.reclaiming z idx b (.check x new))) m a := by
  have hrun := h.run_eq ht
  have hruns := h.runs
  rw [hrun] at hruns
  obtain ⟨hz, ⟨hquiet, hstored⟩, ⟨hs, hnew⟩, hduty⟩ := hruns
  refine h.onward ht _ _ _ a (.check x new) (Nat.le_succ _) ?_ (fun heq => ?_)
    ⟨a.new, le_rfl, ⟨hnew.at_.1, hstored.symm⟩, hnew.off⟩ h.off fun hhas => ⟨hz,
      ⟨⟨hquiet.first, hquiet.off, hquiet.tail⟩, hstored⟩,
      ⟨⟨hs.old, hs.oldOff, hs.count, hs.dvd, hs.le⟩, ⟨hnew.le, hnew.at_, hnew.off⟩⟩,
        fun u y hy => ?_⟩
  · rw [hrun]
    rfl
  · exact absurd heq (Nat.succ_ne_self _)
  · exact hduty u y (hhas u y hy)

/-- A hazard pointer was acquired: the head is rolled back. -/
theorem Inv.abandons (ht : S.task t = .reclaims z idx b (.check x new)) :
    ∃ a, Inv cfg l (S.goes t (.reclaiming z idx b (.rollback x))) m a := by
  have hrun := h.run_eq ht
  have hruns := h.runs
  have hhead := h.head
  rw [hrun] at hruns hhead
  obtain ⟨hz, ⟨hquiet, -⟩, ⟨hs, hnew⟩, -⟩ := hruns
  obtain ⟨k, hk, hat⟩ := hhead
  refine h.onward ht _ _ _ a (.rollback x) le_rfl ?_ (fun _ => ?_)
    ⟨k, hnew.le.trans hk, hat⟩ h.off fun _ => ⟨hz, ⟨hquiet.first, hquiet.off, hquiet.tail⟩, hs.old,
      fun _ _ _ => trivial⟩
  · rw [hrun]
    rfl
  · rw [hrun]
    exact hnew.le

theorem Inv.rollback (ht : S.task t = .reclaims z idx b (.rollback x)) :
    ∃ a, Inv cfg l ({ S with headBlock := x.old }.goes t (.reclaiming z idx b .done)) m a := by
  have hrun := h.run_eq ht
  have hruns := h.runs
  rw [hrun] at hruns
  obtain ⟨-, hquiet, hold, -⟩ := hruns
  refine h.onward ht x.old _ _ a .done le_rfl ?_ (fun _ => ?_)
    ⟨m.lo, le_rfl, ⟨h.heaps.lo.2, hold.symm⟩, h.heaps.off⟩ h.off fun _ =>
      ⟨⟨hquiet.first, hquiet.off, hquiet.tail⟩, hold⟩
  · rw [hrun]
    rfl
  · rw [hrun]
    exact le_rfl

/-- No hazard pointer was acquired: what the tokens have has been advanced. -/
theorem Inv.commits (ht : S.task t = .reclaims z idx b (.check x new))
    (hcount : x.count = S.hazPtrCounter) :
    ∃ m a, Inv cfg l ({ S with committed := new }.goes t
      (.reclaiming z idx b (.newOffset x new))) m a := by
  have hrun := h.run_eq ht
  have hruns := h.runs
  have hheaps := h.heaps
  have hhead := h.head
  have hcalling := h.calling
  rw [hrun] at hruns hheaps hhead hcalling
  obtain ⟨hz, ⟨hquiet, hstored⟩, ⟨hs, hnew⟩, hduty⟩ := hruns
  have hlo : m.lo ≤ a.new := hnew.le
  have hoff : ∀ {o}, o ≤ m.lo * cfg.blockSize → o ≤ a.new * cfg.blockSize := fun ho =>
    ho.trans (Nat.mul_le_mul_right _ hlo)
  have hpos := cfg.blockSize_pos
  have hleaves : Leaves S { S with committed := new } :=
    ⟨rfl, rfl, rfl, rfl, rfl, rfl, rfl, rfl, rfl⟩
  refine ⟨_, h.reclaims (congrArg Task.locked ht) (congrArg Task.doing ht) hleaves
    { m with lo := a.new } a (.newOffset x new)
    ⟨hheaps.ok, hheaps.mem, ⟨hquiet.first.le.trans hlo, hnew.at_.1⟩, hnew.off, hnew.at_.2.symm⟩
    ⟨h.nodes.fresh, h.nodes.dvd, h.nodes.active⟩ hhead ⟨hoff h.off.1, h.off.2⟩
      (fun u y hy side => ?_)
    (fun u y p hd => ?_) (fun u q hk => ?_)
    ⟨hz, hstored, ⟨hnew.at_.2.symm, hquiet.first.le.trans hlo, fun k _ _ i _ => ?_,
      ⟨hquiet.first.le.trans hlo, hnew.at_.1, ?_, hnew.at_.2⟩, hquiet.tail,
      fun i hi => absurd hi (Nat.not_lt_zero _), Nat.zero_le _⟩, fun _ _ _ => trivial⟩⟩
  · have hseat := h.seats u y hy side
    have hdone := (hduty u y hy).2 hcount side
    exact ⟨hseat.block, Nat.le_of_mul_le_mul_right hdone.1 hpos, hseat.last, hseat.off,
      hseat.protect⟩
  · have hold := h.holds u y p hd
    have hy := Ring.has_of_doing h.ring hd
    obtain ⟨hclear, hdone⟩ := hduty u y hy
    have hphase : (S.task u).phase = p := by rw [Task.phase, hd]; rfl
    rw [hphase] at hclear hdone
    refine ⟨fun i hi => ⟨(hold.idx i hi).1, hclear i hi, (hold.idx i hi).2.2⟩, hold.aims,
      fun hl => ?_, ?_⟩
    · have hlooks : ∃ side, p.Looks side := by
        cases p with
        | loaded side | seeks side => exact ⟨side, rfl, rfl⟩
        | ends => exact ⟨.write, rfl, rfl⟩
        | out | guards | ticket | swaps | has | crosses => cases hl
      obtain ⟨side, hside⟩ := hlooks
      obtain ⟨hact, -, hidx⟩ := hold.looks hl
      exact ⟨hact, Nat.le_of_mul_le_mul_right ((hdone hcount side).2 hside) hpos, hidx⟩
    · cases p <;> exact hold.knows
  · have hc := hcalling u q hk
    refine ⟨hc.rc, hc.head, ?_, fun heq => ?_⟩
    · have low : ∀ {y}, Low cfg S m y → Low cfg S { m with lo := a.new } y :=
        fun hl side => hoff (hl side)
      have hst := hc.stores
      cases q with
      | headBlock rc p off | initActive rc p off head => exact ⟨hoff hst.1, hst.2⟩
      | initRead | initWrite | count | check => exact low hst
      | loadCount | next | owned | take | append | headOffset => trivial
    · have hsafe := hc.safe heq
      have seat : ∀ {y side}, Seat cfg S m a.new y side →
        Seat cfg { S with committed := new } { m with lo := a.new } a.new y side :=
        fun hs => ⟨hs.block, hs.le, hs.last, hs.off, hs.protect⟩
      cases q with
      | initActive | initRead => exact hsafe
      | initWrite => exact ⟨hsafe.1, seat hsafe.2⟩
      | count | check => exact fun side => seat (hsafe side)
      | loadCount | next | owned | take | append | headOffset | headBlock => trivial
  · rw [Heap.elem_unit]
  · rw [hs.old, ← hquiet.first]
    rfl

/-! ## The blocks before the head are moved -/

theorem Inv.newOffset (ht : S.task t = .reclaims z idx b (.newOffset x new)) :
    ∃ a, Inv cfg l (S.goes t (.reclaiming z idx b (.storeOffset x new (S.offset new)))) m a := by
  have hrun := h.run_eq ht
  have hruns := h.runs
  have hhead := h.head
  rw [hrun] at hruns hhead
  obtain ⟨hz, hstored, ⟨hnew, hok⟩, -⟩ := hruns
  have hoff : S.offset new = m.lo * cfg.blockSize := h.at_offset ⟨h.heaps.lo.2, hnew.symm⟩ le_rfl
  refine h.onward ht _ _ _ a (.storeOffset x new (S.offset new)) le_rfl ?_ (fun _ => ?_) hhead
    h.off fun _ => ⟨hz, hstored, ⟨hnew, hoff, hok⟩, fun _ _ _ => trivial⟩
  · rw [hrun]
    rfl
  · rw [hrun]
    exact le_rfl

theorem Inv.storeOffset {off : Nat} (ht : S.task t = .reclaims z idx b (.storeOffset x new off)) :
    ∃ a, Inv cfg l ({ S with headOffset := off }.goes t
      (.reclaiming z idx b (.move (.gather [] x.old new)))) m a := by
  have hrun := h.run_eq ht
  have hruns := h.runs
  have hhead := h.head
  rw [hrun] at hruns hhead
  obtain ⟨hz, hstored, ⟨-, hoff, hok⟩, -⟩ := hruns
  refine h.onward ht _ off _ a (.move (.gather [] x.old new)) le_rfl ?_ (fun _ => ?_)
    hhead ⟨hoff.le, hoff ▸ Nat.dvd_mul_left ..⟩ fun _ =>
      ⟨hz, ⟨hstored, hoff⟩, hok, fun _ _ _ => trivial⟩
  · rw [hrun]
    rfl
  · rw [hrun]
    exact le_rfl

/-- A step of `reclaim_blocks`. -/
theorem Inv.move {c : Reclaim} (ht : S.task t = .reclaims z idx b (.move c)) :
    ∃ m a, Inv cfg l ({ S with
      heap := (c.step .natural cfg.toLayout S.heap S.tailBlock).1
      tailBlock := (c.step .natural cfg.toLayout S.heap S.tailBlock).2.1 }.goes t
        (.reclaiming z idx b (moving (c.step .natural cfg.toLayout S.heap S.tailBlock).2.2.2))) m
          a := by
  have hrun := h.run_eq ht
  have hruns := h.runs
  have hheaps := h.heaps
  have hhead := h.head
  have hcalling := h.calling
  rw [hrun] at hruns hheaps hhead hcalling
  obtain ⟨hz, ⟨hstored, hoffset⟩, hok, -⟩ := hruns
  have hok : c.Ok cfg.toLayout m.chain S.heap m.lo S.tailBlock := hok
  obtain ⟨hafter, -, hnext⟩ := Reclaim.step_chain h.heaps.ok hok
  have hperm := Reclaim.Ok.perm h.heaps.ok hok
  generalize c.step .natural cfg.toLayout S.heap S.tailBlock = g at hafter hnext hperm ⊢
  generalize c.chain m.chain S.heap = c' at hafter hnext hperm ⊢
  obtain ⟨heap, tail, ok, u'⟩ := g
  have hafter : Reclaim.After cfg.toLayout m.chain S.heap m.lo c' heap := hafter
  have hstored' : S.headBlock = c'.block m.lo :=
    hstored.trans (hafter.ext.block _ h.heaps.lo.2).symm
  have hs : Stays S { S with heap := heap, tailBlock := tail } m { m with chain := c' } :=
    ⟨hafter.ext, hafter.fresh.symm.le, fun side => by cases side <;> exact le_rfl, rfl, rfl⟩
  have hleaves : Leaves S { S with heap := heap, tailBlock := tail } :=
    ⟨rfl, rfl, rfl, rfl, rfl, rfl, rfl, rfl, rfl⟩
  have hapart : ∀ y, Apart S { S with heap := heap, tailBlock := tail } m
    { m with chain := c' } y :=
    fun _ => ⟨.refl _, rfl, rfl⟩
  refine ⟨_, h.reclaims (congrArg Task.locked ht) (congrArg Task.doing ht) hleaves
    { m with chain := c' } a (moving u')
    ⟨hafter.ok, fun o ho => ?_, hnext.lo_le, fun side => (h.heaps.off side).trans (hs.off side),
      h.heaps.committed.trans (hafter.ext.block _ h.heaps.lo.2).symm⟩
    ⟨fun y side o ho => (h.nodes.fresh y side o ho).trans_le hs.fresh, h.nodes.dvd, h.nodes.active⟩
    ?_ h.off (fun u y hy side => (h.seats u y hy side).frame hs (hapart y))
    (fun u y p hd => (h.holds u y p hd).frame hs (hapart y)) (fun u q hk => ?_) ?_⟩
  · rw [limbo_moving]
    have ho : o < S.heap.fresh := hafter.fresh ▸ ho
    have hold : o ∈ m.chain.all ++ c.limbo := by
      rw [List.mem_append]
      rcases hheaps.mem o ho with hin | hpoints
      · exact .inr hin
      · exact .inl (h.heaps.ok.mem_all.mpr hpoints)
    rcases List.mem_append.mp (hperm.mem_iff.mpr hold) with hin | hin
    · exact .inr (hafter.ok.mem_all.mp hin)
    · exact .inl hin
  · rw [floor_moving]
    exact hhead.frame hs
  · rw [floor_moving]
    exact (hcalling u q hk).frame hs fun p _ => hapart p
  · have hstage : S.headBlock = c'.block m.lo ∧ S.headOffset = m.lo * cfg.blockSize :=
      ⟨hstored', hoffset⟩
    by_cases hdone : u' = .done
    · subst hdone
      exact ⟨⟨hnext.2.2.1, hoffset, hnext.2.2.2.1⟩, hstored'⟩
    · have hmoving : moving u' = .move u' := by
        cases u' with
        | done => exact absurd rfl hdone
        | _ => rfl
      rw [hmoving]
      exact ⟨hz, hstage, hnext, fun _ _ _ => trivial⟩

end

end Sight

end CoroUtil.Channel
