import CoroUtil.Channel.Reclamation.Acquire

/-!
# The lowest offset that is protected

`Inv.reclaims` is a step of `try_reclaim_blocks`, and `Sound` what it has to be shown of
those that write nothing.  The first loop of `try_advance_head` ends with a `ProtectIdx`
that no operation has an index before (`Inv.endMin`).  The offsets of the operations that
are active are multiples of `BlockSize`, and the others are not before `ProtectIdx` as long
as `write_offset` has not passed `InactiveHazptrOffset` (`Inv.keepMin`).
-/

namespace CoroUtil.Channel

open CoroUtil.General CoroUtil.Blocks

/-- The call that goes on with `r`, or has returned. -/
def TryReclaim.going (z idx : Nat) : TryReclaim → Option (Nat × Nat × TryReclaim)
  | .done => none
  | r => some (z, idx, r)

theorem TryReclaim.going_eq {z idx : Nat} {r : TryReclaim} (h : r ≠ .done) :
    r.going z idx = some (z, idx, r) := by
  cases r with
  | done => exact absurd rfl h
  | _ => rfl

namespace Task

variable {z idx b : Nat} {r : TryReclaim}

theorem run_reclaiming : (reclaiming z idx b r).run = r.going z idx := by cases r <;> rfl

theorem doing_reclaiming :
    (reclaiming z idx b r).doing = some (z, .has .read idx idx (idx + 1) b) := by cases r <;> rfl

theorem role_of_doing {k : Task} {p : Phase} (h : k.doing = some (z, p)) : k.role = .uses z := by
  cases k with
  | uses | locks | reclaims =>
    cases h
    rfl
  | rest | acquires | waits | closes | marks | walks | frees => cases h

theorem keeps_of_doing {k : Task} {p : Phase} (h : k.doing = some (z, p)) : k.keeps = true := by
  cases k with
  | uses | locks | reclaims => rfl
  | rest | acquires | waits | closes | marks | walks | frees => cases h

theorem locked_reclaiming : (reclaiming z idx b r).locked = true := by cases r <;> rfl

end Task

namespace Sight

variable {cfg : Config} {l : List Nat} {S S₁ : Sight} {m m' : Map} {a a' : Plan}
  {f k b z y n idx o curr new : Nat} {side : Side} {p : Phase} {q : Acquire} {r r' : TryReclaim}
  {x : Scan} {t u : Tid}

/-! ## A step of the reclaim -/

/-- What a step of the reclaim leaves as it is. -/
structure Leaves (S S₁ : Sight) : Prop where
  live : S₁.live = S.live
  haz : S₁.haz = S.haz
  task : S₁.task = S.task
  lock : S₁.blocksLock = S.blocksLock
  hazards : S₁.hazards = S.hazards
  owned : S₁.owned = S.owned
  next : S₁.next = S.next
  write : S₁.writeOffset = S.writeOffset
  read : S₁.readOffset = S.readOffset

theorem Leaves.refl (S : Sight) : Leaves S S := ⟨rfl, rfl, rfl, rfl, rfl, rfl, rfl, rfl, rfl⟩

theorem Inv.run_eq (h : Inv cfg l S m a) (ht : S.task t = .reclaims z idx b r) :
    S.run = some (z, idx, r) := by
  have hlock : S.blocksLock = some t := (h.lock t).mp (congrArg Task.locked ht)
  rw [run, hlock]
  exact congrArg Task.run ht

theorem Leaves.ring (h : Leaves S S₁) (hl : S.Ring l)
    (hdoing : (S.task t).doing = some (z, .has .read idx idx (idx + 1) b)) :
    (S₁.goes t (.reclaiming z idx b r')).Ring l := by
  have hview : (S₁.goes t (.reclaiming z idx b r')).view = S.view := by
    funext u
    have hrole : ((S₁.goes t (.reclaiming z idx b r')).task u).role = (S.task u).role := by
      by_cases hu : u = t
      · rw [hu, task_goes, Task.role_of_doing Task.doing_reclaiming, Task.role_of_doing hdoing]
      · rw [task_goes_of_ne hu, h.task]
    rw [view, hrole]
    change View.mk (S₁.live u) (S₁.haz u) _ = _
    rw [h.live, h.haz]
    rfl
  have howned : (S₁.goes t (.reclaiming z idx b r')).owned = S.owned := h.owned
  have hnext : (S₁.goes t (.reclaiming z idx b r')).next = S.next := h.next
  have hhazards : (S₁.goes t (.reclaiming z idx b r')).hazards = S.hazards := h.hazards
  rw [Ring, hview, howned, hnext, hhazards]
  exact hl

/-- The reclaim is where it is, whatever the task of a token is called. -/
theorem Runs.goes {k : Task} {run : Option (Nat × Nat × TryReclaim)} (h : Runs cfg l S m a run)
    (ok : m.chain.Ok cfg.toLayout S.heap) (hlo : m.lo ≤ m.chain.last)
    (hcycle : Cycle S.next hazardPtrList l)
      (hidx : ∀ z idx r, run = some (z, idx, r) → idx ≤ S.readOffset)
    (hphase : k.phase = (S.task t).phase) (hhas : ∀ u y, (S.goes t k).Has u y → S.Has u y) :
    ∃ rest, Runs cfg l (S.goes t k) m { a with rest } run := by
  have hf : Frame cfg l l S (S.goes t k) m m :=
    ⟨.of_grows ok (.refl ok), fun _ hb => .inl hb, fun side => off_goes.symm.le, le_rfl,
      .same (fun _ hy => hy) fun _ _ => rfl, rfl, rfl, rfl, rfl, rfl, rfl⟩
  cases run with
  | none => exact ⟨a.rest, h.1.frame hf, h.2⟩
  | some v =>
    obtain ⟨z, idx, r⟩ := v
    obtain ⟨hz, hstage, hsite, hduties⟩ := h
    obtain ⟨rest, hrest, hsite'⟩ := Site.frame hf hsite ok hlo hcycle hz
    refine ⟨rest, hz, hstage.frame hf hlo hsite rfl, hsite', fun u y hy => ?_⟩
    have hphase' : ((S.goes t k).task u).phase = (S.task u).phase := by
      by_cases hu : u = t
      · rw [hu, task_goes, hphase]
      · rw [task_goes_of_ne hu]
    rw [hphase']
    exact (hduties u y (hhas u y hy)).moves .refl hsite (hidx z idx r rfl) rfl (fun _ _ hb => hb)
      le_rfl rfl hrest

/-- **A step of the reclaim.**  It starts from a task that has `blocks_lock`. -/
theorem Inv.reclaims (h : Inv cfg l S m a) (hlocked : (S.task t).locked = true)
    (hdoing : (S.task t).doing = some (z, .has .read idx idx (idx + 1) b)) (hs : Leaves S S₁)
      (m' : Map) (a' : Plan) (r' : TryReclaim)
    (hheaps : Heaps cfg S₁ m' (limbo (r'.going z idx))) (hnodes : Nodes cfg S₁)
    (hhead : HeadAt cfg S₁ m' (floor m'.lo a'.new (r'.going z idx)) S₁.headBlock)
    (hoff : S₁.headOffset ≤ m'.lo * cfg.blockSize ∧ cfg.blockSize ∣ S₁.headOffset)
    (hseats : ∀ u y, S₁.Has u y → ∀ side, Seat cfg S₁ m' m'.lo y side)
    (hholds : ∀ u y p, (S.task u).doing = some (y, p) → Holds cfg S₁ m' y p)
    (hcalling : ∀ u q, S.task u = .acquires q →
      Calling cfg S₁ m' (floor m'.lo a'.new (r'.going z idx)) q)
    (hruns : Runs cfg l S₁ m' a' (r'.going z idx)) :
    ∃ a, Inv cfg l (S₁.goes t (.reclaiming z idx b r')) m' a := by
  have hlock : S.blocksLock = some t := (h.lock t).mp hlocked
  have htask : ∀ u, u ≠ t → (S₁.goes t (.reclaiming z idx b r')).task u = S.task u := fun u hu =>
    (task_goes_of_ne hu).trans (congrFun hs.task u)
  have hrun : (S₁.goes t (.reclaiming z idx b r')).run = r'.going z idx := by
    rw [run]
    change S₁.blocksLock.bind _ = _
    rw [hs.lock, hlock]
    change ((S₁.goes t (.reclaiming z idx b r')).task t).run = _
    rw [task_goes, Task.run_reclaiming]
  have hdoings : ∀ u, ((S₁.goes t (.reclaiming z idx b r')).task u).doing = (S.task u).doing := by
    intro u
    by_cases hu : u = t
    · rw [hu, task_goes, Task.doing_reclaiming, hdoing]
    · rw [htask u hu]
  have hhas : ∀ u y, (S₁.goes t (.reclaiming z idx b r')).Has u y → S₁.Has u y := by
    intro u y hy
    by_cases hu : u = t
    · subst hu
      rcases hy with ⟨hy, -⟩ | hy
      · refine .inl ⟨hy, ?_⟩
        rw [hs.task]
        exact Task.keeps_of_doing hdoing
      · rw [task_goes] at hy
        cases r' <;> cases hy
    · rw [Has, task_goes_of_ne hu] at hy
      exact hy
  have hacquires : ∀ u q, (S₁.goes t (.reclaiming z idx b r')).task u = .acquires q →
      S.task u = .acquires q := by
    intro u q hk
    by_cases hu : u = t
    · rw [hu, task_goes] at hk
      cases r' <;> cases hk
    · rw [← htask u hu]
      exact hk
  obtain ⟨rest, hruns'⟩ := hruns.goes (t := t) (k := .reclaiming z idx b r') hheaps.ok hheaps.lo.2
    (hs.next.symm ▸ h.ring.cycle)
    (fun z' idx' r'' heq => by
      have hidx : idx ≤ S.readOffset := ((h.holds t z _ hdoing).idx idx rfl).2.2 .read rfl
      rw [hs.read]
      cases r' with
      | done => cases heq
      | _ =>
        cases heq
        exact hidx)
    (by rw [Task.phase, Task.phase, Task.doing_reclaiming, hs.task, hdoing]) hhas
  refine ⟨{ a' with rest }, hs.ring h.ring hdoing, ?_, ⟨hnodes.fresh, hnodes.dvd, hnodes.active⟩,
    fun u => ?_, ?_, hoff, fun u y hy side => (hseats u y (hhas u y hy) side).goes,
    fun u y p top hk => ?_, fun u y p hd => ?_, fun u q hk => ?_, fun u => ?_, ?_⟩
  · rw [hrun]
    refine ⟨hheaps.ok, hheaps.mem, hheaps.lo, fun side => ?_, hheaps.committed⟩
    rw [off_goes]
    exact hheaps.off side
  · change _ ↔ S₁.blocksLock = some u
    rw [hs.lock]
    by_cases hu : u = t
    · rw [hu, task_goes, Task.locked_reclaiming, hlock]
      exact iff_of_true rfl rfl
    · rw [htask u hu]
      exact h.lock u
  · rw [hrun]
    exact hhead.goes
  · have hk' : S.task u = .uses y p top := by
      by_cases hu : u = t
      · rw [hu, task_goes] at hk
        cases r' <;> cases hk
      · rw [← htask u hu]
        exact hk
    change top ≤ S₁.writeOffset
    rw [hs.write]
    exact h.top u y p top hk'
  · rw [hdoings] at hd
    exact (hholds u y p hd).goes
  · rw [hrun]
    exact (hcalling u q (hacquires u q hk)).goes
  · by_cases hu : u = t
    · rw [hu, task_goes]
      cases r' <;> exact trivial
    · rw [htask u hu]
      -- whoever walks for `close` would hold the lock
      have hfree : (S.task u).locked ≠ true := fun hlocked =>
        hu (Option.some.inj (((h.lock u).mp hlocked).symm.trans hlock))
      cases hk : S.task u with
      | marks | walks =>
        rw [hk] at hfree
        exact absurd rfl hfree
      | rest | acquires | uses | locks | reclaims | waits | closes | frees => trivial
  · rw [hrun]
    exact hruns'

/-! ## The private stage -/

/-- The steps that nobody sees the head of. -/
def Private : TryReclaim → Prop
  | .count .. | .check .. | .rollback .. | .newOffset .. | .storeOffset .. | .move _ => False
  | _ => True

/-- The reclaim for `z` can go on at `r`. -/
def Sound (cfg : Config) (l : List Nat) (S : Sight) (m : Map) (z idx : Nat) (r : TryReclaim) :
    Prop :=
  Private r ∧ ∃ a, Site cfg l S m a z idx r ∧
    ∀ t y, S.Has t y → Duty cfg S m a idx y (S.task t).phase r

theorem Sound.done : Sound cfg l S m z idx .done :=
  ⟨trivial, ⟨0, []⟩, trivial, fun _ _ _ => trivial⟩

theorem Private.stage (h : Private r) :
    Stage cfg S m a r ↔ Quiet cfg S m ∧ S.headBlock = m.chain.block m.lo := by
  cases r with
  | count | check | rollback | newOffset | storeOffset | move => exact absurd h not_false
  | _ => exact Iff.rfl

theorem Private.limbo_eq (h : Private r) : limbo (r.going z idx) = [] := by
  cases r with
  | move => exact absurd h not_false
  | _ => rfl

theorem Private.floor_eq (h : Private r) : floor n k (r.going z idx) = n := by
  cases r with
  | check => exact absurd h not_false
  | _ => rfl

/-- A step that nobody sees. -/
theorem Inv.private (h : Inv cfg l S m a) (ht : S.task t = .reclaims z idx b r) (hr : Private r)
    (hsound : Sound cfg l S m z idx r') :
      ∃ a, Inv cfg l (S.goes t (.reclaiming z idx b r')) m a := by
  have hrun := h.run_eq ht
  have hruns := h.runs
  have hheaps := h.heaps
  have hhead := h.head
  have hcalling := h.calling
  have hlimbo : limbo (some (z, idx, r)) =
    [] := by cases r <;> first | rfl | exact absurd hr not_false
  have hfloor : ∀ k, floor m.lo k (some (z, idx, r)) = m.lo := by
    intro k
    cases r <;> first | rfl | exact absurd hr not_false
  rw [hrun, hlimbo] at hheaps
  rw [hrun] at hruns hhead hcalling
  rw [hfloor] at hhead
  obtain ⟨hz, hstage, -, -⟩ := hruns
  obtain ⟨hr', a', hsite, hduty⟩ := hsound
  have hquiet := (Private.stage hr).mp hstage
  refine h.reclaims (congrArg Task.locked ht) (congrArg Task.doing ht)
    (.refl S) m a' r' ?_ h.nodes ?_ h.off h.seats h.holds (fun u q hk => ?_) ?_
  · rw [Private.limbo_eq hr']
    exact hheaps
  · rw [Private.floor_eq hr']
    exact hhead
  · rw [Private.floor_eq hr']
    have hc := hcalling u q hk
    rw [hfloor] at hc
    exact hc
  · by_cases hdone : r' = .done
    · rw [hdone]
      exact hquiet
    · rw [TryReclaim.going_eq hdone]
      exact ⟨hz, (Private.stage hr').mpr hquiet, hsite, hduty⟩

/-! ## The loops -/

/-- The loop for `z` starts at `z`. -/
theorem Ring.loop (h : S.Ring l) (hz : z ∈ l) :
    ∃ rest, (∀ y ∈ l, y ∈ rest) ∧ ∀ new, Loop l S ⟨new, rest⟩ z z := by
  obtain ⟨tl, hpath, hout, hmem⟩ := h.cycle.rotate hz
  exact ⟨z :: tl, hmem, fun _ => ⟨hz, ⟨rfl, hpath⟩, tl, rfl, hout⟩⟩

/-- It loads the next hazard pointer. -/
theorem Ring.loads (h : S.Ring l) (hl : Loop l S a z curr) :
    ∃ tl, a.rest = curr :: tl ∧ Loads l S { a with rest := tl } z curr (S.hazard curr).next := by
  obtain ⟨tl, htl, hout⟩ := hl.rest
  have hpath := hl.path
  rw [htl] at hpath
  exact ⟨tl, htl, hl.mem, h.cycle.next_mem hl.mem, hpath.2, hout⟩

/-- It is through with the cycle. -/
theorem Loads.rest_nil (hl : Loads l S a z curr z) : a.rest = [] := by
  cases hrest : a.rest with
  | nil => rfl
  | cons y tl =>
    have hpath := hl.path
    have hout := hl.rest
    rw [hrest] at hpath hout
    rw [hpath.1] at hout
    exact absurd List.mem_cons_self hout

theorem Loads.loop (hl : Loads l S a z curr n) (hne : n ≠ z) : Loop l S a z n := by
  have hpath := hl.path
  have hout := hl.rest
  refine ⟨hl.next, hpath, ?_⟩
  cases hrest : a.rest with
  | nil =>
    rw [hrest] at hpath
    exact absurd hpath hne
  | cons y tl =>
    rw [hrest] at hpath hout
    obtain rfl : n = y := hpath.1
    exact ⟨tl, rfl, fun hmem => hout (List.mem_cons_of_mem _ hmem)⟩

/-- A hazard pointer that a token has is owned. -/
theorem Ring.owned_of_has (h : S.Ring l) (hz : S.Has t z) : (S.hazard z).owned = true :=
  (h.leases.owned z).mpr ⟨t, Ring.node_of_has h hz⟩

/-! ## What `try_advance_head` compares -/

theorem keepMin_natural {src : Nat} :
    State.keepMin .natural cfg x src = { x with protect := min x.protect src } := by
  rw [State.keepMin, Layout.less_natural]
  by_cases hlt : src < x.protect
  · rw [if_pos (decide_eq_true hlt), Nat.min_eq_right hlt.le]
  · rw [decide_eq_false hlt, if_neg Bool.false_ne_true, Nat.min_eq_left (Nat.le_of_not_lt hlt)]

theorem endMin_natural : State.endMin .natural cfg x =
    if x.protect ≤ x.oldOff then .done else .walk x x.old false := by
  rw [State.endMin, Layout.less_natural, Layout.reg_natural]
  simp only [decide_eq_true_eq, Nat.add_comm 1, Nat.lt_succ_iff]

theorem Scans.lower (h : Scans cfg S m x) (hle : o ≤ x.protect) (hdvd : cfg.blockSize ∣ o) :
    Scans cfg S m { x with protect := o } := ⟨h.old, h.oldOff, h.count, hdvd, hle.trans h.le⟩

theorem Follows.mono (h : Follows cfg m z p o side) (hn : n ≤ o) : Follows cfg m z p n side :=
  fun hl => (h hl).imp_left hn.trans

theorem Passed.mono (h : Passed cfg m z p o) (hn : n ≤ o) : Passed cfg m z p n :=
  ⟨h.1.mono hn, fun side => (h.2 side).mono hn⟩

theorem Done.mono (h : Done cfg m z p o side) (hn : n ≤ o) : Done cfg m z p n side :=
  ⟨hn.trans h.1, fun hl => hn.trans (h.2 hl)⟩

/-! ## The first loop -/

section

variable (h : Inv cfg l S m a) (ht : S.task t = .reclaims z idx b r)
include h

/-- As long as `write_offset` is not past `InactiveHazptrOffset`, `keep_min` with an
`active_offset` is one with a multiple of `BlockSize`. -/
theorem Inv.keepMin (hscope : S.writeOffset ≤ cfg.inactive) (hs : Scans cfg S m x) :
    Scans cfg S m { x with protect := min x.protect (S.hazard curr).activeOffset } := by
  refine hs.lower (Nat.min_le_left ..) ?_
  rcases Nat.lt_or_ge (S.hazard curr).activeOffset x.protect with hlt | hge
  · rw [Nat.min_eq_right hlt.le]
    refine (h.nodes.active curr).resolve_right fun hle => ?_
    exact Nat.lt_irrefl _ (((hle.trans_lt hlt).trans_le hs.le).trans_le hscope)
  · rw [Nat.min_eq_left hge]
    exact hs.dvd

/-- An operation that is active has no index before its `active_offset`, and has started
from there. -/
theorem Inv.passed (hy : S.Has u y) (ho : o ≤ (S.hazard y).activeOffset) :
    Passed cfg m y (S.task u).phase o := by
  have hholds := h.phase_holds hy
  exact ⟨fun i hi => ho.trans (hholds.idx i hi).1,
    fun _ hl => .inl (ho.trans (hholds.looks hl.1).1)⟩

include ht

theorem Inv.reach (hdvd : cfg.blockSize ∣ o) (hwrite : o ≤ S.writeOffset) (hle : o ≤ idx) :
    Reach cfg S m o := by
  have hholds := h.holds t z (.has .read idx idx (idx + 1) b) (by rw [ht]; rfl)
  have hlast : idx / cfg.blockSize ≤ m.chain.last := hholds.knows.2.2.1
  refine ⟨?_, fun side => ?_⟩
  · calc o = o / cfg.blockSize * cfg.blockSize := (Nat.div_mul_cancel hdvd).symm
      _ ≤ m.chain.last * cfg.blockSize :=
        Nat.mul_le_mul_right _ ((Nat.div_le_div_right hle).trans hlast)
  · cases side with
    | write => exact hwrite
    | read => exact hle.trans (h.own (h.run_eq ht)).2

/-- The lowest offset is known. -/
theorem Inv.endMin (hs : Scans cfg S m x) (hidx : x.protect ≤ idx)
    (hduty : ∀ u y, S.Has u y → Passed cfg m y (S.task u).phase x.protect) :
    Sound cfg l S m z idx (State.endMin .natural cfg x) := by
  rw [endMin_natural]
  split_ifs with hle
  · exact .done
  · rw [hs.oldOff] at hle
    exact ⟨trivial, ⟨m.lo, []⟩, ⟨hs, ⟨le_rfl, ⟨h.heaps.lo.2, hs.old.symm⟩, h.heaps.off⟩,
      h.reach ht hs.dvd hs.le hidx, .inl rfl, fun _ => Nat.lt_of_not_le hle⟩, hduty⟩

/-- The loop is through with a hazard pointer. -/
theorem Inv.afterMin (hs : Scans cfg S m x) (hidx : x.protect ≤ idx) (hl : Loads l S a' z curr n)
    (hduty : ∀ u y, S.Has u y → y ∈ a'.rest ∨ Passed cfg m y (S.task u).phase (min x.protect idx)) :
    Sound cfg l S m z idx (State.afterMin .natural cfg z x n) := by
  rw [State.afterMin]
  split_ifs with hn hscans
  · rw [hn] at hl
    refine h.endMin ht hs hidx fun u y hy => ?_
    have hpassed := (hduty u y hy).resolve_left fun hmem => by
      rw [hl.rest_nil] at hmem
      exact absurd hmem List.not_mem_nil
    rwa [Nat.min_eq_left hidx] at hpassed
  · have hlt : x.oldOff < x.protect := of_decide_eq_true hscans
    rw [hs.oldOff] at hlt
    exact ⟨trivial, a', ⟨hs, hlt, .inr hidx, hl.loop hn⟩, hduty⟩
  · have hle : x.protect ≤ x.oldOff := Nat.le_of_not_lt fun hlt => hscans (decide_eq_true hlt)
    rw [endMin_natural, if_pos hle]
    exact .done

end

section

variable {V : Type} {s : State V} (h : Inv cfg l s.sight m a)
  (ht : s.sight.task t = .reclaims z idx b r)
include h

theorem Inv.oldOffset {protect old count : Nat} (hz : z ∈ l)
    (hsite : Site cfg l s.sight m a' z idx (.oldOffset protect old count)) :
    Sound cfg l s.sight m z idx
      (s.reclaimStep .natural cfg z (.oldOffset protect old count)).2 := by
  obtain ⟨hle, hdvd, hold, hcount⟩ := hsite
  obtain ⟨rest, hmem, hloop⟩ := h.ring.loop hz
  have hoff : s.offset old = m.lo * cfg.blockSize := h.at_offset ⟨h.heaps.lo.2, hold.symm⟩ le_rfl
  have hs : Scans cfg s.sight m ⟨old, s.offset old, protect, count⟩ :=
    ⟨hold, hoff, hcount, hdvd, hle⟩
  rw [State.reclaimStep]
  dsimp only
  split_ifs with hscans
  · have hlt : s.offset old < protect := of_decide_eq_true hscans
    rw [hoff] at hlt
    exact ⟨trivial, _, ⟨hs, hlt, .inl rfl, hloop m.lo⟩, fun u y hy =>
      .inl (hmem y (Ring.mem_of_has h.ring hy))⟩
  · have hle : protect ≤ s.offset old := Nat.le_of_not_lt fun hlt => hscans (decide_eq_true hlt)
    rw [endMin_natural, if_pos hle]
    exact .done

theorem Inv.minNext (hsite : Site cfg l s.sight m a' z idx (.minNext x curr))
    (hduty : ∀ u y, s.sight.Has u y →
      Duty cfg s.sight m a' idx y (s.sight.task u).phase (.minNext x curr)) :
    Sound cfg l s.sight m z idx (s.reclaimStep .natural cfg z (.minNext x curr)).2 := by
  obtain ⟨hs, hlt, hidx, hloop⟩ := hsite
  obtain ⟨tl, htl, hloads⟩ := h.ring.loads hloop
  refine ⟨trivial, { a' with rest := tl }, ⟨hs, hlt, hidx, hloads⟩, fun u y hy => ?_⟩
  have hold := hduty u y hy
  rw [Duty, htl, List.mem_cons, or_assoc] at hold
  exact hold

include ht

theorem Inv.minOwned (hsite : Site cfg l s.sight m a' z idx (.minOwned x curr n))
    (hduty : ∀ u y, s.sight.Has u y →
      Duty cfg s.sight m a' idx y (s.sight.task u).phase (.minOwned x curr n)) :
    Sound cfg l s.sight m z idx (s.reclaimStep .natural cfg z (.minOwned x curr n)).2 := by
  obtain ⟨hs, hlt, hidx, hloads⟩ := hsite
  rw [State.reclaimStep]
  dsimp only
  split_ifs with howned
  · exact ⟨trivial, a', ⟨hs, hlt, hidx, hloads⟩, hduty⟩
  · have hown : s.sight.Has t z := Ring.has_of_doing h.ring (by rw [ht]; rfl)
    refine h.afterMin ht hs (hidx.resolve_left fun heq => ?_) hloads fun u y hy => ?_
    · exact howned (heq ▸ Ring.owned_of_has h.ring hown)
    · refine (hduty u y hy).resolve_left fun heq => ?_
      exact howned (heq ▸ Ring.owned_of_has h.ring hy)

/-- The `active_offset` of a hazard pointer that a token has counts. -/
theorem Inv.minActive (hscope : s.writeOffset ≤ cfg.inactive)
    (hsite : Site cfg l s.sight m a' z idx (.minActive x curr n))
    (hduty : ∀ u y, s.sight.Has u y →
      Duty cfg s.sight m a' idx y (s.sight.task u).phase (.minActive x curr n)) :
    Sound cfg l s.sight m z idx (s.reclaimStep .natural cfg z (.minActive x curr n)).2 := by
  obtain ⟨hs, hlt, hidx, hloads⟩ := hsite
  have hmin : min x.protect (s.hazard curr).activeOffset ≤ x.protect := Nat.min_le_left ..
  rw [State.reclaimStep]
  dsimp only
  rw [keepMin_natural]
  refine h.afterMin ht (h.keepMin hscope hs) ?_ hloads fun u y hy => ?_
  · rcases hidx with rfl | hidx
    · exact (Nat.min_le_right ..).trans (h.own (h.run_eq ht)).1
    · exact hmin.trans hidx
  · rcases hduty u y hy with rfl | hmem | hpassed
    · exact .inr (h.passed hy ((Nat.min_le_left ..).trans (Nat.min_le_right ..)))
    · exact .inl hmem
    · exact .inr (hpassed.mono (min_le_min_right idx hmin))

end

end Sight

end CoroUtil.Channel
