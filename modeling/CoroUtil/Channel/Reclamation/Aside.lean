import CoroUtil.Channel.Reclamation.Inv

/-!
# What the tokens do beside the reclaim

`Frame` is what a step of a token leaves to the others: the list grows at its end, the
offsets and `haz_ptr_counter` grow, and at most one hazard pointer is put into the cycle.
`Inv.aside` says that the others, and the reclaim, go on from where they are; what the
reclaim has done about a hazard pointer is not undone by the moves of its operation
(`Moves`).
-/

namespace CoroUtil.Channel

open CoroUtil.General CoroUtil.Blocks

/-- The hazard pointers are the same but for `owned` and `next`. -/
structure Alike (x y : HazardPtr) : Prop where
  active : y.activeOffset = x.activeOffset
  block : ∀ side, y.block side = x.block side
  write : y.nextProtectWrite = x.nextProtectWrite
  read : y.nextProtectRead = x.nextProtectRead

theorem Alike.refl (x : HazardPtr) : Alike x x := ⟨rfl, fun _ => rfl, rfl, rfl⟩

namespace Sight

variable {cfg : Config} {l l' : List Nat} {S S' : Sight} {m m' : Map} {a a' : Plan}
  {f k b z y curr n idx new : Nat} {side : Side} {p p' : Phase} {q : Acquire} {r : TryReclaim}
  {x : Scan} {t u : Tid} {w : Option Nat}

theorem nextProtect_alike {x y : HazardPtr} (h : Alike x y) :
    y.nextProtect side = x.nextProtect side := by
  cases side with
  | write => exact h.write
  | read => exact h.read

/-! ## Who has a hazard pointer -/

theorem role_of_task {k : Task} (h : S.task t = k) : (S.view t).role = k.role :=
  congrArg Task.role h

theorem Ring.node_of_task {k : Task} (h : S.Ring l) (ht : S.task t = k)
    (hz : k.role.node = some z) :
    (S.view t).node = some z :=
  (h.fits t).node_of_role (by rw [role_of_task ht, hz])

theorem Ring.node_of_has (h : S.Ring l) (hz : S.Has t z) : (S.view t).node = some z := by
  rcases hz with ⟨hz, -⟩ | ht
  · exact View.node_of_haz hz
  · exact h.node_of_task ht rfl

theorem node_of_doing {k : Task} (hk : k.doing = some (z, p)) : k.role.node = some z := by
  cases k with
  | uses | locks | reclaims =>
    cases hk
    rfl
  | rest | acquires | waits | closes | marks | walks | frees => cases hk

theorem Ring.node_of_doing (h : S.Ring l) (ht : (S.task t).doing = some (z, p)) :
    (S.view t).node = some z :=
  h.node_of_task rfl (Sight.node_of_doing ht)

/-- The hazard pointer of a token is in the cycle. -/
theorem Ring.mem_of_has (h : S.Ring l) (hz : S.Has t z) : z ∈ l := by
  have hnode := Ring.node_of_has h hz
  refine (h.mem z).mpr ⟨h.lt t z hnode, fun u hu => ?_⟩
  have hut := h.leases.inj u t z ((h.fits u).node_of_unlinked hu) hnode
  subst hut
  rcases hz with ⟨hz, hkeeps⟩ | ht
  · have hfits := h.fits u
    cases hrole : (S.view u).role with
    | acquire q =>
      rw [View.Fits, hrole] at hfits
      exact Option.some_ne_none z (hz.symm.trans hfits.2)
    | idle | uses | close | free =>
      rw [hrole] at hu
      cases hu
  · rw [role_of_task ht] at hu
    cases hu

/-- The operation of a token that has a hazard pointer uses it. -/
theorem Ring.doing_of_has (h : S.Ring l) (hz : S.Has t z) (ht : (S.task t).doing = some (y, p)) :
    y = z :=
  Option.some.inj ((Ring.node_of_doing h ht).symm.trans (Ring.node_of_has h hz))

theorem run_eq_some (h : S.run = some (z, idx, r)) :
    ∃ t b, S.blocksLock = some t ∧ S.task t = .reclaims z idx b r := by
  rw [run] at h
  cases hlock : S.blocksLock with
  | none =>
    rw [hlock] at h
    cases h
  | some t =>
    rw [hlock] at h
    have h : (S.task t).run = some (z, idx, r) := h
    cases ht : S.task t with
    | reclaims z' idx' b r' =>
      rw [ht] at h
      cases h
      exact ⟨t, b, rfl, ht⟩
    | _ =>
      rw [ht] at h
      cases h

/-- The operation that the reclaim belongs to. -/
theorem Inv.own (h : Inv cfg l S m a) (hrun : S.run = some (z, idx, r)) :
    (S.hazard z).activeOffset ≤ idx ∧ idx ≤ S.readOffset := by
  obtain ⟨t, b, -, ht⟩ := run_eq_some hrun
  have hholds := h.holds t z (.has .read idx idx (idx + 1) b) (by rw [ht]; rfl)
  obtain ⟨hact, -, hoff⟩ := hholds.idx idx rfl
  exact ⟨hact, hoff .read rfl⟩

/-- A hazard pointer that a token has is used by an operation, or by none. -/
theorem Inv.phase_holds (h : Inv cfg l S m a) (hz : S.Has t z) :
    Holds cfg S m z (S.task t).phase := by
  cases hd : (S.task t).doing with
  | none =>
    rw [Task.phase, hd]
    exact ⟨fun _ hi => (by cases hi), fun hf => Bool.noConfusion hf, fun hf => Bool.noConfusion hf,
      trivial⟩
  | some x =>
    obtain ⟨y, p⟩ := x
    have hholds := h.holds t y p hd
    rw [Ring.doing_of_has h.ring hz hd] at hholds
    rw [Task.phase, hd]
    exact hholds

/-! ## The frame -/

/-- The positions keep their blocks, and the offsets grow. -/
structure Stays (S S' : Sight) (m m' : Map) : Prop where
  ext : m.chain.Extends m'.chain
  fresh : S.heap.fresh ≤ S'.heap.fresh
  off : ∀ side, S.off side ≤ S'.off side
  lo : m'.lo = m.lo
  reclaimed : S'.reclaimCounter = S.reclaimCounter

/-- What a step leaves to the tokens and the hazard pointers that it is not about. -/
structure Frame (cfg : Config) (l l' : List Nat) (S S' : Sight) (m m' : Map) : Prop where
  beside : Reclaim.Beside cfg.toLayout m.chain S.heap m.lo m'.chain S'.heap
  mem : ∀ b < S'.heap.fresh, b < S.heap.fresh ∨ Reclaim.Points m'.chain b
  off : ∀ side, S.off side ≤ S'.off side
  acquired : S.hazPtrCounter ≤ S'.hazPtrCounter
  links : Links S.next S'.next l l'
  lo : m'.lo = m.lo
  headBlock : S'.headBlock = S.headBlock
  headOffset : S'.headOffset = S.headOffset
  tailBlock : S'.tailBlock = S.tailBlock
  reclaimed : S'.reclaimCounter = S.reclaimCounter
  committed : S'.committed = S.committed

theorem Frame.stays (hf : Frame cfg l l' S S' m m') : Stays S S' m m' :=
  ⟨hf.beside.ext, hf.beside.fresh, hf.off, hf.lo, hf.reclaimed⟩

/-- A hazard pointer is as it was. -/
structure Apart (S S' : Sight) (m m' : Map) (z : Nat) : Prop where
  alike : Alike (S.hazard z) (S'.hazard z)
  pos : m'.pos z = m.pos z
  low : m'.low z = m.low z

section Stays

variable (hf : Stays S S' m m')
include hf

theorem At.frame (h : m.At k b) : m'.At k b :=
  ⟨h.1.trans hf.ext.last, (hf.ext.block k h.1).trans h.2⟩

theorem HeadAt.frame (h : HeadAt cfg S m f b) : HeadAt cfg S' m' f b := by
  obtain ⟨k, hk, hat, hoff⟩ := h
  exact ⟨k, hk, At.frame hf hat, fun side => (hoff side).trans (hf.off side)⟩

theorem Seat.frame (h : Seat cfg S m f z side) (hz : Apart S S' m m' z) :
    Seat cfg S' m' f z side where
  block := by
    rw [hz.alike.block, hz.pos, hf.ext.block _ h.last]
    exact h.block
  le := by
    rw [hz.pos]
    exact h.le
  last := by
    rw [hz.pos]
    exact h.last.trans hf.ext.last
  off := by
    rw [hz.pos]
    exact h.off.trans (hf.off side)
  protect := by
    rw [hz.pos, nextProtect_alike hz.alike]
    exact h.protect

theorem Knows.frame (h : Knows cfg S m z p) (hz : Apart S S' m m' z) : Knows cfg S' m' z p := by
  have hact : (S'.hazard z).activeOffset = (S.hazard z).activeOffset := hz.alike.active
  have hat : ∀ {k b}, m.At k b → m'.At k b := fun h => At.frame hf h
  have hlast := hf.ext.last
  cases p with
  | out => trivial
  | guards side act =>
    rw [Knows, hact, nextProtect_alike hz.alike]
    exact h
  | ticket side act idx =>
    rw [Knows, hact]
    exact h
  | loaded side act idx b =>
    rw [Knows, hact, hz.low]
    exact ⟨h.1, hat h.2⟩
  | seeks side act idx boff f =>
    rw [Knows, hact, hz.low]
    exact ⟨h.1, h.2.1, h.2.2.mono hf.ext le_rfl⟩
  | ends idx last boff b f =>
    rw [Knows, hz.low]
    exact ⟨h.1, h.2.1, h.2.2.1.trans (hf.off .write), hat h.2.2.2.1,
      h.2.2.2.2.mono hf.ext le_rfl⟩
  | swaps idx last b target =>
    rw [Knows, hz.pos]
    exact ⟨h.1, h.2.1, hat h.2.2.1, hat h.2.2.2⟩
  | has side idx n stop b => exact ⟨h.1, h.2.1, h.2.2.1.trans hlast, hat h.2.2.2⟩
  | crosses idx n stop b =>
    exact ⟨h.1, h.2.1, h.2.2.1.trans hlast, h.2.2.2.1, hat h.2.2.2.2⟩

theorem Holds.frame (h : Holds cfg S m z p) (hz : Apart S S' m m' z) : Holds cfg S' m' z p where
  idx i hi := by
    rw [hz.alike.active, hf.lo]
    obtain ⟨hact, hlo, hoff⟩ := h.idx i hi
    exact ⟨hact, hlo, fun side hs => (hoff side hs).trans (hf.off side)⟩
  aims ha side hs := by
    rw [hz.alike.active, nextProtect_alike hz.alike, hz.pos]
    exact h.aims ha side hs
  looks hl := by
    rw [hz.alike.active, hz.low, hf.lo]
    exact h.looks hl
  knows := Knows.frame hf h.knows hz

theorem Calling.frame (h : Calling cfg S m f q) (hz : ∀ p, q.node = some p → Apart S S' m m' p) :
    Calling cfg S' m' f q where
  rc n hn := by
    rw [hf.reclaimed]
    exact h.rc n hn
  head b hb := (h.head b hb).trans_le hf.fresh
  stores := by
    have low : ∀ {p}, Low cfg S m p → q.node = some p → Low cfg S' m' p := by
      intro p hl hp side
      rw [nextProtect_alike (hz p hp).alike, hf.lo]
      exact hl side
    have hs := h.stores
    cases q with
    | headBlock rc p off | initActive rc p off head =>
      rw [Stores, hf.lo]
      exact hs
    | initRead rc p head | initWrite rc p head | count rc p | check rc p => exact low hs rfl
    | loadCount | next | owned | take | append | headOffset => trivial
  safe heq := by
    rw [hf.reclaimed] at heq
    have hs := h.safe heq
    cases q with
    | initActive rc p off head => exact HeadAt.frame hf hs
    | initRead rc p head => exact HeadAt.frame hf hs
    | initWrite rc p head => exact ⟨HeadAt.frame hf hs.1, hs.2.frame hf (hz p rfl)⟩
    | count rc p | check rc p => exact fun side => (hs side).frame hf (hz p rfl)
    | loadCount | next | owned | take | append | headOffset | headBlock => trivial

theorem Walks.frame {k : Task} (h : Walks cfg m k) : Walks cfg m' k := by
  cases k with
  | marks idx =>
    rw [Walks, hf.lo]
    exact h
  | walks idx f =>
    rw [Walks, hf.lo]
    exact ⟨h.1, h.2.mono hf.ext le_rfl⟩
  | rest | acquires | uses | locks | reclaims | waits | closes | frees => trivial

end Stays

section Frame

variable (hf : Frame cfg l l' S S' m m')
include hf

theorem Heaps.frame {un : List Nat} (h : Heaps cfg S m un) : Heaps cfg S' m' un where
  ok := hf.beside.ok
  mem b hb := by
    rcases hf.mem b hb with hb | hb
    · exact (h.mem b hb).imp_right (·.beside hf.beside)
    · exact .inr hb
  lo := by
    rw [hf.lo]
    exact ⟨hf.beside.first ▸ h.lo.1, h.lo.2.trans hf.beside.ext.last⟩
  off side := by
    rw [hf.lo]
    exact (h.off side).trans (hf.off side)
  committed := by
    rw [hf.committed, h.committed, hf.lo, hf.beside.ext.block _ h.lo.2]

/-! ## The reclaim goes on from where it is -/

theorem Scans.frame (h : Scans cfg S m x) (hlo : m.lo ≤ m.chain.last) : Scans cfg S' m' x where
  old := by
    rw [hf.lo, hf.beside.ext.block _ hlo]
    exact h.old
  oldOff := by
    rw [hf.lo]
    exact h.oldOff
  count := h.count.trans hf.acquired
  dvd := h.dvd
  le := h.le.trans (hf.off .write)

theorem New.frame (h : New cfg S m a new) (ha : a'.new = a.new) : New cfg S' m' a' new where
  le := by
    rw [hf.lo, ha]
    exact h.le
  at_ := by
    rw [ha]
    exact At.frame hf.stays h.at_
  off side := by
    rw [ha]
    exact (h.off side).trans (hf.off side)

theorem Quiet.frame (h : Quiet cfg S m) : Quiet cfg S' m' where
  first := by
    rw [hf.lo, hf.beside.first]
    exact h.first
  off := by
    rw [hf.lo, hf.headOffset]
    exact h.off
  tail := by
    rw [hf.tailBlock]
    exact h.tail.beside hf.beside

theorem Stage.frame (h : Stage cfg S m a r) (hlo : m.lo ≤ m.chain.last)
    (hsite : Site cfg l S m a z idx r) (ha : a'.new = a.new) : Stage cfg S' m' a' r := by
  have hhead : S.headBlock = m.chain.block m.lo → S'.headBlock = m'.chain.block m'.lo := by
    intro hb
    rw [hf.headBlock, hf.lo, hf.beside.ext.block _ hlo]
    exact hb
  cases r with
  | count x new | check x new =>
    refine ⟨Quiet.frame hf h.1, ?_⟩
    rw [hf.headBlock, ha, hf.beside.ext.block _ hsite.2.at_.1]
    exact h.2
  | rollback => exact Quiet.frame hf h
  | newOffset | storeOffset => exact hhead h
  | move r =>
    refine ⟨hhead h.1, ?_⟩
    rw [hf.headOffset, hf.lo]
    exact h.2
  | loadHead | loadCount | oldOffset | minNext | minOwned | minActive | walk | walkNext | advNext
  | advOwned | advBlock | advOffset | advNewOffset | advCas | advFailed | advActive | reduce
  | assertRead | assertWrite | storeHead | done => exact ⟨Quiet.frame hf h.1, hhead h.2⟩

/-- The loops go on over the longer cycle. -/
theorem Loads.frame (h : Loads l S a z curr n) (hcycle : Cycle S.next hazardPtrList l)
    (hz : z ∈ l) :
    ∃ rest, (∀ y ∈ a.rest, y ∈ rest) ∧ Loads l' S' { a with rest } z curr n := by
  obtain ⟨rest, hpath, hsub, hout⟩ := hf.links.path hcycle hz h.next h.path
  exact ⟨rest, hsub, hf.links.mem curr h.mem, hf.links.mem n h.next, hpath,
    fun hmem => h.rest (hout hmem)⟩

theorem Loop.frame (h : Loop l S a z curr) (hcycle : Cycle S.next hazardPtrList l) (hz : z ∈ l) :
    ∃ rest, (∀ y ∈ a.rest, y ∈ rest) ∧ Loop l' S' { a with rest } z curr := by
  obtain ⟨tl, htl, hout⟩ := h.rest
  have hpath := h.path
  rw [htl] at hpath
  obtain ⟨tl', hpath', hsub, hout'⟩ := hf.links.turn hcycle hz h.mem hpath.2 hout
  refine ⟨curr :: tl', fun y hy => ?_, hf.links.mem curr h.mem, ⟨rfl, hpath'⟩, tl', rfl, hout'⟩
  rw [htl] at hy
  rcases List.mem_cons.mp hy with rfl | hy
  · exact List.mem_cons_self
  · exact List.mem_cons_of_mem _ (hsub y hy)

theorem Site.frame (h : Site cfg l S m a z idx r) (ok : m.chain.Ok cfg.toLayout S.heap)
    (hlo : m.lo ≤ m.chain.last) (hcycle : Cycle S.next hazardPtrList l) (hz : z ∈ l) :
    ∃ rest, (∀ y ∈ a.rest, y ∈ rest) ∧ Site cfg l' S' m' { a with rest } z idx r := by
  have loads : ∀ {curr n} {P : List Nat → Prop}, Loads l S a z curr n →
      (∀ rest, Loads l' S' { a with rest } z curr n → P rest) →
      ∃ rest, (∀ y ∈ a.rest, y ∈ rest) ∧ P rest := fun hl hP =>
    (Loads.frame hf hl hcycle hz).imp fun rest hrest => ⟨hrest.1, hP rest hrest.2⟩
  have loops : ∀ {curr} {P : List Nat → Prop}, Loop l S a z curr →
      (∀ rest, Loop l' S' { a with rest } z curr → P rest) →
      ∃ rest, (∀ y ∈ a.rest, y ∈ rest) ∧ P rest := fun hl hP =>
    (Loop.frame hf hl hcycle hz).imp fun rest hrest => ⟨hrest.1, hP rest hrest.2⟩
  have same : ∀ {P : List Nat → Prop}, P a.rest → ∃ rest, (∀ y ∈ a.rest, y ∈ rest) ∧ P rest :=
    fun hP => ⟨_, fun _ hy => hy, hP⟩
  have scans : ∀ {x}, Scans cfg S m x → Scans cfg S' m' x := fun h => Scans.frame hf h hlo
  have news : ∀ {rest new}, New cfg S m a new → New cfg S' m' { a with rest } new := fun h =>
    New.frame hf h rfl
  have advances : ∀ {rest x new}, Advances cfg S m a x new →
      Advances cfg S' m' { a with rest } x new := fun h => ⟨scans h.scans, news h.new, h.le⟩
  have reach : ∀ {p}, Reach cfg S m p → Reach cfg S' m' p := fun h =>
    ⟨h.last.trans (Nat.mul_le_mul_right _ hf.beside.ext.last),
      fun side => (h.off side).trans (hf.off side)⟩
  have write : ∀ {p}, p ≤ S.writeOffset → p ≤ S'.writeOffset := fun h => h.trans (hf.off .write)
  have head : ∀ {b}, b = m.chain.block m.lo → b = m'.chain.block m'.lo := by
    intro b hb
    rw [hf.lo, hf.beside.ext.block _ hlo]
    exact hb
  have fresh : ∀ {b}, b < S.heap.fresh → b < S'.heap.fresh := fun h => h.trans_le hf.beside.fresh
  have offset : ∀ {b}, b < S.heap.fresh → S'.offset b = S.offset b := fun h => hf.beside.offset _ h
  cases r with
  | done => exact same trivial
  | loadHead protect => exact same (write h)
  | loadCount protect old => exact same ⟨write h.1, head h.2⟩
  | oldOffset protect old count =>
    exact same ⟨write h.1, h.2.1, head h.2.2.1, h.2.2.2.trans hf.acquired⟩
  | minNext x curr =>
    refine loops h.2.2.2 fun _ hl => ⟨scans h.1, ?_, h.2.2.1, hl⟩
    rw [hf.lo]
    exact h.2.1
  | minOwned x curr n | minActive x curr n =>
    refine loads h.2.2.2 fun _ hl => ⟨scans h.1, ?_, h.2.2.1, hl⟩
    rw [hf.lo]
    exact h.2.1
  | walk x new again =>
    refine same ⟨scans h.1, news h.2.1, reach h.2.2.1, ?_, ?_⟩
    · rw [hf.lo]
      exact h.2.2.2.1
    · rw [hf.lo]
      exact h.2.2.2.2
  | walkNext x new again =>
    refine same ⟨scans h.1, news h.2.1, reach h.2.2.1, h.2.2.2.1, ?_⟩
    rw [hf.lo]
    exact h.2.2.2.2
  | advNext x new curr => exact loops h.2 fun _ hl => ⟨advances h.1, hl⟩
  | advOwned x new curr n | advBlock x new curr n side | advActive x new curr n side =>
    exact loads h.2 fun _ hl => ⟨advances h.1, hl⟩
  | advOffset x new curr n side b | advFailed x new curr n side b =>
    exact loads h.2.1 fun _ hl => ⟨advances h.1, hl, fresh h.2.2⟩
  | advNewOffset x new curr n side b boff =>
    exact loads h.2.1 fun _ hl =>
      ⟨advances h.1, hl, fresh h.2.2.1, h.2.2.2.trans (offset h.2.2.1).symm⟩
  | advCas x new curr n side b =>
    refine loads h.2.1 fun _ hl => ⟨advances h.1, hl, fresh h.2.2.1, ?_⟩
    rw [offset h.2.2.1]
    exact h.2.2.2
  | reduce x new => exact same ⟨scans h.1, news h.2.1, h.2.2⟩
  | assertRead x new | assertWrite x new | storeHead x new | count x new | check x new =>
    exact same ⟨scans h.1, news h.2⟩
  | rollback x => exact same (head h)
  | newOffset x new =>
    refine same ⟨head h.1, ?_⟩
    rw [hf.tailBlock, hf.lo]
    exact h.2.frame hf.beside ok
  | storeOffset x new off =>
    refine same ⟨head h.1, ?_, ?_⟩
    · rw [hf.lo]
      exact h.2.1
    · rw [hf.tailBlock, hf.lo]
      exact h.2.2.frame hf.beside ok
  | move r =>
    refine same ?_
    change r.Ok cfg.toLayout m'.chain S'.heap m'.lo S'.tailBlock
    rw [hf.tailBlock, hf.lo]
    exact Reclaim.Ok.frame hf.beside ok h

end Frame

/-! ## What the reclaim has done is not undone -/

/-- What an operation may do to what the reclaim has done: a new index is at or after one of
the offsets, the pointers move on, and it starts from what a pointer has. -/
structure Moves (S : Sight) (m : Map) (z : Nat) (p : Phase) (m' : Map) (p' : Phase) : Prop where
  idx : ∀ i, p'.idx = some i → p.idx = some i ∨ ∃ side, S.off side ≤ i
  pos : ∀ side, m.pos z side ≤ m'.pos z side
  looks : ∀ side, p'.Looks side → m'.pos z side ≤ m'.low z ∨
    p.Looks side ∧ m'.low z = m.low z ∧ m'.pos z side = m.pos z side

theorem Moves.refl : Moves S m z p m p :=
  ⟨fun _ hi => .inl hi, fun _ => le_rfl, fun _ hl => .inr ⟨hl, rfl, rfl⟩⟩

namespace Moves

variable (hm : Moves S m z p m' p') {o : Nat}
include hm

theorem clear (h : p.Clear o) (ho : ∀ side, o ≤ S.off side) : p'.Clear o := by
  intro i hi
  rcases hm.idx i hi with hi | ⟨side, hi⟩
  · exact h i hi
  · exact (ho side).trans hi

theorem follows (h : Follows cfg m z p o side) : Follows cfg m' z p' o side := by
  intro hl
  rcases hm.looks side hl with hle | ⟨hl, hlow, hpos⟩
  · exact .inr hle
  · rw [hlow, hpos]
    exact h hl

theorem done (h : Done cfg m z p o side) : Done cfg m' z p' o side := by
  have hpos : o ≤ m'.pos z side * cfg.blockSize :=
    h.1.trans (Nat.mul_le_mul_right _ (hm.pos side))
  refine ⟨hpos, fun hl => ?_⟩
  rcases hm.looks side hl with hle | ⟨hl, hlow, -⟩
  · exact hpos.trans (Nat.mul_le_mul_right _ hle)
  · rw [hlow]
    exact h.2 hl

theorem passed (h : Passed cfg m z p o) (ho : ∀ side, o ≤ S.off side) : Passed cfg m' z p' o :=
  ⟨hm.clear h.1 ho, fun side => hm.follows (h.2 side)⟩

theorem todo {now now' : Side → Prop} (h : Todo cfg S m a z p now x)
    (ho : ∀ side, a.new * cfg.blockSize ≤ S.off side) (hnew : a'.new = a.new)
    (hrest : ∀ y ∈ a.rest, y ∈ a'.rest) (hnow : ∀ side, now side → now' side)
    (hcount : x.count = S'.hazPtrCounter → x.count = S.hazPtrCounter) :
    Todo cfg S' m' a' z p' now' x := by
  rw [Todo, hnew]
  refine ⟨hm.clear h.1 ho, fun side => ?_⟩
  rcases h.2 side with ⟨hleft, hf⟩ | hdone
  · exact .inl ⟨hleft.imp (hrest z) (hnow side), hm.follows hf⟩
  · exact .inr fun hc => hm.done (hdone (hcount hc))

end Moves

/-- What has been done about a hazard pointer stays done. -/
theorem Duty.moves (h : Duty cfg S m a idx z p r) (hm : Moves S m z p m' p')
    (hsite : Site cfg l S m a y idx r) (hidx : idx ≤ S.readOffset) (hlo : m'.lo = m.lo)
    (hat : ∀ k b, m.At k b → m'.At k b) (hacq : S.hazPtrCounter ≤ S'.hazPtrCounter)
    (hnew : a'.new = a.new) (hrest : ∀ y ∈ a.rest, y ∈ a'.rest) :
    Duty cfg S' m' a' idx z p' r := by
  have count : ∀ {x : Scan}, Scans cfg S m x → x.count = S'.hazPtrCounter →
      x.count = S.hazPtrCounter := fun hs hc => Nat.le_antisymm hs.count (hacq.trans hc.symm.le)
  have below : ∀ {x : Scan}, Scans cfg S m x → ∀ side, min x.protect idx ≤ S.off side := by
    intro x hs side
    cases side with
    | write => exact (Nat.min_le_left ..).trans hs.le
    | read => exact (Nat.min_le_right ..).trans hidx
  have dones : ∀ {o}, (∀ side, Done cfg m z p o side) → ∀ side, Done cfg m' z p' o side :=
    fun hd side => hm.done (hd side)
  cases r with
  | minNext x curr => exact h.imp (hrest z) fun hp => hm.passed hp (below hsite.1)
  | minOwned x curr n | minActive x curr n =>
    exact h.imp_right (Or.imp (hrest z) fun hp => hm.passed hp (below hsite.1))
  | walk x new again | walkNext x new again =>
    have ho := hsite.2.2.1.off
    cases again with
    | false => exact hm.passed h ho
    | true =>
      rw [Duty, hlo]
      exact ⟨hm.clear h.1 ho, fun hc => (h.2 (count hsite.1 hc)).imp_right dones⟩
  | advNext x new curr =>
    exact hm.todo h hsite.1.new.off hnew hrest (fun _ hf => hf) (count hsite.1.scans)
  | advOwned x new curr n =>
    exact hm.todo h hsite.1.new.off hnew hrest (fun _ hc => hc) (count hsite.1.scans)
  | advBlock x new curr n side =>
    exact hm.todo h hsite.1.new.off hnew hrest (fun _ hc => hc) (count hsite.1.scans)
  | advOffset x new curr n now b | advNewOffset x new curr n now b | advCas x new curr n now b
  | advFailed x new curr n now b =>
    refine hm.todo h hsite.1.new.off hnew hrest (fun side => ?_) (count hsite.1.scans)
    rintro ⟨hcurr, hahead, hpos⟩
    refine ⟨hcurr, hahead, fun hside hc => ?_⟩
    obtain ⟨k, hlo', hk, hb⟩ := hpos hside (count hsite.1.scans hc)
    exact ⟨k, hlo.le.trans hlo', hk.trans (hm.pos side), hat k b hb⟩
  | advActive x new curr n now =>
    rw [Duty, hnew]
    refine ⟨hm.clear h.1 hsite.1.new.off, fun side => ?_⟩
    rcases h.2 side with ⟨hleft, hf⟩ | ⟨hcurr, hside, hle⟩ | hdone
    · exact .inl ⟨hleft.imp_left (hrest z), hm.follows hf⟩
    · exact .inr (.inl ⟨hcurr, hside, fun hc => (hle (count hsite.1.scans hc)).trans
        (Nat.mul_le_mul_right _ (hm.pos side))⟩)
    · exact .inr (.inr fun hc => hm.done (hdone (count hsite.1.scans hc)))
  | reduce x new =>
    have ho : ∀ side, x.protect ≤ S.off side := fun side =>
      hsite.2.2.trans (hsite.2.1.off side)
    rw [Duty, hlo]
    exact ⟨hm.clear h.1 ho, fun hc => (h.2 (count hsite.1 hc)).imp_right dones⟩
  | assertRead x new | assertWrite x new | storeHead x new | count x new | check x new =>
    rw [Duty, hnew]
    exact ⟨hm.clear h.1 hsite.2.off, fun hc => dones (h.2 (count hsite.1 hc))⟩
  | loadHead | loadCount | oldOffset | rollback | newOffset | storeOffset | move | done => trivial

/-- What `haz_ptr_counter` has been incremented for since it was loaded owes nothing. -/
theorem Duty.of_out (hsite : Site cfg l S m a y idx r) (hlt : S.hazPtrCounter < S'.hazPtrCounter) :
    Duty cfg S' m' a' idx z .out r := by
  have clear : ∀ {o}, Phase.out.Clear o := fun i hi => by cases hi
  have follows : ∀ {o side}, Follows cfg m' z .out o side := fun hl => Bool.noConfusion hl.1
  have passed : ∀ {o}, Passed cfg m' z .out o := ⟨clear, fun _ => follows⟩
  have count : ∀ {x : Scan} {P : Prop}, Scans cfg S m x → x.count = S'.hazPtrCounter → P := by
    intro x P hs hc
    have hle := hs.count
    omega
  have todo : ∀ {x now}, Scans cfg S m x → Todo cfg S' m' a' z .out now x := fun hs =>
    ⟨clear, fun _ => .inr (count hs)⟩
  cases r with
  | minNext x curr => exact .inr passed
  | minOwned x curr n | minActive x curr n => exact .inr (.inr passed)
  | walk x new again | walkNext x new again =>
    cases again with
    | false => exact passed
    | true => exact ⟨clear, count hsite.1⟩
  | advNext x new curr | advOwned x new curr n | advBlock x new curr n side
  | advOffset x new curr n side b | advNewOffset x new curr n side b | advCas x new curr n side b
  | advFailed x new curr n side b => exact todo hsite.1.scans
  | advActive x new curr n side => exact ⟨clear, fun _ => .inr (.inr (count hsite.1.scans))⟩
  | reduce x new | assertRead x new | assertWrite x new | storeHead x new | count x new
  | check x new => exact ⟨clear, count hsite.1⟩
  | loadHead | loadCount | oldOffset | rollback | newOffset | storeOffset | move | done => trivial

/-! ## The frame rule -/

/-- **What a token does.**  The tokens of `T` take a step, and write to no hazard pointer
of another token. -/
theorem Inv.aside (h : Inv cfg l S m a) {T : Tid → Prop} (hf : Frame cfg l l' S S' m m')
    (hring : S'.Ring l') (hrun : S'.run = S.run)
    (hlock : ∀ t, (S'.task t).locked = true ↔ S'.blocksLock = some t) (hnodes : Nodes cfg S')
    (htask : ∀ u, ¬ T u → S'.task u = S.task u ∧ S'.haz u = S.haz u)
    (hapart : ∀ z, w ≠ some z → Apart S S' m m' z)
    (hown : ∀ u z, ¬ T u → (S.view u).node = some z → w ≠ some z)
    (hseats : ∀ t, T t → ∀ z, S'.Has t z → ∀ side, Seat cfg S' m' m.lo z side)
    (htop : ∀ t, T t → ∀ z p top, S'.task t = .uses z p top → top ≤ S'.writeOffset)
    (hholds : ∀ t, T t → ∀ z p, (S'.task t).doing = some (z, p) → Holds cfg S' m' z p)
    (hcalling : ∀ t, T t → ∀ q, S'.task t = .acquires q →
      Calling cfg S' m' (floor m.lo a.new S.run) q)
    (hwalks : ∀ t, T t → Walks cfg m' (S'.task t))
    (hduty : ∀ t, T t → ∀ z, S'.Has t z →
      ((S'.task t).phase = .out ∧ S.hazPtrCounter < S'.hazPtrCounter) ∨
        ∃ u, S.Has u z ∧ Moves S m z (S.task u).phase m' (S'.task t).phase) :
    ∃ rest, Inv cfg l' S' m' { a with rest } := by
  have hlo := h.heaps.lo.2
  -- the other tokens
  have hhas : ∀ u z, ¬ T u → S'.Has u z → S.Has u z ∧ Apart S S' m m' z := by
    intro u z hu hz
    obtain ⟨ht, hhaz⟩ := htask u hu
    have hold : S.Has u z := by
      rw [Has, ht, hhaz, hf.reclaimed] at hz
      exact hz
    exact ⟨hold, hapart z (hown u z hu (Ring.node_of_has h.ring hold))⟩
  obtain ⟨rest, hruns⟩ : ∃ rest, Runs cfg l' S' m' { a with rest } S'.run := by
    have hold := h.runs
    rw [hrun]
    cases hcase : S.run with
    | none =>
      rw [hcase] at hold
      refine ⟨a.rest, hold.1.frame hf, ?_⟩
      rw [hf.headBlock, hf.lo, hf.beside.ext.block _ hlo]
      exact hold.2
    | some v =>
      obtain ⟨z, idx, r⟩ := v
      rw [hcase] at hold
      obtain ⟨hz, hstage, hsite, hduties⟩ := hold
      obtain ⟨rest, hrest, hsite'⟩ := Site.frame hf hsite h.heaps.ok hlo h.ring.cycle hz
      refine ⟨rest, hf.links.mem z hz, hstage.frame hf hlo hsite rfl, hsite', fun t y hy => ?_⟩
      have moves : ∀ u, S.Has u y → Moves S m y (S.task u).phase m' (S'.task t).phase →
          Duty cfg S' m' { a with rest } idx y (S'.task t).phase r := fun u hu hm =>
        Duty.moves (hduties u y hu) hm hsite (h.own hcase).2 hf.lo
          (fun _ _ hb => At.frame hf.stays hb)
          hf.acquired rfl hrest
      by_cases hT : T t
      · rcases hduty t hT y hy with ⟨hout, hlt⟩ | ⟨u, hu, hm⟩
        · rw [hout]
          exact .of_out hsite hlt
        · exact moves u hu hm
      · obtain ⟨hold, hap⟩ := hhas t y hT hy
        refine moves t hold ?_
        rw [(htask t hT).1]
        exact ⟨fun _ hi => .inl hi, fun _ => by rw [hap.pos],
          fun _ hl => .inr ⟨hl, hap.low, by rw [hap.pos]⟩⟩
  refine ⟨rest, hring, ?_, hnodes, hlock, ?_, ?_, fun t z hz side => ?_, fun t z p top ht => ?_,
    fun t z p ht => ?_, fun t q ht => ?_, fun t => ?_, hruns⟩
  · rw [hrun]
    exact h.heaps.frame hf
  · rw [hrun, hf.lo, hf.headBlock]
    exact h.head.frame hf.stays
  · rw [hf.lo, hf.headOffset]
    exact h.off
  · rw [hf.lo]
    by_cases hT : T t
    · exact hseats t hT z hz side
    · obtain ⟨hold, hap⟩ := hhas t z hT hz
      exact (h.seats t z hold side).frame hf.stays hap
  · by_cases hT : T t
    · exact htop t hT z p top ht
    · rw [(htask t hT).1] at ht
      exact (h.top t z p top ht).trans (hf.off .write)
  · by_cases hT : T t
    · exact hholds t hT z p ht
    · rw [(htask t hT).1] at ht
      exact (h.holds t z p ht).frame hf.stays
        (hapart z (hown t z hT (Ring.node_of_doing h.ring ht)))
  · rw [hrun, hf.lo]
    by_cases hT : T t
    · exact hcalling t hT q ht
    · rw [(htask t hT).1] at ht
      refine (h.calling t q ht).frame hf.stays fun p hp => hapart p (hown t p hT ?_)
      exact Ring.node_of_task h.ring ht hp
  · by_cases hT : T t
    · exact hwalks t hT
    · rw [(htask t hT).1]
      exact (h.walks t).frame hf.stays

end Sight

end CoroUtil.Channel
