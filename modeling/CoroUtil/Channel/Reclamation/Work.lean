import Mathlib.Logic.Relation
import CoroUtil.Channel.Reclamation.Sight

/-!
# What the operations do with the blocks

`Work` lists what an operation that has its hazard pointer does, and `Closes` what
`close` does.  A step of an operation on a token is some of it, or the operation starts,
ends, takes `blocks_lock` or is in `try_reclaim_blocks`.
-/

namespace CoroUtil.Channel

open CoroUtil.Blocks

variable {V : Type}

/-- `t` uses `z`. -/
inductive Work (cfg : Config) (t : Tid) (z : Nat) : Sight → Sight → Prop
  /-- It has no block any more. -/
  | drop {S : Sight} {p : Phase} {top : Nat} (h : S.task t = .uses z p top) :
    Work cfg t z S (S.goes t (.uses z .out 0))
  | protect {S : Sight} {top : Nat} (side : Side) (h : S.task t = .uses z .out top) :
    Work cfg t z S ((S.setActive z ((S.hazard z).nextProtect side)).goes t
      (.uses z (.guards side ((S.hazard z).nextProtect side)) 0))
  /-- `post` and `post_bulk` take `n` indices. -/
  | take {S : Sight} {act top : Nat} (n : Nat) (h : S.task t = .uses z (.guards .write act) top) :
    Work cfg t z S ({ S with writeOffset := S.writeOffset + n }.goes t
      (.uses z (.ticket .write act S.writeOffset) (S.writeOffset + (n - 1))))
  | claim {S : Sight} {act top : Nat} (h : S.task t = .uses z (.guards .read act) top) :
    Work cfg t z S ({ S with readOffset := S.readOffset + 1 }.goes t
      (.uses z (.ticket .read act S.readOffset) 0))
  /-- `try_pull` loads `read_offset`. -/
  | observe {S : Sight} {p : Phase} {act top : Nat} (h : S.task t = .uses z p top)
    (hp : p = .guards .read act ∨ ∃ idx, p = .ticket .read act idx) :
    Work cfg t z S (S.goes t (.uses z (.ticket .read act S.readOffset) 0))
  | written {S : Sight} {act idx top : Nat} (h : S.task t = .uses z (.ticket .read act idx) top) :
    Work cfg t z S (S.goes t (.uses z (.ticket .read act idx) S.writeOffset))
  /-- It has looked at the element and goes back. -/
  | back {S : Sight} {act idx top : Nat} {boff : Option Nat} {f : Find}
    (h : S.task t = .uses z (.seeks .read (some act) idx boff f) top) :
    Work cfg t z S (S.goes t (.uses z (.ticket .read act idx) 0))
  | load {S : Sight} {side : Side} {act idx b top : Nat}
    (h : S.task t = .uses z (.ticket side act idx) top) (hb : (S.hazard z).block side = some b) :
    Work cfg t z S (S.goes t (.uses z (.loaded side act idx b) top))
  | offset {S : Sight} {side : Side} {act idx b top : Nat}
    (h : S.task t = .uses z (.loaded side act idx b) top) :
    Work cfg t z S (S.goes t
      (.uses z (.seeks side (some act) idx (some (S.offset b)) (.load b)) top))
  /-- It does not need `actOff` or the offset any more. -/
  | forget {S : Sight} {side : Side} {act act' boff boff' : Option Nat} {idx top : Nat} {f : Find}
    (h : S.task t = .uses z (.seeks side act idx boff f) top) (hact : ∀ a ∈ act', a ∈ act)
    (hboff : ∀ b ∈ boff', b ∈ boff) :
    Work cfg t z S (S.goes t (.uses z (.seeks side act' idx boff' f) top))
  | lower {S : Sight} {p : Phase} {top : Nat} (h : S.task t = .uses z p top) :
    Work cfg t z S (S.goes t (.uses z p 0))
  | find {S : Sight} {side : Side} {act boff : Option Nat} {idx top : Nat} {f : Find}
    (h : S.task t = .uses z (.seeks side act idx boff f) top) :
    Work cfg t z S ({ S with heap := (f.step .natural cfg.toLayout idx S.heap).1 }.goes t
      (.uses z (.seeks side act idx boff (f.step .natural cfg.toLayout idx S.heap).2.2) top))
  /-- The compare-exchange of `try_pull`. -/
  | won {S : Sight} {act boff : Option Nat} {idx top : Nat} {f : Find}
    (h : S.task t = .uses z (.seeks .read act idx boff f) top) (hidx : S.readOffset = idx) :
    Work cfg t z S ({ S with readOffset := idx + 1 }.goes t
      (.uses z (.seeks .read act idx boff f) top))
  /-- The walk to the last block of a bulk starts. -/
  | meets {S : Sight} {act : Option Nat} {idx boff last b top : Nat}
    (h : S.task t = .uses z (.seeks .write act idx (some boff) (.found b)) top) (hidx : idx ≤ last)
    (hlast : last ≤ top) : Work cfg t z S (S.goes t (.uses z (.ends idx last boff b (.load b)) 0))
  | lands {S : Sight} {act : Option Nat} {idx boff b top : Nat}
    (h : S.task t = .uses z (.seeks .write act idx (some boff) (.found b)) top) (hidx : idx ≤ top) :
    Work cfg t z S (S.goes t (.uses z (.ends idx idx boff b (.found b)) 0))
  | findEnd {S : Sight} {idx last boff b top : Nat} {f : Find}
    (h : S.task t = .uses z (.ends idx last boff b f) top) :
    Work cfg t z S ({ S with heap := (f.step .natural cfg.toLayout last S.heap).1 }.goes t
      (.uses z (.ends idx last boff b (f.step .natural cfg.toLayout last S.heap).2.2) 0))
  | ended {S : Sight} {idx last last' boff b top : Nat} {f : Find}
    (h : S.task t = .uses z (.ends idx last boff b f) top) (hlast : idx ≤ last → last' = last) :
    Work cfg t z S (S.goes t (.uses z (.ends idx last' boff b f) 0))
  /-- `post` stores its block and the offset of the one that it started from. -/
  | store {S : Sight} {idx last boff b target stop top : Nat}
    (h : S.task t = .uses z (.ends idx last boff b (.found target)) top) (hidx : idx < stop)
    (hstop : stop ≤ last + 1) :
    Work cfg t z S (((S.setBlock z (some target) .write).setNext z boff .write).goes t
      (.uses z (.has .write idx idx stop b) 0))
  /-- `post_bulk` stores its last block, and then its offset. -/
  | swap {S : Sight} {idx last boff b target top : Nat}
    (h : S.task t = .uses z (.ends idx last boff b (.found target)) top) :
    Work cfg t z S ((S.setBlock z (some target) .write).goes t
      (.uses z (.swaps idx last b target) 0))
  | guard {S : Sight} {idx last b target top : Nat}
    (h : S.task t = .uses z (.swaps idx last b target) top) {p : Phase}
    (hp : p = .out ∨ ∃ stop, p = .has .write idx idx stop b ∧ idx < stop ∧ stop ≤ last + 1) :
    Work cfg t z S ((S.setNext z (S.offset target) .write).goes t (.uses z p 0))
  /-- `pull` and `try_pull` store their block and the offset of the one before. -/
  | hold {S : Sight} {act : Option Nat} {idx boff b top : Nat}
    (h : S.task t = .uses z (.seeks .read act idx (some boff) (.found b)) top) :
    Work cfg t z S (((S.setBlock z (some b) .read).setNext z boff .read).goes t
      (.uses z (.has .read idx idx (idx + 1) b) top))
  | item {S : Sight} {idx n stop b top : Nat}
    (h : S.task t = .uses z (.has .write idx n stop b) top)
    (hstop : n + 1 ≠ stop) (hslot : cfg.slot (n + 1) ≠ 0) :
    Work cfg t z S (S.goes t (.uses z (.has .write idx (n + 1) stop b) 0))
  | cross {S : Sight} {idx n stop b top : Nat}
    (h : S.task t = .uses z (.has .write idx n stop b) top)
    (hslot : cfg.slot (n + 1) = 0) :
    Work cfg t z S (S.goes t (.uses z (.crosses idx (n + 1) stop b) 0))
  | next {S : Sight} {idx n stop b b' top : Nat}
    (h : S.task t = .uses z (.crosses idx n stop b) top)
    (hb : (S.heap.block b).next = some b') (hstop : n ≠ stop) :
    Work cfg t z S (S.goes t (.uses z (.has .write idx n stop b') 0))

/-- Some of it. -/
def Doing (cfg : Config) (t : Tid) (z : Nat) : Sight → Sight → Prop :=
  Relation.ReflTransGen (Work cfg t z)

/-- An operation ends, and makes `active_offset` inactive or not. -/
inductive Leaving (cfg : Config) (t : Tid) (z : Nat) : Sight → Sight → Prop
  | leave {S : Sight} {p : Phase} {top : Nat} (h : S.task t = .uses z p top) (off : Nat) :
    Leaving cfg t z S ((S.setActive z (off + cfg.inactive)).goes t .rest)
  | rest {S : Sight} {p : Phase} {top : Nat} (h : S.task t = .uses z p top) :
    Leaving cfg t z S (S.goes t .rest)

/-- `blocks_lock` is taken for `try_reclaim_blocks`, and given back. -/
inductive Locking (t : Tid) (z : Nat) : Sight → Sight → Prop
  | lock {S : Sight} {idx b top : Nat}
    (h : S.task t = .uses z (.has .read idx idx (idx + 1) b) top) (hfree : S.blocksLock = none) :
    Locking t z S ({ S with blocksLock := some t }.goes t (.locks z idx b))
  | tryLock {S : Sight} {idx b top : Nat}
    (h : S.task t = .uses z (.has .read idx idx (idx + 1) b) top) (hfree : S.blocksLock = none) :
    Locking t z S ({ S with blocksLock := some t }.goes t (.reclaims z idx b (.loadHead top)))
  | protect {S : Sight} {idx b : Nat} (h : S.task t = .locks z idx b) :
    Locking t z S (S.goes t (.reclaims z idx b (.loadHead S.writeOffset)))
  | unlock {S : Sight} {idx b : Nat} (h : S.task t = .locks z idx b) :
    Locking t z S ({ S with blocksLock := none }.goes t
      (.uses z (.has .read idx idx (idx + 1) b) 0))

/-- What `close` does. -/
inductive Closes (cfg : Config) (t : Tid) : Sight → Sight → Prop
  | lock {S : Sight} (h : S.task t = .waits) (hfree : S.blocksLock = none) :
    Closes cfg t S ({ S with blocksLock := some t }.goes t .closes)
  | ticket {S : Sight} (h : S.task t = .closes) :
    Closes cfg t S ({ S with writeOffset := S.writeOffset + 1 }.goes t (.marks S.writeOffset))
  | start {S : Sight} {idx : Nat} (h : S.task t = .marks idx) :
    Closes cfg t S (S.goes t (.walks idx (.load S.headBlock)))
  | find {S : Sight} {idx : Nat} {f : Find} (h : S.task t = .walks idx f) :
    Closes cfg t S ({ S with heap := (f.step .natural cfg.toLayout idx S.heap).1 }.goes t
      (.walks idx (f.step .natural cfg.toLayout idx S.heap).2.2))
  /-- `wake_waiting_consumers` goes on to the next index. -/
  | wake {S : Sight} {idx b : Nat} (h : S.task t = .walks idx (.found b)) :
    Closes cfg t S (S.goes t
      (.walks (idx + 1) (if cfg.slot (idx + 1) = 0 then .load b else .found b)))
  | ends {S : Sight} {idx : Nat} (h : S.task t = .marks idx ∨ ∃ f, S.task t = .walks idx f) :
    Closes cfg t S (S.goes t .closes)
  | unlock {S : Sight} (h : S.task t = .closes) :
    Closes cfg t S ({ S with blocksLock := none }.goes t .rest)

/-- `try_reclaim_blocks` goes on with `r`, or has returned. -/
def Task.reclaiming (z idx b : Nat) : TryReclaim → Task
  | .done => .locks z idx b
  | r => .reclaims z idx b r

namespace Sight

variable {S : Sight} {t : Tid} {z : Nat} {k k' : Task}

theorem goes_self (h : S.task t = k) : S.goes t k = S := by
  rw [goes, ← h, Function.update_eq_self]

@[simp] theorem task_goes : (S.goes t k).task t = k := Function.update_self ..

@[simp] theorem goes_goes : (S.goes t k).goes t k' = S.goes t k' := by
  rw [goes, goes, goes, Function.update_idem]

end Sight

section

variable {cfg : Config} {t : Tid} {z : Nat}

theorem Doing.refl {S : Sight} : Doing cfg t z S S := Relation.ReflTransGen.refl

theorem Doing.one {S' : Sight} (h : Work cfg t z S S') : Doing cfg t z S S' :=
  Relation.ReflTransGen.single h

theorem Doing.goes {S S' : Sight} {k k' : Task} (h : Doing cfg t z S (S'.goes t k))
    (hw : Work cfg t z (S'.goes t k) ((S'.goes t k).goes t k')) :
      Doing cfg t z S (S'.goes t k') := by
  rw [Sight.goes_goes] at hw
  exact Relation.ReflTransGen.tail h hw

end

namespace State

variable {cfg : Config} {s s' s₁ : State V} {t u : Tid} {z idx b n : Nat} {pc : Pc V} {S : Sight}
  {w : Put V} {f : Find} {k : Read}

theorem sight_setToken {k : Token V} : (s.setToken t k).sight =
    { s.sight with
      live := Function.update s.sight.live t k.live
      haz := Function.update s.sight.haz t k.haz
      task := Function.update s.sight.task t k.pc.task } := by
  have htoken : ∀ {α : Type} (f : Token V → α),
      (fun u => f ((s.setToken t k).token u)) = Function.update (fun u => f (s.token u)) t
        (f k) := by
    intro α f
    funext u
    rw [token_setToken, Function.update_apply]
    split <;> rfl
  have hlive : (s.setToken t k).sight.live = Function.update s.sight.live t k.live :=
    htoken Token.live
  have hhaz : (s.setToken t k).sight.haz = Function.update s.sight.haz t k.haz := htoken Token.haz
  have htask : (s.setToken t k).sight.task = Function.update s.sight.task t k.pc.task :=
    htoken fun k => k.pc.task
  calc (s.setToken t k).sight
      = { s.sight with
          live := (s.setToken t k).sight.live
          haz := (s.setToken t k).sight.haz
          task := (s.setToken t k).sight.task } := rfl
    _ = _ := by rw [hlive, hhaz, htask]

theorem sight_setPc : (s.setPc t pc).sight = s.sight.goes t pc.task := by
  have hlive : Function.update s.sight.live t (s.token t).live = s.sight.live :=
    Function.update_eq_self t _
  have hhaz : Function.update s.sight.haz t (s.token t).haz = s.sight.haz :=
    Function.update_eq_self t _
  rw [setPc, sight_setToken]
  dsimp only
  rw [hlive, hhaz]
  rfl

theorem sight_setPut {q : PutPc} :
    (s.setPut t z w q).sight = s.sight.goes t (.uses z (q.phase w) (q.top w)) := sight_setPc

theorem sight_setRead {q : ReadPc} : (s.setRead t z k q).sight = s.sight.goes t (q.task z) :=
  sight_setPc

theorem sight_setClose {q : ClosePc} : (s.setClose t q).sight = s.sight.goes t q.task := sight_setPc

@[simp] theorem sight_check {d : Bool} : (s.check d).sight = s.sight := rfl

@[simp] theorem sight_note {r : Result V} : (s.note t z r).sight = s.sight := rfl

theorem sight_heap {heap : Heap Flags V} :
    ({ s with heap } : State V).sight = { s.sight with heap := heap.bare } := rfl

@[simp] theorem sight_setElem {e : Element Flags V} : (s.setElem cfg b n e).sight = s.sight := by
  rw [setElem, sight_heap, Heap.bare_setElem]
  rfl

@[simp] theorem sight_setFlags {f : Flags} : (s.setFlags cfg b n f).sight = s.sight := sight_setElem

theorem sight_setBlock {p : Option Nat} {side : Side} :
    (s.setBlock z p side).sight = s.sight.setBlock z p side := by
  cases side <;> rfl

/-- A `pull()` that waits is told something. -/
theorem sight_wait {y i j : Nat} {ok : Bool} {q : ReadPc}
    (hpc : (s.token u).pc = .read y k (.suspended i j ok))
    (hq : q.task y = (ReadPc.suspended i j ok).task y) :
      (s.setPc u (.read y k q)).sight = s.sight := by
  rw [sight_setPc]
  refine Sight.goes_self ?_
  change (s.token u).pc.task = q.task y
  rw [hpc, hq]
  rfl

@[simp] theorem sight_resumeConsumer {frame : Nat} :
  (s.resumeConsumer u frame).sight = s.sight := by
  rw [resumeConsumer]
  split
  · next hpc =>
    split
    · exact sight_wait hpc rfl
    · rfl
  · rfl

@[simp] theorem sight_consumerNotOk {frame : Nat} : (s.consumerNotOk u frame).sight = s.sight := by
  rw [consumerNotOk]
  split
  · next hpc =>
    split
    · exact sight_wait hpc rfl
    · rfl
  · rfl

/-- `find_block` on the blocks without their elements. -/
theorem sight_find (cfg : Config) (s : State V) (f : Find) (i : Nat) (d : Bool) :
    (({ s with heap := (f.step .natural cfg.toLayout i s.heap).1 } : State V).check d).sight =
      { s.sight with heap := (f.step .natural cfg.toLayout i s.sight.heap).1 } := by
  rw [show s.sight.heap = s.heap.bare from rfl, Find.step_bare]
  rfl

theorem find_sight {i : Nat} : (f.step .natural cfg.toLayout i s.heap).2.2 =
    (f.step .natural cfg.toLayout i s.sight.heap).2.2 := by
  rw [show s.sight.heap = s.heap.bare from rfl, Find.step_bare]

/-! ## `post` and `post_bulk` -/

theorem task_of_pc (hpc : (s.token t).pc = pc) : s.sight.task t = pc.task :=
  congrArg Pc.task hpc

section Put

variable {q : PutPc}

theorem put_stays {p : Phase} {top : Nat} (ht : s.sight.task t = .uses z p top)
    (hp : q.phase w = p) (htop : q.top w = top) :
      Doing cfg t z s.sight (s.setPut t z w q).sight := by
  rw [sight_setPut, hp, htop, Sight.goes_self ht]
  exact .refl

theorem afterWrite_sight {i : Nat} (hs : s₁.sight = s.sight)
    (ht : s.sight.task t = .uses z (.has .write idx (idx + i) (idx + w.count) b) 0) :
    Doing cfg t z s.sight (s₁.afterWrite .natural cfg t z w idx i b).sight := by
  cases w with
  | post v =>
    rw [afterWrite, sight_setPut, hs]
    exact .one (.drop ht)
  | bulk items count =>
    rw [afterWrite]
    split
    · next hslot =>
      rw [sight_setPut, hs]
      exact .one (.cross ht hslot)
    · next hslot =>
      rw [afterItem]
      split
      · rw [sight_setPut, hs]
        exact .one (.drop ht)
      · next hne =>
        rw [sight_setPut, hs]
        exact .one (.item ht hne hslot)

/-- What a step of `post` and `post_bulk` does. -/
theorem put_sight (hpc : (s.token t).pc = .put z w q) :
    Doing cfg t z s.sight (s.putStep .natural cfg t z w q).sight ∨
      Leaving cfg t z s.sight (s.putStep .natural cfg t z w q).sight := by
  have ht : s.sight.task t = .uses z (q.phase w) (q.top w) := task_of_pc hpc
  have leave : ∀ {i d p top}, s.sight.task t = .uses z p top → Leaving cfg t z s.sight
      ((s.note t z (.post w i d)).leave .natural cfg t z (w.left i)).sight := by
    intro i d p top ht
    rw [State.leave, sight_setPc]
    exact .leave ht _
  cases q with
  | reject i | release i => exact .inr (leave ht)
  | protect =>
    refine .inl (.single ?_)
    rw [putStep, sight_setPut]
    exact .protect .write ht
  | fetchTicket act =>
    refine .inl (.single ?_)
    rw [putStep, sight_setPut]
    exact .take w.count ht
  | loadBlock act i =>
    refine .inl ?_
    rw [putStep]
    split
    · next b hb =>
      rw [sight_setPut]
      exact .one (.load ht hb)
    · exact .refl
  | blockOffset act i b =>
    refine .inl ?_
    rw [putStep, sight_setPut]
    exact (Doing.one (.offset ht)).goes
      (.forget Sight.task_goes (fun _ h => by cases h) fun _ h => h)
  | loadClosed i b boff =>
    refine .inl ?_
    rw [putStep]
    split <;> exact put_stays ht rfl rfl
  | spinClosed i b boff =>
    refine .inl ?_
    rw [putStep]
    split <;> exact put_stays ht rfl rfl
  | loadClosedAt i b boff =>
    refine .inl ?_
    rw [putStep]
    split
    · rw [sight_setPut]
      exact .one (.drop ht)
    · exact put_stays ht rfl rfl
  | find i boff f =>
    refine .inl ?_
    have hfind : Doing cfg t z s.sight _ := .one (.find ht)
    have hsight := sight_find cfg s f i (f.step .natural cfg.toLayout i s.heap).2.1
    rw [← find_sight] at hfind
    rw [putStep]
    generalize f.step .natural cfg.toLayout i s.heap = g at hfind hsight ⊢
    obtain ⟨heap, ok, f'⟩ := g
    cases f' with
    | found b =>
      cases w with
      | post v =>
        rw [sight_setPut, hsight]
        exact hfind.goes (.lands Sight.task_goes le_rfl)
      | bulk items count =>
        dsimp only
        split
        · next hzero =>
          rw [sight_setPut, hsight, hzero]
          exact hfind.goes (.lands Sight.task_goes (Nat.le_add_right ..))
        · next hpos =>
          rw [sight_setPut, hsight]
          refine hfind.goes (.meets Sight.task_goes ?_ ?_)
          · change i ≤ i + count - 1
            omega
          · change i + count - 1 ≤ i + (count - 1)
            omega
    | _ =>
      rw [sight_setPut, hsight]
      exact hfind
  | findEnd i boff b f =>
    refine .inl ?_
    have hfind : Doing cfg t z s.sight _ := .one (.findEnd ht)
    have hsight := sight_find cfg s f (i + w.count - 1)
      (f.step .natural cfg.toLayout (i + w.count - 1) s.heap).2.1
    rw [← find_sight] at hfind
    simp only [putStep, Layout.reg_natural]
    generalize f.step .natural cfg.toLayout (i + w.count - 1) s.heap = g at hfind hsight ⊢
    obtain ⟨heap, ok, f'⟩ := g
    cases f' with
    | found target =>
      rw [sight_setPut, hsight]
      refine hfind.goes (.ended Sight.task_goes fun hle => ?_)
      change i + (w.count - 1) = i + w.count - 1
      omega
    | _ =>
      rw [sight_setPut, hsight]
      exact hfind
  | storeBlock i boff b target =>
    refine .inl ?_
    cases w with
    | post v =>
      rw [putStep, sight_setPut]
      exact .one (.store ht (Nat.lt_succ_self i) le_rfl)
    | bulk items count =>
      rw [putStep, sight_setPut, sight_setBlock]
      exact .one (.swap ht)
  | protectOffset i b target =>
    refine .inl ?_
    rw [putStep, afterItem]
    split
    · rw [sight_setPut]
      exact .one (.guard ht (.inl rfl))
    · next hne =>
      rw [sight_setPut]
      refine .one (.guard ht (.inr ⟨i + w.count, rfl, ?_, ?_⟩))
      · have hne : i + 0 ≠ i + w.count := hne
        omega
      · change i + w.count ≤ i + (w.count - 1) + 1
        omega
  | emplace i k b =>
    refine .inl ?_
    have hsame : (s.setElem cfg b (i + k)
        { s.elem cfg b (i + k) with data := some (w.item k) }).sight = s.sight := sight_setElem
    rw [putStep, sight_setPut]
    refine (congrArg (Doing cfg t z s.sight) ((congrArg (Sight.goes · t _) hsame).trans
      (Sight.goes_self ht))).mpr .refl
  | publish i k b =>
    refine .inl ?_
    rw [putStep]
    split
    · exact afterWrite_sight sight_setFlags ht
    · exact put_stays ht rfl rfl
    · exact afterWrite_sight rfl ht
  | resumeConsumer i k b u frame => exact .inl (afterWrite_sight sight_resumeConsumer ht)
  | nextBlock i k b =>
    refine .inl ?_
    rw [putStep]
    split
    · next n hn =>
      rw [afterItem]
      split
      · rw [sight_setPut]
        exact .one (.drop ht)
      · next hne =>
        rw [sight_setPut]
        exact .one (.next ht hn hne)
    · dsimp only
      split
      · rw [sight_setPut]
        exact .one (.drop ht)
      · exact .refl

end Put

/-! ## `pull` and `try_pull` -/

section Read

variable {q : ReadPc} {spurious : Bool}

theorem read_stays {r : ReadPc} (ht : s.sight.task t = q.task z) (hr : r.task z = q.task z) :
    Doing cfg t z s.sight (s.setRead t z k r).sight := by
  rw [sight_setRead, hr, Sight.goes_self ht]
  exact .refl

theorem handOut_sight (hs : s₁.sight = s.sight) {i : Nat} {p : Phase} {top : Nat}
    (ht : s.sight.task t = .uses z p top) (hp : p = .has .read i i (i + 1) b) :
    Doing cfg t z s.sight (s₁.handOut cfg t z k i b).sight := by
  subst hp
  rw [handOut, sight_setRead, sight_note, sight_check, hs]
  exact .one (.lower ht)

theorem afterTake_sight (hs : s₁.sight = s.sight) {i top : Nat}
    (ht : s.sight.task t = .uses z (.has .read i i (i + 1) b) top) :
    Doing cfg t z s.sight (s₁.afterTake cfg t z k i b).sight := by
  cases k with
  | pull =>
    rw [afterTake, sight_setRead, hs]
    exact .one (.lower ht)
  | tryPull => exact handOut_sight hs ht rfl

/-- `get_read_ticket`, the loop of `try_pull` and the exits without a value. -/
theorem ticket_sight (hpc : (s.token t).pc = .read z k q) (hq : q.claimed = false)
    (hs : s.readStep .natural cfg t spurious z k q = some s') :
    Doing cfg t z s.sight s'.sight ∨ Leaving cfg t z s.sight s'.sight := by
  have ht : s.sight.task t = q.task z := task_of_pc hpc
  cases q with
  | protect =>
    cases hs
    refine .inl ?_
    cases k with
    | pull =>
      rw [sight_setRead]
      exact .one (.protect .read ht)
    | tryPull =>
      rw [sight_setRead]
      exact .one (.protect .read ht)
  | claim act =>
    cases hs
    refine .inl ?_
    rw [sight_setRead]
    exact .one (.claim ht)
  | loadBlock act i woff =>
    refine .inl ?_
    rw [readStep] at hs
    split at hs
    · next b hb =>
      cases hs
      rw [sight_setRead]
      exact .one (.load ht hb)
    · cases hs
      exact .refl
  | blockOffset act i woff b =>
    cases hs
    refine .inl ?_
    cases woff with
    | none =>
      rw [sight_setRead]
      exact .one (.offset ht)
    | some woff =>
      rw [sight_setRead]
      exact .one (.offset ht)
  | loadClosed act i b boff | spinClosed act i b boff =>
    cases hs
    refine .inl ?_
    split <;> exact read_stays ht rfl
  | loadClosedAt act i b boff =>
    cases hs
    refine .inl ?_
    split
    · rw [sight_setRead]
      exact .one (.forget ht (fun _ h => by cases h) fun _ h => by cases h)
    · exact read_stays ht rfl
  | closedFind i f =>
    refine .inl ?_
    have hfind : Doing cfg t z s.sight _ := .one (.find ht)
    have hsight := sight_find cfg s f i (f.step .natural cfg.toLayout i s.heap).2.1
    rw [← find_sight] at hfind
    rw [readStep] at hs
    generalize f.step .natural cfg.toLayout i s.heap = g at hfind hsight hs
    obtain ⟨heap, ok, f'⟩ := g
    cases hs
    cases f' <;> (rw [sight_setRead, hsight]; exact hfind)
  | setNotWaiting i b =>
    cases hs
    refine .inl ?_
    rw [sight_setRead, sight_setFlags]
    exact .one (.drop ht)
  | find act i woff boff f =>
    refine .inl ?_
    have hfind : Doing cfg t z s.sight _ := .one (.find ht)
    have hsight := sight_find cfg s f i (f.step .natural cfg.toLayout i s.heap).2.1
    rw [← find_sight] at hfind
    rw [readStep] at hs
    generalize f.step .natural cfg.toLayout i s.heap = g at hfind hsight hs
    obtain ⟨heap, ok, f'⟩ := g
    cases hs
    cases f' with
    | found b =>
      cases woff with
      | none =>
        rw [sight_setRead, hsight]
        exact hfind.goes (.forget Sight.task_goes (fun _ h => by cases h) fun _ h => h)
      | some woff =>
        rw [sight_setRead, hsight]
        exact hfind
    | _ =>
      rw [sight_setRead, hsight]
      exact hfind
  | loadRead act =>
    cases hs
    refine .inl ?_
    rw [sight_setRead]
    exact .one (.observe ht (.inl rfl))
  | loadWrite act i =>
    cases hs
    refine .inl ?_
    split
    · rw [sight_setRead]
      exact .one (.drop ht)
    · rw [sight_setRead]
      exact .one (.written ht)
  | probe act i woff boff b =>
    cases hs
    refine .inl ?_
    split
    · exact read_stays ht rfl
    · rw [sight_setRead]
      exact .one (.back ht)
  | cas act i woff boff b =>
    refine .inl ?_
    rw [readStep] at hs
    split at hs
    · next hidx =>
      cases hs
      rw [sight_setRead]
      exact (Doing.one (.won ht hidx)).goes
        (.forget Sight.task_goes (fun _ h => by cases h) fun _ h => h)
    · cases hs
      rw [sight_setRead]
      exact (Doing.one (.back ht)).goes (.observe Sight.task_goes (.inr ⟨i, rfl⟩))
  | reload act i =>
    cases hs
    refine .inl ?_
    split
    · rw [sight_setRead]
      exact .one (.drop ht)
    · rw [sight_setRead]
      exact .one (.observe ht (.inr ⟨i, rfl⟩))
  | tryClosed i | trySpin i | tryClosedAt i =>
    cases hs
    refine .inl ?_
    split <;> exact read_stays ht rfl
  | leaveEmpty i | leaveClosed i =>
    cases hs
    refine .inr ?_
    rw [State.leave, sight_setPc]
    exact .leave ht _
  | storeBlock | tryLock | loadProtect | reclaim | unlock | poll | tryWait | suspended | resumed
  | holding | release => cases hq

/-- What a step of `pull` and `try_pull` does. -/
theorem read_sight (hpc : (s.token t).pc = .read z k q)
    (hs : s.readStep .natural cfg t spurious z k q = some s') :
    Doing cfg t z s.sight s'.sight ∨ Leaving cfg t z s.sight s'.sight ∨
      Locking t z s.sight s'.sight ∨ ∃ idx b r, q = .reclaim idx b r ∧
        s'.sight = (s.reclaimStep .natural cfg z r).1.sight.goes t
          (.reclaiming z idx b (s.reclaimStep .natural cfg z r).2) := by
  have ht : s.sight.task t = q.task z := task_of_pc hpc
  cases q with
  | storeBlock i woff boff b =>
    refine .inl ?_
    have hhold : Doing cfg t z s.sight _ := .one (.hold ht)
    simp only [readStep] at hs
    split at hs
    · cases hs
      rw [sight_setRead]
      exact hhold
    · cases hs
      cases k with
      | pull =>
        rw [afterTake, sight_setRead]
        exact hhold.goes (.lower Sight.task_goes)
      | tryPull =>
        rw [afterTake, handOut, sight_setRead]
        exact hhold.goes (.lower Sight.task_goes)
  | tryLock i woff b =>
    simp only [readStep] at hs
    split at hs
    · next hfree =>
      cases hs
      refine .inr (.inr (.inl ?_))
      cases woff with
      | none =>
        rw [sight_setRead]
        exact .lock ht hfree.2
      | some woff =>
        rw [sight_setRead]
        exact .tryLock ht hfree.2
    · cases hs
      exact .inl (afterTake_sight rfl ht)
  | loadProtect i b =>
    cases hs
    refine .inr (.inr (.inl ?_))
    rw [sight_setRead]
    exact .protect ht
  | reclaim i b r =>
    refine .inr (.inr (.inr ⟨i, b, r, rfl, ?_⟩))
    rw [readStep] at hs
    generalize s.reclaimStep .natural cfg z r = g at hs ⊢
    obtain ⟨s₁, r'⟩ := g
    cases hs
    rw [sight_setRead]
    cases r' <;> rfl
  | unlock i b =>
    cases hs
    refine .inr (.inr (.inl ?_))
    cases k with
    | pull =>
      rw [afterTake, sight_setRead]
      exact .unlock ht
    | tryPull =>
      rw [afterTake, handOut, sight_setRead]
      exact .unlock ht
  | poll i b =>
    refine .inl ?_
    rw [readStep] at hs
    split at hs
    · cases hs
      exact handOut_sight rfl ht rfl
    · cases hs
      exact read_stays ht rfl
  | tryWait i b =>
    refine .inl ?_
    rw [readStep] at hs
    split at hs
    · cases hs
      rw [sight_setRead, sight_setFlags]
      exact .one (.lower ht)
    · cases hs
      exact handOut_sight rfl ht rfl
  | resumed i b ok =>
    cases ok with
    | true =>
      cases hs
      exact .inl (handOut_sight rfl ht rfl)
    | false =>
      cases hs
      refine .inr (.inl ?_)
      rw [sight_setPc]
      exact .rest ht
  | suspended i b ok | holding i b => cases hs
  | release i =>
    cases hs
    refine .inr (.inl ?_)
    rw [State.leave, sight_setPc]
    exact .leave ht _
  | _ => exact (ticket_sight hpc rfl hs).imp_right .inl

end Read

/-! ## `close` -/

section Close

variable {q : ClosePc}

theorem close_stays {r : ClosePc} (hs : s₁.sight = s.sight) (ht : s.sight.task t = q.task)
    (hr : r.task = q.task) : (s₁.setClose t r).sight = s.sight := by
  rw [sight_setClose, hs, hr, Sight.goes_self ht]

theorem afterWake_sight {i fin : Nat} (hs : s₁.sight = s.sight)
    (ht : s.sight.task t = .walks i (.found b)) :
    Closes cfg t s.sight (s₁.afterWake .natural cfg t i fin b).sight := by
  rw [afterWake]
  split
  · rw [sight_setClose, hs]
    have h : Closes cfg t s.sight _ := .wake ht
    split
    · next hslot =>
      rw [show cfg.slot (i + 1) = 0 from hslot, if_pos rfl] at h
      exact h
    · next hslot =>
      rw [if_neg (show ¬ cfg.slot (i + 1) = 0 from hslot)] at h
      exact h
  · rw [sight_setClose, hs]
    exact .ends (.inr ⟨_, ht⟩)

/-- What a step of `close` does. -/
theorem close_sight (hpc : (s.token t).pc = .close q)
    (hs : s.closeStep .natural cfg t q = some s') :
    s'.sight = s.sight ∨ Closes cfg t s.sight s'.sight := by
  have ht : s.sight.task t = q.task := task_of_pc hpc
  cases q with
  | lock =>
    simp only [closeStep] at hs
    split at hs
    · next hfree =>
      cases hs
      refine .inr ?_
      rw [sight_setClose]
      exact .lock ht hfree
    · cases hs
  | check =>
    simp only [closeStep] at hs
    split at hs <;> (cases hs; exact .inl (close_stays rfl ht rfl))
  | loadOffset | provisional woff | closing | closedAt woff =>
    cases hs
    exact .inl (close_stays rfl ht rfl)
  | ticket =>
    cases hs
    refine .inr ?_
    rw [sight_setClose]
    exact .ticket ht
  | closed woff =>
    cases hs
    exact .inl (close_stays rfl ht rfl)
  | loadRead woff =>
    cases hs
    split
    · exact .inl (close_stays rfl ht rfl)
    · rw [sight_setClose]
      exact .inr (.ends (.inl ht))
  | loadHead i fin =>
    cases hs
    refine .inr ?_
    rw [sight_setClose]
    exact .start ht
  | find i fin f =>
    refine .inr ?_
    have hfind : Closes cfg t s.sight _ := .find ht
    have hsight := sight_find cfg s f i (f.step .natural cfg.toLayout i s.heap).2.1
    rw [← find_sight] at hfind
    rw [closeStep] at hs
    generalize f.step .natural cfg.toLayout i s.heap = g at hfind hsight hs
    obtain ⟨heap, ok, f'⟩ := g
    cases hs
    cases f' <;> (rw [sight_setClose, hsight]; exact hfind)
  | spin i fin b =>
    simp only [closeStep] at hs
    split at hs
    · cases hs
      exact .inl (close_stays rfl ht rfl)
    · cases hs
      exact .inr (afterWake_sight rfl ht)
    · cases hs
      exact .inl (close_stays rfl ht rfl)
    · cases hs
      refine .inr ?_
      rw [sight_setClose, sight_check]
      exact .ends (.inr ⟨_, ht⟩)
  | notOk i fin b u frame =>
    cases hs
    exact .inl (close_stays sight_consumerNotOk ht rfl)
  | resumeConsumer i fin b u frame =>
    cases hs
    exact .inr (afterWake_sight sight_resumeConsumer ht)
  | unlock =>
    cases hs
    refine .inr ?_
    rw [sight_setPc]
    exact .unlock ht

end Close

end State

end CoroUtil.Channel
