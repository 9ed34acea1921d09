import CoroUtil.Channel.Model

/-!
# What the operations do with the hazard pointers

`Token.view` is what a token has to do with the hazard pointers, and `Same` says
that a step keeps the owners, the links and the views.  The operations on a token
that has its hazard pointer only move the token itself (`Goes`): from using it to
using it or to rest.
-/

namespace CoroUtil.Channel

open CoroUtil.Blocks

variable {V : Type}

/-- What a task does with the hazard pointers. -/
inductive Role
  | idle
  | acquire (a : Acquire)
  | uses (z : Nat)
  | close
  | free (z : Nat)

def Pc.role : Pc V → Role
  | idle => .idle
  | acquire _ a => .acquire a
  | put z _ _ | read z _ _ => .uses z
  | close _ => .close
  | free z _ => .free z

structure View where
  live : Bool
  haz : Option Nat
  role : Role

def Token.view (k : Token V) : View := ⟨k.live, k.haz, k.pc.role⟩

/-- A `pull()` that is suspended or has been resumed. -/
def Pc.Waits : Pc V → Prop
  | read _ _ (.suspended ..) | read _ _ (.resumed ..) => True
  | _ => False

/-- Nothing happens to the ownership of the hazard pointers and their links, nor to
the `active_offset` of one that is not `w` and what its token was returned, and a
token only goes on if it waits. -/
structure Same (w : Option Nat) (s s' : State V) : Prop where
  hazards : s'.hazards = s.hazards
  owned : ∀ z, (s'.hazard z).owned = (s.hazard z).owned
  next : ∀ z, (s'.hazard z).next = (s.hazard z).next
  view : ∀ t, (s'.token t).view = (s.token t).view
  pc : ∀ t, (s'.token t).pc = (s.token t).pc ∨ (s'.token t).pc.Waits
  active : ∀ z, w ≠ some z → (s'.hazard z).activeOffset = (s.hazard z).activeOffset
  last : ∀ z, w ≠ some z → s'.last z = s.last z

namespace State

variable {s : State V} {z y : Nat} {t u : Tid}

theorem hazard_setHazard {x : HazardPtr} :
    (s.setHazard z x).hazard y = if y = z then x else s.hazard y := Function.update_apply ..

theorem token_setToken {k : Token V} :
    (s.setToken t k).token u = if u = t then k else s.token u := Function.update_apply ..

theorem token_setPc {pc : Pc V} :
    (s.setPc t pc).token u = if u = t then { s.token t with pc } else s.token u :=
  token_setToken

end State

namespace Same

variable {s s₁ s' : State V} {w : Option Nat} {z : Nat} {t u : Tid}

theorem of_eq (hz : s'.hazard = s.hazard) (hn : s'.hazards = s.hazards) (ht : s'.token = s.token)
    (hl : s'.last = s.last) : Same w s s' := by
  refine ⟨hn, ?_, ?_, ?_, ?_, ?_, ?_⟩
  · rw [hz]
    exact fun _ => rfl
  · rw [hz]
    exact fun _ => rfl
  · rw [ht]
    exact fun _ => rfl
  · rw [ht]
    exact fun _ => .inl rfl
  · rw [hz]
    exact fun _ _ => rfl
  · rw [hl]
    exact fun _ _ => rfl

theorem refl (w : Option Nat) (s : State V) : Same w s s := of_eq rfl rfl rfl rfl

theorem trans (h : Same w s s₁) (h' : Same w s₁ s') : Same w s s' where
  hazards := h'.hazards.trans h.hazards
  owned z := (h'.owned z).trans (h.owned z)
  next z := (h'.next z).trans (h.next z)
  view t := (h'.view t).trans (h.view t)
  pc t := by
    rcases h'.pc t with hpc | hpc
    · rw [hpc]
      exact h.pc t
    · exact .inr hpc
  active z hz := (h'.active z hz).trans (h.active z hz)
  last z hz := (h'.last z hz).trans (h.last z hz)

theorem check (h : Same w s s₁) (b : Bool) : Same w s (s₁.check b) :=
  h.trans (of_eq rfl rfl rfl rfl)

theorem heap (h : Same w s s₁) (heap : Heap Flags V) : Same w s { s₁ with heap } :=
  h.trans (of_eq rfl rfl rfl rfl)

theorem note (h : Same (some z) s s₁) (r : Result V) : Same (some z) s (s₁.note t z r) := by
  refine h.trans ⟨rfl, fun _ => rfl, fun _ => rfl, fun _ => rfl, fun _ => .inl rfl, fun _ _ => rfl,
    fun y hy => ?_⟩
  exact Function.update_of_ne (fun heq => hy (congrArg some heq.symm)) _ _

/-- A write to a hazard pointer, but not to the fields that say who owns it. -/
theorem setHazard (h : Same w s s₁) {x : HazardPtr} (ho : x.owned = (s₁.hazard z).owned)
    (hn : x.next = (s₁.hazard z).next)
    (ha : w = some z ∨ x.activeOffset = (s₁.hazard z).activeOffset) :
    Same w s (s₁.setHazard z x) := by
  refine h.trans ⟨rfl, fun y => ?_, fun y => ?_, fun _ => rfl, fun _ => .inl rfl, fun y hy => ?_,
    fun _ _ => rfl⟩
  · rw [State.hazard_setHazard]
    split
    · next hy => rw [hy, ho]
    · rfl
  · rw [State.hazard_setHazard]
    split
    · next hy => rw [hy, hn]
    · rfl
  · rw [State.hazard_setHazard]
    split
    · next hyz =>
      rcases ha with ha | ha
      · exact absurd (ha.trans (congrArg some hyz.symm)) hy
      · rw [hyz, ha]
    · rfl

theorem setActive (h : Same (some z) s s₁) (off : Nat) : Same (some z) s (s₁.setActive z off) :=
  h.setHazard rfl rfl (.inl rfl)

theorem setBlock (h : Same w s s₁) (b : Option Nat) (side : Side) :
    Same w s (s₁.setBlock z b side) := by
  cases side with
  | write => exact h.setHazard rfl rfl (.inr rfl)
  | read => exact h.setHazard rfl rfl (.inr rfl)

/-- A `pull()` that waits goes on waiting. -/
theorem setPc (h : Same w s s₁) {pc : Pc V} (hpc : pc.role = (s₁.token u).pc.role)
    (hw : pc.Waits) : Same w s (s₁.setPc u pc) := by
  refine h.trans ⟨rfl, fun _ => rfl, fun _ => rfl, fun v => ?_, fun v => ?_, fun _ _ => rfl,
    fun _ _ => rfl⟩
  · rw [State.token_setPc]
    split
    · next hv =>
      rw [hv, Token.view, hpc]
      rfl
    · rfl
  · rw [State.token_setPc]
    split
    · exact .inr hw
    · exact .inl rfl

theorem resumeConsumer (h : Same w s s₁) (frame : Nat) : Same w s (s₁.resumeConsumer u frame) := by
  rw [State.resumeConsumer]
  split
  · next z k idx b ok hpc =>
    split
    · exact h.setPc (by rw [hpc]; rfl) trivial
    · exact h.check false
  · exact h.check false

theorem consumerNotOk (h : Same w s s₁) (frame : Nat) : Same w s (s₁.consumerNotOk u frame) := by
  rw [State.consumerNotOk]
  split
  · next z k idx b ok hpc =>
    split
    · exact h.setPc (by rw [hpc]; rfl) trivial
    · exact h.check false
  · exact h.check false

end Same

namespace Result

/-- The index that the operation claimed or observed. -/
def idx : Result V → Nat
  | post _ idx _ | ok _ idx _ | empty idx | closed _ idx _ => idx

/-- How many indices it claimed. -/
def count : Result V → Nat
  | post w _ _ => w.count
  | ok .. | empty _ | closed .. => 1

/-- It is of a `pull()` that was suspended and resumed by `close()`. -/
def woken : Result V → Bool
  | closed _ _ woken => woken
  | post .. | ok .. | empty _ => false

end Result

/-- The result of the operation whose scope is live. -/
def ReadPc.Scope (k : Read) (last : Option (Result V)) : ReadPc → Prop
  | holding idx _ | release idx => ∃ v, last = some (.ok k idx v)
  | _ => True

/-- `active_offset` is inactive at or past the index that the operation claimed or
observed. -/
def Result.Leaves (o : Offsets) (cfg : Config) (active : Nat) (r : Result V) : Prop :=
  ∃ n, r.idx ≤ n ∧ n ≤ r.idx + r.count ∧ active = cfg.reg o (n + cfg.inactive)

/-- The last operation has left `active_offset` so, or `pull()`s are woken by
`close()` and it was one of them. -/
def Rests (o : Offsets) (cfg : Config) (wakes : Prop) (active : Nat) (last : Option (Result V)) :
    Prop :=
  ∃ r, last = some r ∧ (r.Leaves o cfg active ∨ r.woken = true ∧ wakes)

/-- What an operation on a token that has the hazard pointer `z` does next. -/
def Working (o : Offsets) (cfg : Config) (wakes : Prop) (z : Nat) (pc : Pc V) (active : Nat)
    (last : Option (Result V)) : Prop :=
  match pc with
  | .put y _ _ => y = z
  | .read y k q => y = z ∧ q.Scope k last
  | .idle => Rests o cfg wakes active last
  | _ => False

/-- What `close` does next. -/
def Closing (pc : Pc V) : Prop :=
  match pc with
  | .close _ | .idle => True
  | _ => False

/-- Token `t` goes on as `R` says, and nothing else happens but to the hazard
pointer `w`. -/
def Goes (w : Option Nat) (R : State V → Pc V → Prop) (t : Tid) (s s' : State V) : Prop :=
  ∃ s₁ pc, Same w s s₁ ∧ R s₁ pc ∧ s' = s₁.setPc t pc

/-- An operation that uses `z` goes on. -/
def Works (o : Offsets) (cfg : Config) (wakes : Prop) (z : Nat) (t : Tid) (s s' : State V) : Prop :=
  Goes (some z) (fun s₁ pc => Working o cfg wakes z pc (s₁.hazard z).activeOffset (s₁.last z)) t
    s s'

namespace Works

variable {s s₁ : State V} {t : Tid} {z b idx off : Nat} {o : Offsets} {cfg : Config} {w : Put V}
  {k : Read} {wakes : Prop}

theorem setPut (h : Same (some z) s s₁) (q : PutPc) : Works o cfg wakes z t s (s₁.setPut t z w q) :=
  ⟨s₁, .put z w q, h, rfl, rfl⟩

theorem setRead (h : Same (some z) s s₁) {q : ReadPc} (hq : q.Scope k (s₁.last z)) :
    Works o cfg wakes z t s (s₁.setRead t z k q) := ⟨s₁, .read z k q, h, ⟨rfl, hq⟩, rfl⟩

/-- A pointer that is null is followed, and the task stays. -/
theorem stays (h : Same (some z) s s₁) {pc : Pc V} (hpc : (s₁.token t).pc = pc)
    (hw : Working o cfg wakes z pc (s₁.hazard z).activeOffset (s₁.last z)) :
      Works o cfg wakes z t s s₁ := by
  refine ⟨s₁, pc, h, hw, ?_⟩
  rw [State.setPc, State.setToken, ← hpc, Function.update_eq_self]

/-- The operation has returned `r`, and `active_offset` is made inactive. -/
theorem leave (h : Same (some z) s s₁) {r : Result V} (hr : s₁.last z = some r) (hle : r.idx ≤ off)
    (hoff : off ≤ r.idx + r.count) : Works o cfg wakes z t s (s₁.leave o cfg t z off) := by
  have hrests : Rests o cfg wakes
      ((s₁.setActive z (cfg.reg o (off + cfg.inactive))).hazard z).activeOffset (s₁.last z) := by
    refine ⟨r, hr, .inl ⟨off, hle, hoff, ?_⟩⟩
    rw [State.setActive, State.hazard_setHazard, if_pos rfl]
  exact ⟨_, .idle, h.setActive _, hrests, rfl⟩

/-- A `pull()` that was resumed by `close()` returns. -/
theorem woken (h : Same (some z) s s₁) (hw : wakes) :
    Works o cfg wakes z t s ((s₁.note t z (.closed k idx true)).setPc t .idle) := by
  have hlast : (s₁.note t z (.closed k idx true)).last z = some (.closed k idx true) :=
    Function.update_self ..
  exact ⟨_, .idle, h.note _, ⟨_, hlast, .inr ⟨rfl, hw⟩⟩, rfl⟩

theorem handOut (h : Same (some z) s s₁) : Works o cfg wakes z t s (s₁.handOut cfg t z k idx b) :=
  setRead ((h.check _).note _) ⟨_, Function.update_self ..⟩

theorem afterTake (h : Same (some z) s s₁) :
    Works o cfg wakes z t s (s₁.afterTake cfg t z k idx b) := by
  cases k with
  | pull => exact setRead h trivial
  | tryPull => exact handOut h

theorem afterItem (h : Same (some z) s s₁) {k : Nat} :
    Works o cfg wakes z t s (s₁.afterItem o cfg t z w idx k b) := by
  rw [State.afterItem]
  split
  · exact setPut h _
  · exact setPut h _

theorem afterWrite (h : Same (some z) s s₁) {k : Nat} :
    Works o cfg wakes z t s (s₁.afterWrite o cfg t z w idx k b) := by
  cases w with
  | post v => exact setPut h _
  | bulk items count =>
    rw [State.afterWrite]
    split
    · exact setPut h _
    · exact afterItem h

end Works

namespace State

variable {o : Offsets} {cfg : Config} {wakes : Prop} {s s' : State V} {t : Tid} {z : Nat}
  {k : Read}

/-- The index that `post` and `post_bulk` leave is at or past the first one. -/
theorem left_le {w : Put V} {idx : Nat} : idx ≤ w.left idx ∧ w.left idx ≤ idx + w.count := by
  cases w with
  | post v => exact ⟨le_rfl, Nat.le_add_right ..⟩
  | bulk items count => exact ⟨Nat.le_add_right .., le_rfl⟩

/-- `post` and `post_bulk`. -/
theorem put_works {w : Put V} {q : PutPc} (hpc : (s.token t).pc = .put z w q) :
    Works o cfg wakes z t s (s.putStep o cfg t z w q) := by
  have hfail : Works o cfg wakes z t s (s.check false) := .stays (.of_eq rfl rfl rfl rfl) hpc rfl
  have same : Same (some z) s s := .refl _ s
  have leaves : ∀ idx ok, Works o cfg wakes z t s
      ((s.note t z (.post w idx ok)).leave o cfg t z (w.left idx)) := fun idx ok =>
    .leave (same.note _) (Function.update_self ..) left_le.1 left_le.2
  cases q with
  | protect => exact .setPut (same.setActive _) _
  | fetchTicket act =>
    refine .setPut ?_ _
    exact .of_eq rfl rfl rfl rfl
  | loadBlock act idx =>
    rw [putStep]
    split
    · exact .setPut same _
    · exact hfail
  | blockOffset act idx b => exact .setPut (same.check _) _
  | loadClosed idx b boff =>
    rw [putStep]
    split <;> exact .setPut same _
  | spinClosed idx b boff =>
    rw [putStep]
    split <;> exact .setPut same _
  | loadClosedAt idx b boff =>
    rw [putStep]
    split <;> exact .setPut same _
  | reject idx => exact leaves idx false
  | find idx boff f =>
    have hs := (same.heap (f.step o cfg.toLayout idx s.heap).1).check
      (f.step o cfg.toLayout idx s.heap).2.1
    rw [putStep]
    dsimp only
    split
    · split <;> exact .setPut hs _
    · exact .setPut hs _
    · exact .setPut hs _
  | findEnd idx boff b f =>
    have hs := (same.heap (f.step o cfg.toLayout (cfg.reg o (idx + w.count - 1)) s.heap).1).check
      (f.step o cfg.toLayout (cfg.reg o (idx + w.count - 1)) s.heap).2.1
    rw [putStep]
    dsimp only
    split <;> exact .setPut hs _
  | storeBlock idx boff b target =>
    have hs := same.setBlock (z := z) (some target) .write
    cases w with
    | post v =>
      refine .setPut ?_ _
      exact hs.setHazard rfl rfl (.inr rfl)
    | bulk items count => exact .setPut hs _
  | protectOffset idx b target =>
    refine .afterItem ?_
    exact same.setHazard rfl rfl (.inr rfl)
  | emplace idx k b =>
    refine .setPut ?_ _
    exact .of_eq rfl rfl rfl rfl
  | publish idx k b =>
    rw [putStep]
    split
    · refine .afterWrite ?_
      exact .of_eq rfl rfl rfl rfl
    · exact .setPut same _
    · exact .afterWrite (same.check false)
  | resumeConsumer idx k b u frame => exact .afterWrite (same.resumeConsumer frame)
  | nextBlock idx k b =>
    rw [putStep]
    split
    · exact .afterItem same
    · dsimp only
      split
      · exact .setPut (same.check _) _
      · exact .stays ((same.check _).check _) hpc rfl
  | release idx => exact leaves idx true

/-- What `try_reclaim_blocks` does is not about the owners. -/
theorem reclaim_same {w : Option Nat} {r : TryReclaim} :
    Same w s (s.reclaimStep o cfg z r).1 := by
  have same : Same w s s := .refl _ s
  cases r with
  | walkNext x new again =>
    rw [reclaimStep]
    split
    · exact same
    · exact same.check false
  | advCas x new curr n side b =>
    rw [reclaimStep]
    split
    · exact same.setBlock _ _
    · exact same
  | assertRead x new => exact same.check _
  | assertWrite x new => exact same.check _
  | storeHead x new => exact .of_eq rfl rfl rfl rfl
  | count x new => exact .of_eq rfl rfl rfl rfl
  | check x new =>
    rw [reclaimStep]
    split
    · exact .of_eq rfl rfl rfl rfl
    · exact same
  | rollback x => exact .of_eq rfl rfl rfl rfl
  | storeOffset x new off => exact .of_eq rfl rfl rfl rfl
  | move r => exact .of_eq rfl rfl rfl rfl
  | _ => exact same

/-- `pull` and `try_pull`, and the release of a scope. -/
theorem read_works {spurious : Bool} {q : ReadPc} (hpc : (s.token t).pc = .read z k q)
    (hq : q.Scope k (s.last z))
    (hw : ∀ idx b, q = .resumed idx b false → wakes)
    (hs : s.readStep o cfg t spurious z k q = some s') : Works o cfg wakes z t s s' := by
  have hfail : Works o cfg wakes z t s (s.check false) :=
    .stays (.of_eq rfl rfl rfl rfl) hpc ⟨rfl, hq⟩
  have same : Same (some z) s s := .refl _ s
  cases q with
  | protect =>
    cases hs
    exact .setRead (same.setActive _) (by cases k <;> trivial)
  | claim act =>
    cases hs
    refine .setRead ?_ trivial
    exact .of_eq rfl rfl rfl rfl
  | loadBlock act idx woff =>
    rw [readStep] at hs
    split at hs
    · cases hs
      exact .setRead same trivial
    · cases hs
      exact hfail
  | blockOffset act idx woff b =>
    cases hs
    exact .setRead (same.check _) (by cases woff <;> trivial)
  | closedFind idx f =>
    rw [readStep] at hs
    generalize f.step o cfg.toLayout idx s.heap = g at hs
    obtain ⟨heap, ok, f'⟩ := g
    cases hs
    exact .setRead ((same.heap _).check _) (by split <;> trivial)
  | find act idx woff boff f =>
    rw [readStep] at hs
    generalize f.step o cfg.toLayout idx s.heap = g at hs
    obtain ⟨heap, ok, f'⟩ := g
    cases hs
    exact .setRead ((same.heap _).check _) (by split <;> trivial)
  | setNotWaiting idx b =>
    cases hs
    refine .setRead ?_ trivial
    exact .of_eq rfl rfl rfl rfl
  | cas act idx woff boff b =>
    rw [readStep] at hs
    split at hs
    · cases hs
      refine .setRead ?_ trivial
      exact .of_eq rfl rfl rfl rfl
    · cases hs
      exact .setRead same trivial
  | leaveEmpty idx =>
    cases hs
    exact .leave (same.note _) (Function.update_self ..) le_rfl (Nat.le_add_right ..)
  | leaveClosed idx =>
    cases hs
    exact .leave (same.note _) (Function.update_self ..) le_rfl (Nat.le_add_right ..)
  | storeBlock idx woff boff b =>
    have hset := (same.setBlock (z := z) (some b) .read).setHazard (z := z) (x :=
      { (s.setBlock z (some b) .read).hazard z with nextProtectRead := boff }) rfl rfl (.inr rfl)
    simp only [readStep] at hs
    split at hs
    · cases hs
      exact .setRead hset trivial
    · cases hs
      exact .afterTake hset
  | tryLock idx woff b =>
    simp only [readStep] at hs
    split at hs
    · cases hs
      refine .setRead ?_ (by cases woff <;> trivial)
      exact .of_eq rfl rfl rfl rfl
    · cases hs
      exact .afterTake same
  | reclaim idx b r =>
    have hsame : Same (some z) s (s.reclaimStep o cfg z r).1 := reclaim_same
    rw [readStep] at hs
    generalize s.reclaimStep o cfg z r = g at hs hsame
    obtain ⟨s₁, r'⟩ := g
    cases hs
    exact .setRead hsame (by split <;> trivial)
  | unlock idx b =>
    cases hs
    refine .afterTake ?_
    exact .of_eq rfl rfl rfl rfl
  | poll idx b =>
    rw [readStep] at hs
    split at hs
    · cases hs
      exact .handOut same
    · cases hs
      exact .setRead same trivial
  | tryWait idx b =>
    rw [readStep] at hs
    split at hs
    · cases hs
      refine .setRead ?_ trivial
      exact .of_eq rfl rfl rfl rfl
    · cases hs
      exact .handOut same
  | suspended idx b ok => cases hs
  | holding idx b => cases hs
  | resumed idx b ok =>
    cases ok with
    | true =>
      cases hs
      exact .handOut same
    | false =>
      cases hs
      exact .woken same (hw idx b rfl)
  | release idx =>
    cases hs
    obtain ⟨v, hv⟩ := hq
    exact .leave same hv le_rfl (Nat.le_add_right ..)
  | loadClosed act idx b boff | spinClosed act idx b boff | loadClosedAt act idx b boff
  | loadWrite act idx | probe act idx woff boff b | reload act idx | tryClosed idx | trySpin idx
  | tryClosedAt idx =>
    cases hs
    exact .setRead same (by split <;> trivial)
  | loadRead act | loadProtect idx b =>
    cases hs
    exact .setRead same trivial

/-- `close`. -/
theorem close_goes {q : ClosePc} (hs : s.closeStep o cfg t q = some s') :
    Goes none (fun _ pc => Closing pc) t s s' := by
  have same : Same none s s := .refl _ s
  have goes : ∀ {s₁ q}, Same none s s₁ → Goes none (fun _ pc => Closing pc) t s (s₁.setClose t q) :=
    fun h => ⟨_, .close _, h, trivial, rfl⟩
  have wake : ∀ {s₁ idx fin b}, Same none s s₁ →
      Goes none (fun _ pc => Closing pc) t s (s₁.afterWake o cfg t idx fin b) := by
    intro s₁ idx fin b h
    rw [afterWake]
    split
    · exact goes h
    · exact goes h
  cases q with
  | lock =>
    rw [closeStep] at hs
    split at hs
    · cases hs
      refine goes ?_
      exact .of_eq rfl rfl rfl rfl
    · cases hs
  | check =>
    rw [closeStep] at hs
    split at hs <;> cases hs <;> exact goes same
  | provisional woff | closing | ticket | closedAt woff | closed woff =>
    cases hs
    refine goes ?_
    exact .of_eq rfl rfl rfl rfl
  | loadOffset | loadRead woff | loadHead idx fin =>
    cases hs
    exact goes same
  | find idx fin f =>
    cases hs
    exact goes ((same.heap _).check _)
  | spin idx fin b =>
    rw [closeStep] at hs
    split at hs
    · cases hs
      exact goes same
    · cases hs
      exact wake same
    · cases hs
      exact goes same
    · cases hs
      exact goes (same.check false)
  | notOk idx fin b u frame =>
    cases hs
    exact goes (same.consumerNotOk frame)
  | resumeConsumer idx fin b u frame =>
    cases hs
    exact wake (same.resumeConsumer frame)
  | unlock =>
    cases hs
    refine ⟨_, .idle, ?_, trivial, rfl⟩
    exact .of_eq rfl rfl rfl rfl

theorem release_works {idx b : Nat} (hlast : ∃ v, s.last z = some (.ok k idx v)) :
    Works o cfg wakes z t s (s.destroyValue cfg t z k idx b) := by
  refine .setRead ?_ hlast
  exact .of_eq rfl rfl rfl rfl

end State

end CoroUtil.Channel
