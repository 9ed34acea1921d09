import CoroUtil.MpscUnbounded.Model

/-!
# Tickets and indices

`Ledger` is what the tasks and the consumer agree on, without blocks and flags:
which indices have been given out, who holds them, and what has become of each.
An index that has been given out belongs to a task in the middle of a call, to
a call that has returned, or it is the cutoff.  `Ledger.Ok` says so, and each
move of the protocol keeps it.
-/

namespace CoroUtil.MpscUnbounded

/-- What has become of an index. -/
inductive Stage (V : Type)
  | blank
  | built (v : V)
  | ready (v : V)
  | mark

/-- What a task holds: nothing, the ticket of a call with `k` items published, the
right to close, or the cutoff. -/
inductive Role (V : Type)
  | out
  | put (w : Put V) (idx k : Nat) (accepted : Bool)
  | winner
  | closer (c : Nat)

variable {V : Type}

def Role.Covers : Role V → Nat → Prop
  | put w idx _ _, n => idx ≤ n ∧ n < idx + w.count
  | closer c, n => n = c
  | out, _ | winner, _ => False

theorem Role.covers_put {w : Put V} {idx k i : Nat} {acc : Bool} (hi : i < w.count) :
    (Role.put w idx k acc).Covers (idx + i) := ⟨Nat.le_add_right .., Nat.add_lt_add_left hi _⟩

def Post.Covers (x : Post V) (n : Nat) : Prop := x.ticket ≤ n ∧ n < x.ticket + x.put.count

structure Ledger (V : Type) where
  write : Nat
  read : Nat
  stage : Nat → Stage V
  closed : Bool
  cut : Option Nat
  role : Tid → Role V
  posts : List (Post V)

namespace Ledger

/-- The ticket of a call in progress. -/
structure PutOk (g : Ledger V) (w : Put V) (idx k : Nat) (accepted : Bool) : Prop where
  pos : 0 < w.count
  le : k ≤ w.count
  top : idx + w.count ≤ g.write
  done : ∀ i < k, g.stage (idx + i) = .ready (w.item i)
  todo : ∀ i, k < i → i < w.count → g.stage (idx + i) = .blank
  next : k < w.count → g.stage (idx + k) = .blank ∨ g.stage (idx + k) = .built (w.item k)
  fresh : accepted = false → ∀ i < w.count, g.stage (idx + i) = .blank
  cutoff : ∀ c, g.cut = some c → idx + w.count ≤ c ∨ accepted = false ∧ c < idx

/-- A call that has returned. -/
structure PostOk (g : Ledger V) (x : Post V) : Prop where
  pos : 0 < x.put.count
  top : x.ticket + x.put.count ≤ g.write
  accepted : x.ok = true → (∀ i < x.put.count, g.stage (x.ticket + i) = .ready (x.put.item i)) ∧
    ∀ c, g.cut = some c → x.ticket + x.put.count ≤ c
  rejected : x.ok = false → (∀ i < x.put.count, g.stage (x.ticket + i) = .blank) ∧
    ∃ c, g.cut = some c ∧ c < x.ticket

structure Ok (g : Ledger V) : Prop where
  read_le : g.read ≤ g.write
  unused : ∀ n, g.write ≤ n → g.stage n = .blank
  released : ∀ n < g.read, ∃ v, g.stage n = .ready v
  put : ∀ p w idx k acc, g.role p = .put w idx k acc → g.PutOk w idx k acc
  closer : ∀ p c, g.role p = .closer c → g.cut = some c
  owner : ∀ p q n, (g.role p).Covers n → (g.role q).Covers n → p = q
  post : ∀ x ∈ g.posts, g.PostOk x
  posted : ∀ x ∈ g.posts, ∀ n, x.Covers n → ∀ p, ¬(g.role p).Covers n
  apart : g.posts.Pairwise fun x y => ∀ n, x.Covers n → ¬y.Covers n
  cover : ∀ n < g.write,
    (∃ x ∈ g.posts, x.Covers n) ∨ (∃ p, (g.role p).Covers n) ∨ g.cut = some n
  cut : ∀ c, g.cut = some c → c < g.write ∧ g.closed = true ∧
    (g.stage c = .mark ∨ g.stage c = .blank ∧ ∃ p, g.role p = .closer c)
  mark : ∀ n, g.stage n = .mark → g.cut = some n
  winner : ∀ p, g.role p = .winner →
    g.closed = true ∧ g.cut = none ∧ ∀ q, g.role q = .winner → q = p
  won : g.closed = true → g.cut = none → ∃ p, g.role p = .winner

variable {g g' : Ledger V} {p q : Tid} {w : Put V} {idx k n : Nat} {acc : Bool}

/-! ## Consequences -/

theorem Ok.opened (h : g.Ok) (hc : g.closed = false) : g.cut = none := by
  cases hcut : g.cut with
  | none => rfl
  | some c => exact absurd (h.cut c hcut).2.1 (by simp [hc])

theorem Ok.covers_lt (h : g.Ok) (hn : (g.role p).Covers n) : n < g.write := by
  cases hr : g.role p with
  | put w idx k acc =>
    rw [hr] at hn
    exact hn.2.trans_le (h.put p w idx k acc hr).top
  | closer c =>
    rw [hr] at hn
    exact hn.symm ▸ (h.cut c (h.closer p c hr)).1
  | out | winner =>
    rw [hr] at hn
    exact hn.elim

theorem Ok.post_lt (h : g.Ok) {x : Post V} (hx : x ∈ g.posts) (hn : x.Covers n) : n < g.write :=
  hn.2.trans_le (h.post x hx).top

/-- An index that is not ready has not been released. -/
theorem Ok.read_le_of (h : g.Ok) (hn : ∀ v, g.stage n ≠ .ready v) : g.read ≤ n := by
  by_contra hlt
  obtain ⟨v, hv⟩ := h.released n (by omega)
  exact hn v hv

theorem PutOk.stage_next (h : g.PutOk w idx k acc) (hk : k < w.count) (v : V) :
    g.stage (idx + k) ≠ .ready v := by
  rcases h.next hk with hs | hs <;> simp [hs]

theorem PutOk.read_le (h : g.PutOk w idx k acc) (hg : g.Ok) (hk : k < w.count) :
    g.read ≤ idx + k := hg.read_le_of (h.stage_next hk)

/-- The indices of a put are apart from the cutoff. -/
theorem PutOk.ne_cut (h : g.PutOk w idx k acc) {c i : Nat} (hc : g.cut = some c)
    (hi : i < w.count) : c ≠ idx + i := by
  rcases h.cutoff c hc with hle | ⟨-, hlt⟩ <;> omega

/-! ## Moves -/

/-- Nothing changes for a ticket whose indices are left alone. -/
theorem PutOk.mono (h : g.PutOk w idx k acc) (hw : g.write ≤ g'.write)
    (hs : ∀ n, idx ≤ n → n < idx + w.count → g'.stage n = g.stage n)
    (hc : ∀ c, g'.cut = some c → g.cut = some c ∨ g.write ≤ c) : g'.PutOk w idx k acc where
  pos := h.pos
  le := h.le
  top := h.top.trans hw
  done i hi := by
    have hle := h.le
    rw [hs _ (by omega) (by omega)]
    exact h.done i hi
  todo i hk hi := by
    rw [hs _ (by omega) (by omega)]
    exact h.todo i hk hi
  next hk := by
    rw [hs _ (by omega) (by omega)]
    exact h.next hk
  fresh ha i hi := by
    rw [hs _ (by omega) (by omega)]
    exact h.fresh ha i hi
  cutoff c hcut := by
    rcases hc c hcut with hc | hc
    · exact h.cutoff c hc
    · exact .inl (h.top.trans hc)

theorem PostOk.mono {x : Post V} (h : g.PostOk x) (hw : g.write ≤ g'.write)
    (hs : ∀ n, x.Covers n → g'.stage n = g.stage n)
    (hc : ∀ c, g'.cut = some c → g.cut = some c ∨ g.write ≤ c)
    (hc' : ∀ c, g.cut = some c → g'.cut = some c) : g'.PostOk x where
  pos := h.pos
  top := h.top.trans hw
  accepted ha := by
    refine ⟨fun i hi => ?_, fun c hcut => ?_⟩
    · rw [hs _ ⟨Nat.le_add_right .., by omega⟩]
      exact (h.accepted ha).1 i hi
    · rcases hc c hcut with hc | hc
      · exact (h.accepted ha).2 c hc
      · exact h.top.trans hc
  rejected ha := by
    obtain ⟨hb, c, hcut, hlt⟩ := h.rejected ha
    refine ⟨fun i hi => ?_, c, hc' c hcut, hlt⟩
    rw [hs _ ⟨Nat.le_add_right .., by omega⟩]
    exact hb i hi

/-- A task changes what it holds and leaves the indices of the others alone. -/
theorem Ok.hold (h : g.Ok) {r : Role V} {f : Nat → Stage V}
    (hr : ∀ n, r.Covers n ↔ (g.role p).Covers n) (hold : r ≠ .winner)
    (hp : g.role p ≠ .winner)
    (hs : ∀ n, ¬(g.role p).Covers n → f n = g.stage n)
    (hready : ∀ n v, g.stage n = .ready v → f n = .ready v)
    (hput : ∀ w idx k acc, r = .put w idx k acc →
      Ledger.PutOk { g with stage := f } w idx k acc)
    (hcloser : ∀ c, r = .closer c ↔ g.role p = .closer c)
    (hcut : ∀ c, g.cut = some c → f c = .mark ∨ f c = g.stage c)
    (hmark : ∀ n, f n = .mark → g.cut = some n) :
    Ok { g with stage := f, role := Function.update g.role p r } := by
  have hrole : ∀ q, Function.update g.role p r q = if q = p then r else g.role q :=
    fun q => Function.update_apply ..
  have hcov : ∀ q n, (Function.update g.role p r q).Covers n ↔ (g.role q).Covers n := by
    intro q n
    rw [hrole]
    split
    · next hq => rw [hq, hr]
    · rfl
  have hother : ∀ q, q ≠ p → ∀ n, (g.role q).Covers n → f n = g.stage n :=
    fun q hq n hn => hs n fun hn' => hq (h.owner q p n hn hn')
  constructor
  · exact h.read_le
  · exact fun n hn => (hs n fun hn' => absurd (h.covers_lt hn') (Nat.not_lt.mpr hn)).trans
      (h.unused n hn)
  · intro n hn
    obtain ⟨v, hv⟩ := h.released n hn
    exact ⟨v, hready n v hv⟩
  · intro q w idx k acc hq
    dsimp only at hq
    rw [hrole] at hq
    split at hq
    · have hok := hput w idx k acc hq
      exact hok.mono le_rfl (fun _ _ _ => rfl) fun c hc => .inl hc
    · next hne =>
      refine (h.put q w idx k acc hq).mono le_rfl (fun n hn hn' => ?_) fun c hc => .inl hc
      exact hother q hne n (by rw [hq]; exact ⟨hn, hn'⟩)
  · intro q c hq
    dsimp only at hq
    rw [hrole] at hq
    split at hq
    · exact h.closer p c ((hcloser c).mp hq)
    · exact h.closer q c hq
  · intro q q' n hn hn'
    exact h.owner q q' n ((hcov q n).mp hn) ((hcov q' n).mp hn')
  · intro x hx
    refine (h.post x hx).mono le_rfl (fun n hn => ?_) (fun c hc => .inl hc) fun c hc => hc
    exact hs n (h.posted x hx n hn p)
  · exact fun x hx n hxn q hn => h.posted x hx n hxn q ((hcov q n).mp hn)
  · exact h.apart
  · intro n hn
    refine (h.cover n hn).imp_right (Or.imp_left ?_)
    rintro ⟨q, hq⟩
    exact ⟨q, (hcov q n).mpr hq⟩
  · intro c hc
    obtain ⟨hlt, hclosed, hst⟩ := h.cut c hc
    refine ⟨hlt, hclosed, ?_⟩
    rcases hcut c hc with hm | heq
    · exact .inl hm
    · dsimp only
      rw [heq]
      refine hst.imp_right ?_
      rintro ⟨hb, q, hq⟩
      refine ⟨hb, q, ?_⟩
      rw [hrole]
      split
      · next hqp => exact (hcloser c).mpr (hqp ▸ hq)
      · exact hq
  · exact hmark
  · intro q hq
    dsimp only at hq
    rw [hrole] at hq
    split at hq
    · exact absurd hq hold
    · obtain ⟨hclosed, hcut, hone⟩ := h.winner q hq
      refine ⟨hclosed, hcut, fun q' hq' => ?_⟩
      dsimp only at hq'
      rw [hrole] at hq'
      split at hq'
      · exact absurd hq' hold
      · exact hone q' hq'
  · intro hclosed hcut
    obtain ⟨q, hq⟩ := h.won hclosed hcut
    refine ⟨q, ?_⟩
    dsimp only
    rw [hrole, if_neg]
    · exact hq
    · rintro rfl
      exact hp hq

/-- A task has passed the closed test. -/
def accept (g : Ledger V) (p : Tid) (w : Put V) (idx k : Nat) : Ledger V :=
  { g with role := Function.update g.role p (.put w idx k true) }

theorem Ok.accept (h : g.Ok) (hp : g.role p = .put w idx k acc)
    (hc : ∀ c, g.cut = some c → idx + w.count ≤ c) : (g.accept p w idx k).Ok := by
  have hput := h.put p w idx k acc hp
  refine h.hold (r := .put w idx k true) (fun n => by rw [hp]; rfl) (by simp) (by simp [hp])
    (fun _ _ => rfl) (fun _ _ hv => hv) ?_ (by simp [hp]) (fun _ _ => .inr rfl) h.mark
  intro w' idx' k' acc' heq
  cases heq
  exact { hput with
    fresh := by simp
    cutoff := fun c hcut => .inl (hc c hcut) }

/-- A value is constructed for the next item. -/
def build (g : Ledger V) (w : Put V) (idx k : Nat) : Ledger V :=
  { g with stage := Function.update g.stage (idx + k) (.built (w.item k)) }

theorem Ok.build (h : g.Ok) (hp : g.role p = .put w idx k true) (hk : k < w.count) :
    (g.build w idx k).Ok := by
  have hput := h.put p w idx k true hp
  have hstage : ∀ n, n ≠ idx + k → Function.update g.stage (idx + k) (.built (w.item k)) n =
      g.stage n := fun n hn => Function.update_of_ne hn ..
  have hne : ∀ c, g.cut = some c → c ≠ idx + k := fun c hc => hput.ne_cut hc hk
  have hok := h.hold (p := p) (r := .put w idx k true)
    (f := Function.update g.stage (idx + k) (.built (w.item k)))
    (fun n => by rw [hp]) (by simp) (by simp [hp])
    (fun n hn => hstage n fun heq => hn (by rw [hp, heq]; exact Role.covers_put hk))
    (fun n v hv => (hstage n fun heq => hput.stage_next hk v (heq ▸ hv)).trans hv) ?_
    (by simp [hp]) (fun c hc => .inr (hstage c (hne c hc))) ?_
  · rw [show Function.update g.role p (.put w idx k true) = g.role by
      rw [← hp, Function.update_eq_self]] at hok
    exact hok
  · intro w' idx' k' acc' heq
    cases heq
    exact
      { pos := hput.pos
        le := hput.le
        top := hput.top
        done := fun i hi => (hstage _ (by omega)).trans (hput.done i hi)
        todo := fun i hki hi => (hstage _ (by omega)).trans (hput.todo i hki hi)
        next := fun _ => .inr (Function.update_self ..)
        fresh := by simp
        cutoff := hput.cutoff }
  · intro n hn
    by_cases heq : n = idx + k
    · rw [heq, Function.update_self] at hn
      cases hn
    · rw [hstage n heq] at hn
      exact h.mark n hn

/-- The next item is published. -/
def publish (g : Ledger V) (p : Tid) (w : Put V) (idx k : Nat) : Ledger V :=
  { g with
    stage := Function.update g.stage (idx + k) (.ready (w.item k))
    role := Function.update g.role p (.put w idx (k + 1) true) }

theorem Ok.publish (h : g.Ok) (hp : g.role p = .put w idx k true) (hk : k < w.count) :
    (g.publish p w idx k).Ok := by
  have hput := h.put p w idx k true hp
  have hstage : ∀ n, n ≠ idx + k → Function.update g.stage (idx + k) (.ready (w.item k)) n =
      g.stage n := fun n hn => Function.update_of_ne hn ..
  have hne : ∀ c, g.cut = some c → c ≠ idx + k := fun c hc => hput.ne_cut hc hk
  refine h.hold (p := p) (r := .put w idx (k + 1) true)
    (fun n => by rw [hp]; rfl) (by simp) (by simp [hp])
    (fun n hn => hstage n fun heq => hn (by rw [hp, heq]; exact Role.covers_put hk))
    (fun n v hv => (hstage n fun heq => hput.stage_next hk v (heq ▸ hv)).trans hv) ?_
    (by simp [hp]) (fun c hc => .inr (hstage c (hne c hc))) ?_
  · intro w' idx' k' acc' heq
    cases heq
    refine
      { pos := hput.pos
        le := hk
        top := hput.top
        done := fun i hi => ?_
        todo := fun i hki hi => (hstage _ (by omega)).trans (hput.todo i (by omega) hi)
        next := fun hk' => .inl ((hstage _ (by omega)).trans (hput.todo _ (by omega) hk'))
        fresh := by simp
        cutoff := hput.cutoff }
    by_cases hik : i = k
    · rw [hik]
      exact Function.update_self ..
    · exact (hstage _ (by omega)).trans (hput.done i (by omega))
  · intro n hn
    by_cases heq : n = idx + k
    · rw [heq, Function.update_self] at hn
      cases hn
    · rw [hstage n heq] at hn
      exact h.mark n hn

/-- The sentinel is published. -/
def setMark (g : Ledger V) (c : Nat) : Ledger V :=
  { g with stage := Function.update g.stage c .mark }

theorem Ok.setMark (h : g.Ok) {c : Nat} (hp : g.role p = .closer c) (hc : g.stage c = .blank) :
    (g.setMark c).Ok := by
  have hcut := h.closer p c hp
  have hstage : ∀ n, n ≠ c → Function.update g.stage c .mark n = g.stage n :=
    fun n hn => Function.update_of_ne hn ..
  have hok := h.hold (p := p) (r := .closer c) (f := Function.update g.stage c .mark)
    (fun n => by rw [hp]) (by simp) (by simp [hp])
    (fun n hn => hstage n fun heq => hn (by rw [hp]; exact heq))
    (fun n v hv => (hstage n fun heq => by rw [heq, hc] at hv; cases hv).trans hv)
    (by simp) (by simp [hp]) ?_ ?_
  · rw [show Function.update g.role p (.closer c) = g.role by
      rw [← hp, Function.update_eq_self]] at hok
    exact hok
  · intro c' hc'
    cases hcut.symm.trans hc'
    exact .inl (Function.update_self ..)
  · intro n hn
    by_cases heq : n = c
    · rw [heq]
      exact hcut
    · rw [hstage n heq] at hn
      exact h.mark n hn

/-- A task takes a ticket for its items. -/
def reserve (g : Ledger V) (p : Tid) (w : Put V) : Ledger V :=
  { g with
    write := g.write + w.count
    role := Function.update g.role p (.put w g.write 0 false) }

theorem Ok.reserve (h : g.Ok) (hp : g.role p = .out) (hw : 0 < w.count) : (g.reserve p w).Ok := by
  have hrole : ∀ q, (g.reserve p w).role q =
      if q = p then .put w g.write 0 false else g.role q := fun q => Function.update_apply ..
  have hlt : ∀ {q n}, (g.role q).Covers n → n < g.write := fun hn => h.covers_lt hn
  have hnew : ∀ q n, ((g.reserve p w).role q).Covers n →
      q = p ∧ g.write ≤ n ∨ q ≠ p ∧ (g.role q).Covers n := by
    intro q n hn
    rw [hrole] at hn
    split at hn
    · next hq => exact .inl ⟨hq, hn.1⟩
    · next hq => exact .inr ⟨hq, hn⟩
  refine ⟨h.read_le.trans (Nat.le_add_right ..), fun n hn => h.unused n (by
    have : g.write + w.count ≤ n := hn
    omega), h.released, ?_, ?_, ?_, ?_, ?_, h.apart, ?_, ?_, h.mark, ?_, ?_⟩
  · intro q w' idx k acc hq
    rw [hrole] at hq
    split at hq
    · cases hq
      exact
        { pos := hw
          le := Nat.zero_le _
          top := le_rfl
          done := fun i hi => absurd hi (Nat.not_lt_zero _)
          todo := fun i _ _ => h.unused _ (Nat.le_add_right ..)
          next := fun _ => .inl (h.unused _ (Nat.le_add_right ..))
          fresh := fun _ i _ => h.unused _ (Nat.le_add_right ..)
          cutoff := fun c hc => .inr ⟨rfl, (h.cut c hc).1⟩ }
    · exact (h.put q w' idx k acc hq).mono (Nat.le_add_right ..) (fun _ _ _ => rfl)
        fun c hc => .inl hc
  · intro q c hq
    rw [hrole] at hq
    split at hq
    · cases hq
    · exact h.closer q c hq
  · intro q q' n hn hn'
    rcases hnew q n hn with ⟨hq, hge⟩ | ⟨-, hn⟩ <;> rcases hnew q' n hn' with ⟨hq', hge'⟩ | ⟨-, hn'⟩
    · rw [hq, hq']
    · exact absurd (hlt hn') (by omega)
    · exact absurd (hlt hn) (by omega)
    · exact h.owner q q' n hn hn'
  · exact fun x hx => (h.post x hx).mono (Nat.le_add_right ..) (fun _ _ => rfl)
      (fun c hc => .inl hc) fun c hc => hc
  · intro x hx n hxn q hn
    rcases hnew q n hn with ⟨-, hge⟩ | ⟨-, hn⟩
    · exact absurd (h.post_lt hx hxn) (by omega)
    · exact h.posted x hx n hxn q hn
  · intro n hn
    rcases Nat.lt_or_ge n g.write with hlt | hge
    · rcases h.cover n hlt with hx | ⟨q, hq⟩ | hc
      · exact .inl hx
      · refine .inr (.inl ⟨q, ?_⟩)
        rw [hrole, if_neg]
        · exact hq
        · rintro rfl
          rw [hp] at hq
          exact hq
      · exact .inr (.inr hc)
    · refine .inr (.inl ⟨p, ?_⟩)
      rw [hrole, if_pos rfl]
      exact ⟨hge, hn⟩
  · intro c hc
    obtain ⟨hlt, hclosed, hs⟩ := h.cut c hc
    refine ⟨hlt.trans_le (Nat.le_add_right ..), hclosed, hs.imp_right ?_⟩
    rintro ⟨hs, q, hq⟩
    refine ⟨hs, q, ?_⟩
    rw [hrole, if_neg]
    · exact hq
    · rintro rfl
      cases hp.symm.trans hq
  · intro q hq
    rw [hrole] at hq
    split at hq
    · cases hq
    · obtain ⟨hclosed, hcut, hone⟩ := h.winner q hq
      refine ⟨hclosed, hcut, fun q' hq' => ?_⟩
      rw [hrole] at hq'
      split at hq'
      · cases hq'
      · exact hone q' hq'
  · intro hclosed hcut
    obtain ⟨q, hq⟩ := h.won hclosed hcut
    refine ⟨q, ?_⟩
    rw [hrole, if_neg]
    · exact hq
    · rintro rfl
      cases hp.symm.trans hq

/-- The call returns. -/
def reply (g : Ledger V) (p : Tid) (x : Post V) : Ledger V :=
  { g with role := Function.update g.role p .out, posts := g.posts ++ [x] }

theorem Ok.reply (h : g.Ok) (hp : g.role p = .put w idx k acc) {x : Post V}
    (hx : x.ticket = idx ∧ x.put = w) (hok : g.PostOk x) : (g.reply p x).Ok := by
  obtain ⟨rfl, rfl⟩ := hx
  have hrole : ∀ q, (g.reply p x).role q = if q = p then .out else g.role q :=
    fun q => Function.update_apply ..
  have hcov : ∀ q n, ((g.reply p x).role q).Covers n → q ≠ p ∧ (g.role q).Covers n := by
    intro q n hn
    rw [hrole] at hn
    split at hn
    · exact hn.elim
    · next hq => exact ⟨hq, hn⟩
  have hxp : ∀ n, x.Covers n ↔ (g.role p).Covers n := fun n => by rw [hp]; rfl
  have hmem : ∀ y ∈ (g.reply p x).posts, y ∈ g.posts ∨ y = x := by
    intro y hy
    rcases List.mem_append.mp hy with hy | hy
    · exact .inl hy
    · exact .inr (List.mem_singleton.mp hy)
  have hposts : (g.reply p x).posts = g.posts ++ [x] := rfl
  have hkeep : ∀ q r, r ≠ .out → (g.reply p x).role q = r → q ≠ p ∧ g.role q = r := by
    intro q r hr hq
    rw [hrole] at hq
    split at hq
    · exact absurd hq.symm hr
    · next hne => exact ⟨hne, hq⟩
  constructor
  · exact h.read_le
  · exact h.unused
  · exact h.released
  · intro q w' idx' k' acc' hq
    exact (h.put q w' idx' k' acc' (hkeep q _ (by simp) hq).2).mono le_rfl (fun _ _ _ => rfl)
      fun c hc => .inl hc
  · exact fun q c hq => h.closer q c (hkeep q _ (by simp) hq).2
  · exact fun q q' n hn hn' => h.owner q q' n (hcov q n hn).2 (hcov q' n hn').2
  · intro y hy
    rcases hmem y hy with hy | rfl
    · exact (h.post y hy).mono le_rfl (fun _ _ => rfl) (fun c hc => .inl hc) fun c hc => hc
    · exact hok.mono le_rfl (fun _ _ => rfl) (fun c hc => .inl hc) fun c hc => hc
  · intro y hy n hyn q hn
    obtain ⟨hqp, hn'⟩ := hcov q n hn
    rcases hmem y hy with hy | rfl
    · exact h.posted y hy n hyn q hn'
    · exact hqp (h.owner q p n hn' ((hxp n).mp hyn))
  · rw [hposts, List.pairwise_append]
    refine ⟨h.apart, List.pairwise_singleton .., fun y hy z hz n hyn hzn => ?_⟩
    rw [List.mem_singleton.mp hz] at hzn
    exact h.posted y hy n hyn p ((hxp n).mp hzn)
  · intro n hn
    rcases h.cover n hn with ⟨y, hy, hyn⟩ | ⟨q, hq⟩ | hc
    · exact .inl ⟨y, List.mem_append_left _ hy, hyn⟩
    · by_cases hqp : q = p
      · subst hqp
        exact .inl ⟨x, by simp [hposts], (hxp n).mpr hq⟩
      · refine .inr (.inl ⟨q, ?_⟩)
        rw [hrole, if_neg hqp]
        exact hq
    · exact .inr (.inr hc)
  · intro c hc
    obtain ⟨hlt, hclosed, hs⟩ := h.cut c hc
    refine ⟨hlt, hclosed, hs.imp_right ?_⟩
    rintro ⟨hs, q, hq⟩
    refine ⟨hs, q, ?_⟩
    rw [hrole, if_neg]
    · exact hq
    · rintro rfl
      cases hp.symm.trans hq
  · exact h.mark
  · intro q hq
    obtain ⟨hclosed, hcut, hone⟩ := h.winner q (hkeep q _ (by simp) hq).2
    exact ⟨hclosed, hcut, fun q' hq' => hone q' (hkeep q' _ (by simp) hq').2⟩
  · intro hclosed hcut
    obtain ⟨q, hq⟩ := h.won hclosed hcut
    refine ⟨q, ?_⟩
    rw [hrole, if_neg]
    · exact hq
    · rintro rfl
      cases hp.symm.trans hq

/-- A call whose items are all published returns true. -/
theorem Ok.postOk_true (h : g.Ok) {t : Tid} (hp : g.role p = .put w idx w.count true) :
    g.PostOk ⟨t, idx, w, true⟩ := by
  have hput := h.put p w idx _ true hp
  refine ⟨hput.pos, hput.top, fun _ => ⟨hput.done, fun c hc => ?_⟩, by simp⟩
  rcases hput.cutoff c hc with hle | ⟨ha, -⟩
  · exact hle
  · cases ha

/-- A call past the cutoff returns false. -/
theorem Ok.postOk_false (h : g.Ok) {t : Tid} (hp : g.role p = .put w idx k false) {c : Nat}
    (hc : g.cut = some c) (hlt : c < idx) : g.PostOk ⟨t, idx, w, false⟩ := by
  have hput := h.put p w idx k false hp
  exact ⟨hput.pos, hput.top, by simp, fun _ => ⟨hput.fresh rfl, c, hc, hlt⟩⟩

/-- A task wins the right to close. -/
def win (g : Ledger V) (p : Tid) : Ledger V :=
  { g with closed := true, role := Function.update g.role p .winner }

theorem Ok.win (h : g.Ok) (hp : g.role p = .out) (hc : g.closed = false) : (g.win p).Ok := by
  have hrole : ∀ q, (g.win p).role q = if q = p then .winner else g.role q :=
    fun q => Function.update_apply ..
  have hcut := h.opened hc
  have hnone : ∀ q, g.role q ≠ .winner := fun q hq => by
    have hcl := (h.winner q hq).1
    rw [hc] at hcl
    cases hcl
  have hkeep : ∀ q r, r ≠ .winner → (g.win p).role q = r → g.role q = r := by
    intro q r hr hq
    rw [hrole] at hq
    split at hq
    · exact absurd hq.symm hr
    · exact hq
  have hcov : ∀ q n, ((g.win p).role q).Covers n ↔ (g.role q).Covers n := by
    intro q n
    rw [hrole]
    split
    · next hq =>
      rw [hq, hp]
      exact Iff.rfl
    · rfl
  constructor
  · exact h.read_le
  · exact h.unused
  · exact h.released
  · intro q w' idx' k' acc' hq
    exact (h.put q w' idx' k' acc' (hkeep q _ (by simp) hq)).mono le_rfl (fun _ _ _ => rfl)
      fun c hc => .inl hc
  · exact fun q c hq => h.closer q c (hkeep q _ (by simp) hq)
  · exact fun q q' n hn hn' => h.owner q q' n ((hcov q n).mp hn) ((hcov q' n).mp hn')
  · exact fun x hx => (h.post x hx).mono le_rfl (fun _ _ => rfl) (fun c hc => .inl hc)
      fun c hc => hc
  · exact fun x hx n hxn q hn => h.posted x hx n hxn q ((hcov q n).mp hn)
  · exact h.apart
  · intro n hn
    refine (h.cover n hn).imp_right (Or.imp_left ?_)
    rintro ⟨q, hq⟩
    exact ⟨q, (hcov q n).mpr hq⟩
  · intro c hc'
    cases hcut.symm.trans hc'
  · exact h.mark
  · intro q hq
    refine ⟨rfl, hcut, fun q' hq' => ?_⟩
    rw [hrole] at hq hq'
    split at hq'
    · next hq'p =>
      split at hq
      · next hqp => rw [hq'p, hqp]
      · exact absurd hq (hnone q)
    · exact absurd hq' (hnone q')
  · intro _ _
    refine ⟨p, ?_⟩
    rw [hrole, if_pos rfl]

/-- The winner takes the sentinel's ticket. -/
def takeCut (g : Ledger V) (p : Tid) : Ledger V :=
  { g with
    write := g.write + 1
    cut := some g.write
    role := Function.update g.role p (.closer g.write) }

theorem Ok.takeCut (h : g.Ok) (hp : g.role p = .winner) : (g.takeCut p).Ok := by
  obtain ⟨hclosed, hcut, hone⟩ := h.winner p hp
  have hrole : ∀ q, (g.takeCut p).role q = if q = p then .closer g.write else g.role q :=
    fun q => Function.update_apply ..
  have hcov : ∀ q n, ((g.takeCut p).role q).Covers n →
      q = p ∧ n = g.write ∨ q ≠ p ∧ (g.role q).Covers n := by
    intro q n hn
    rw [hrole] at hn
    split at hn
    · next hq => exact .inl ⟨hq, hn⟩
    · next hq => exact .inr ⟨hq, hn⟩
  have hnew : ∀ c, (g.takeCut p).cut = some c → g.cut = some c ∨ g.write ≤ c := by
    intro c hc
    cases hc
    exact .inr le_rfl
  constructor
  · exact h.read_le.trans (Nat.le_succ _)
  · exact fun n hn => h.unused n ((Nat.le_succ _).trans hn)
  · exact h.released
  · intro q w' idx' k' acc' hq
    rw [hrole] at hq
    split at hq
    · cases hq
    · exact (h.put q w' idx' k' acc' hq).mono (Nat.le_succ _) (fun _ _ _ => rfl) hnew
  · intro q c hq
    rw [hrole] at hq
    split at hq
    · cases hq
      rfl
    · exact absurd (h.closer q c hq) (by simp [hcut])
  · intro q q' n hn hn'
    rcases hcov q n hn with ⟨hq, rfl⟩ | ⟨-, hn⟩ <;> rcases hcov q' _ hn' with ⟨hq', hn'⟩ | ⟨-, hn'⟩
    · rw [hq, hq']
    · exact absurd (h.covers_lt hn') (Nat.lt_irrefl _)
    · exact absurd (h.covers_lt hn) (by omega)
    · exact h.owner q q' n hn hn'
  · intro x hx
    exact (h.post x hx).mono (Nat.le_succ _) (fun _ _ => rfl) hnew
      fun c hc => by cases hcut.symm.trans hc
  · intro x hx n hxn q hn
    rcases hcov q n hn with ⟨-, rfl⟩ | ⟨-, hn⟩
    · exact absurd (h.post_lt hx hxn) (Nat.lt_irrefl _)
    · exact h.posted x hx n hxn q hn
  · exact h.apart
  · intro n hn
    rcases Nat.lt_or_ge n g.write with hlt | hge
    · rcases h.cover n hlt with hx | ⟨q, hq⟩ | hc
      · exact .inl hx
      · refine .inr (.inl ⟨q, ?_⟩)
        rw [hrole, if_neg]
        · exact hq
        · rintro rfl
          rw [hp] at hq
          exact hq
      · cases hcut.symm.trans hc
    · have hlt : n < g.write + 1 := hn
      refine .inr (.inr (congrArg some ?_))
      omega
  · intro c hc
    cases hc
    refine ⟨Nat.lt_succ_self _, hclosed, .inr ⟨h.unused _ le_rfl, p, ?_⟩⟩
    rw [hrole, if_pos rfl]
  · exact fun n hn => by cases hcut.symm.trans (h.mark n hn)
  · intro q hq
    rw [hrole] at hq
    split at hq
    · cases hq
    · next hqp => exact absurd (hone q hq) hqp
  · intro _ hc
    cases hc

/-- The closer is done. -/
def leave (g : Ledger V) (p : Tid) : Ledger V :=
  { g with role := Function.update g.role p .out }

theorem Ok.leave (h : g.Ok) {c : Nat} (hp : g.role p = .closer c) (hc : g.stage c = .mark) :
    (g.leave p).Ok := by
  have hcut := h.closer p c hp
  have hrole : ∀ q, (g.leave p).role q = if q = p then .out else g.role q :=
    fun q => Function.update_apply ..
  have hcov : ∀ q n, ((g.leave p).role q).Covers n → (g.role q).Covers n := by
    intro q n hn
    rw [hrole] at hn
    split at hn
    · exact hn.elim
    · exact hn
  have hkeep : ∀ q r, r ≠ .out → (g.leave p).role q = r → g.role q = r := by
    intro q r hr hq
    rw [hrole] at hq
    split at hq
    · exact absurd hq.symm hr
    · exact hq
  constructor
  · exact h.read_le
  · exact h.unused
  · exact h.released
  · intro q w' idx' k' acc' hq
    exact (h.put q w' idx' k' acc' (hkeep q _ (by simp) hq)).mono le_rfl (fun _ _ _ => rfl)
      fun c hc => .inl hc
  · exact fun q c hq => h.closer q c (hkeep q _ (by simp) hq)
  · exact fun q q' n hn hn' => h.owner q q' n (hcov q n hn) (hcov q' n hn')
  · exact fun x hx => (h.post x hx).mono le_rfl (fun _ _ => rfl) (fun c hc => .inl hc)
      fun c hc => hc
  · exact fun x hx n hxn q hn => h.posted x hx n hxn q (hcov q n hn)
  · exact h.apart
  · intro n hn
    rcases h.cover n hn with hx | ⟨q, hq⟩ | hn
    · exact .inl hx
    · by_cases hqp : q = p
      · rw [hqp, hp] at hq
        refine .inr (.inr ?_)
        rw [show n = c from hq]
        exact hcut
      · refine .inr (.inl ⟨q, ?_⟩)
        rw [hrole, if_neg hqp]
        exact hq
    · exact .inr (.inr hn)
  · intro c' hc'
    cases hcut.symm.trans hc'
    exact ⟨(h.cut c hcut).1, (h.cut c hcut).2.1, .inl hc⟩
  · exact h.mark
  · intro q hq
    have hq' := (h.winner q (hkeep q _ (by simp) hq)).2.1
    cases hcut.symm.trans hq'
  · intro _ hc'
    cases hcut.symm.trans hc'

/-- The consumer releases the next value. -/
def advance (g : Ledger V) : Ledger V := { g with read := g.read + 1 }

theorem Ok.advance (h : g.Ok) {v : V} (hv : g.stage g.read = .ready v) : g.advance.Ok := by
  have hlt : g.read < g.write := by
    by_contra hge
    cases hv.symm.trans (h.unused g.read (by omega))
  exact
    { h with
      read_le := hlt
      released := fun n hn => by
        rcases Nat.lt_or_ge n g.read with hn' | hge
        · exact h.released n hn'
        · have hn : n < g.read + 1 := hn
          exact ⟨v, by rw [show n = g.read by omega]; exact hv⟩
      put := fun p w idx k acc hp => (h.put p w idx k acc hp).mono le_rfl (fun _ _ _ => rfl)
        fun c hc => .inl hc
      post := fun x hx => (h.post x hx).mono le_rfl (fun _ _ => rfl) (fun c hc => .inl hc)
        fun c hc => hc }

end Ledger

end CoroUtil.MpscUnbounded
