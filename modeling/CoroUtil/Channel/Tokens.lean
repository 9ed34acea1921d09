import CoroUtil.Channel.Owner

/-!
# The tokens own their hazard pointers

A step does one of the things that `Ring` allows: `get_hazard_ptr` takes a hazard
pointer or allocates and links one, a token gives its own up, or a move hands it on.
`hazards_owned` says what this means for the tokens, and for `~channel`, which
deletes every hazard pointer once.
-/

namespace CoroUtil.Channel

open CoroUtil.Blocks CoroUtil.General

variable {V : Type} {s s₁ s' : State V} {l : List Nat} {t u : Tid} {z p n : Nat} {k : Token V}
  {cfg : Config} {o : Offsets} {c : Call V} {a : Acquire}

namespace State

def view (s : State V) (t : Tid) : View := (s.token t).view

def owned (s : State V) (z : Nat) : Bool := (s.hazard z).owned

def next (s : State V) (z : Nat) : Nat := (s.hazard z).next

theorem view_setToken : (s.setToken t k).view = Function.update s.view t k.view := by
  funext u
  rw [view, token_setToken, Function.update_apply]
  split <;> rfl

theorem view_setPc {pc : Pc V} :
    (s.setPc t pc).view = Function.update s.view t { s.view t with role := pc.role } :=
  view_setToken

theorem owned_setHazard {x : HazardPtr} :
    (s.setHazard z x).owned = Function.update s.owned z x.owned := by
  funext y
  rw [owned, hazard_setHazard, Function.update_apply]
  split <;> rfl

theorem next_setHazard {x : HazardPtr} :
    (s.setHazard z x).next = Function.update s.next z x.next := by
  funext y
  rw [next, hazard_setHazard, Function.update_apply]
  split <;> rfl

end State

/-- `l` is the cycle of the hazard pointers of the channel. -/
def Hazards (s : State V) (l : List Nat) : Prop := Ring s.view s.owned s.next s.hazards l

namespace Hazards

theorem same {w : Option Nat} (h : Hazards s l) (hs : Same w s s₁) : Hazards s₁ l := by
  have hview : s₁.view = s.view := funext hs.view
  have howned : s₁.owned = s.owned := funext hs.owned
  have hnext : s₁.next = s.next := funext hs.next
  rw [Hazards, hview, howned, hnext, hs.hazards]
  exact h

theorem set (h : Hazards s l) (hfits : k.view.Fits) (hnode : k.view.node = (s.view t).node)
    (hun : k.view.role.unlinked = (s.view t).role.unlinked)
    (hon : ∀ a, k.view.role = .acquire a → a.On s.next l) : Hazards (s.setToken t k) l := by
  rw [Hazards, State.view_setToken]
  exact Ring.set h hfits hnode hun hon

/-- An operation that uses the hazard pointer of its token. -/
theorem working (h : Hazards s l) (hrole : (s.view t).role = .uses z)
    (hg : Works o cfg True z t s s') : Hazards s' l := by
  obtain ⟨s₁, pc, hs, hw, rfl⟩ := hg
  have hr : pc.role = .uses z ∨ pc.role = .idle := by
    cases pc with
    | put y w q => exact .inl (congrArg Role.uses hw)
    | read y k q => exact .inl (congrArg Role.uses hw.1)
    | idle => exact .inr rfl
    | acquire | close | free => cases hw
  have h₁ := h.same hs
  have hview : s₁.view t = s.view t := hs.view t
  have hfits := h.fits t
  rw [View.Fits, hrole] at hfits
  obtain ⟨hlive, hhaz⟩ := hfits
  rw [Hazards, State.view_setPc, hview]
  have hnode : ({ s.view t with role := pc.role } : View).node = (s₁.view t).node := by
    rw [hview, View.node_of_haz hhaz]
    exact View.node_of_haz hhaz
  refine Ring.set h₁ ?_ hnode ?_ ?_
  · rcases hr with hr | hr
    · rw [View.Fits, hr]
      exact ⟨hlive, hhaz⟩
    · rw [View.Fits, hr]
      exact fun hdead => Bool.noConfusion (hlive.symm.trans hdead)
  · rw [hview, hrole]
    rcases hr with hr | hr
    · rw [hr]
    · rw [hr]
      rfl
  · intro a ha
    rcases hr with hr | hr <;> cases hr.symm.trans ha

/-- `close`. -/
theorem closing (h : Hazards s l) (hrole : (s.view t).role = .close)
    (hg : Goes none (fun _ pc => Closing pc) t s s') : Hazards s' l := by
  obtain ⟨s₁, pc, hs, hc, rfl⟩ := hg
  have hr : pc.role = .close ∨ pc.role = .idle := by
    cases pc with
    | close q => exact .inl rfl
    | idle => exact .inr rfl
    | acquire | put | read | free => cases hc
  have h₁ := h.same hs
  have hview : s₁.view t = s.view t := hs.view t
  have hlive := h.fits t
  rw [View.Fits, hrole] at hlive
  have hlive : (s.view t).live = true := hlive
  rw [Hazards, State.view_setPc, hview]
  refine Ring.set h₁ ?_ ?_ ?_ ?_
  · rcases hr with hr | hr
    · rw [View.Fits, hr]
      exact hlive
    · rw [View.Fits, hr]
      exact fun hdead => Bool.noConfusion (hlive.symm.trans hdead)
  · rw [hview, View.node, View.node, hrole]
    rcases hr with hr | hr
    · rw [hr]
    · rw [hr]
      rfl
  · rw [hview, hrole]
    rcases hr with hr | hr
    · rw [hr]
    · rw [hr]
      rfl
  · intro a ha
    rcases hr with hr | hr <;> cases hr.symm.trans ha

/-! ## `get_hazard_ptr` -/

theorem acquiring (h : Hazards s l) (hpc : (s.token t).pc = .acquire c a) :
    s.view t = ⟨true, none, .acquire a⟩ ∧ a.On s.next l := by
  have hrole : (s.view t).role = .acquire a := congrArg Pc.role hpc
  have hfits := h.fits t
  rw [View.Fits, hrole] at hfits
  obtain ⟨hlive, hhaz⟩ := hfits
  refine ⟨?_, h.on t a hrole⟩
  rw [← hlive, ← hhaz, ← hrole]

theorem view_setAcquire (hview : s.view t = ⟨true, none, .acquire a⟩) (a' : Acquire) :
    (s.setAcquire t c a').view = Function.update s.view t ⟨true, none, .acquire a'⟩ := by
  rw [State.setAcquire, State.view_setPc, hview]
  rfl

/-- It goes on with the same hazard pointer. -/
theorem goOn (h : Hazards s l) (hview : s.view t = ⟨true, none, .acquire a⟩) {a' : Acquire}
    (hnode : a'.node = a.node) (hun : a'.unlinked = a.unlinked) (hon : a'.On s.next l) :
    Hazards (s.setAcquire t c a') l := by
  rw [Hazards, view_setAcquire hview]
  refine Ring.set h ⟨rfl, rfl⟩ ?_ ?_ fun b hb => ?_
  · rw [hview]
    exact hnode
  · rw [hview]
    exact hun
  · cases hb
    exact hon

theorem passHazard (h : Hazards s l) {rc : Nat} (hview : s.view t = ⟨true, none, .acquire a⟩)
    (hnode : a.node = none) (hun : a.unlinked = none) (hp : p ∈ l) (hn : n ∈ l) :
    Hazards (s.passHazard cfg t c rc p n) l := by
  rw [State.passHazard]
  split
  · have hs : { s.setHazard s.hazards (.new cfg true n) with hazards := s.hazards + 1 }.view t =
        ⟨true, none, .acquire a⟩ := hview
    rw [Hazards, view_setAcquire hs]
    change Ring (Function.update s.view t _) (s.setHazard s.hazards (.new cfg true n)).owned
      (s.setHazard s.hazards (.new cfg true n)).next (s.hazards + 1) l
    rw [State.owned_setHazard, State.next_setHazard]
    refine Ring.alloc h ?_ ⟨rfl, rfl⟩ rfl rfl ?_
    · rw [hview]
      exact hnode
    · intro b hb
      cases hb
      exact ⟨hp, hn, Function.update_self ..⟩
  · exact h.goOn hview hnode.symm hun.symm hn

/-- It takes a hazard pointer without an owner. -/
theorem takes (h : Hazards s l) {rc : Nat} (hview : s.view t = ⟨true, none, .acquire a⟩)
    (hnode : a.node = none) (hp : p ∈ l) (hfree : (s.hazard p).owned = false) :
    Hazards ((s.setHazard p { s.hazard p with owned := true }).setAcquire t c (.headOffset rc p))
      l := by
  have hs : (s.setHazard p { s.hazard p with owned := true }).view t =
      ⟨true, none, .acquire a⟩ := hview
  rw [Hazards, view_setAcquire hs]
  change Ring (Function.update s.view t _) (s.setHazard p { s.hazard p with owned := true }).owned
    (s.setHazard p { s.hazard p with owned := true }).next s.hazards l
  rw [State.owned_setHazard, State.next_setHazard]
  have hnext : Function.update s.next p (s.hazard p).next = s.next := Function.update_eq_self p _
  rw [hnext]
  refine Ring.take h hp hfree ?_ ⟨rfl, rfl⟩ rfl rfl ?_
  · rw [hview]
    exact hnode
  · intro b hb
    cases hb
    trivial

/-- It links the hazard pointer that it has allocated, or has to link it to another
one. -/
theorem appends (h : Hazards s l) {rc new : Nat}
    (hview : s.view t = ⟨true, none, .acquire (.append rc p n new)⟩) :
    ∃ l', Hazards (s.acquireStep o cfg t c (.append rc p n new)) l' := by
  obtain ⟨hp, hn, hnew⟩ := h.on t _ (congrArg View.role hview)
  have hun : (s.view t).role.unlinked = some new := by
    rw [hview]
    rfl
  rw [State.acquireStep]
  dsimp only
  split
  · next heq =>
    have hs : (s.setHazard p { s.hazard p with next := new }).view t =
        ⟨true, none, .acquire (.append rc p n new)⟩ := hview
    obtain ⟨l', h'⟩ := Ring.link (v := ⟨true, none, .acquire (.headOffset rc new)⟩) h hp
      (hnew.trans heq.symm) hun ⟨rfl, rfl⟩ rfl rfl fun b next l hb => by cases hb; trivial
    refine ⟨l', ?_⟩
    rw [Hazards, view_setAcquire hs]
    change Ring (Function.update s.view t _) (s.setHazard p { s.hazard p with next := new }).owned
      (s.setHazard p { s.hazard p with next := new }).next s.hazards l'
    rw [State.owned_setHazard, State.next_setHazard]
    have howned : Function.update s.owned p (s.hazard p).owned = s.owned :=
      Function.update_eq_self p _
    rw [howned]
    exact h'
  · have hs : (s.setHazard new { s.hazard new with next := (s.hazard p).next }).view t =
        ⟨true, none, .acquire (.append rc p n new)⟩ := hview
    refine ⟨l, ?_⟩
    rw [Hazards, view_setAcquire hs]
    change Ring (Function.update s.view t _)
      (s.setHazard new { s.hazard new with next := (s.hazard p).next }).owned
      (s.setHazard new { s.hazard new with next := (s.hazard p).next }).next s.hazards l
    rw [State.owned_setHazard, State.next_setHazard]
    have howned : Function.update s.owned new (s.hazard new).owned = s.owned :=
      Function.update_eq_self new _
    rw [howned]
    refine Ring.relink h hun ⟨rfl, rfl⟩ rfl rfl fun b hb => ?_
    cases hb
    exact ⟨hp, h.cycle.next_mem hp, Function.update_self ..⟩

theorem enter_eq : ∃ pc, s.enter t z c = s.setPc t pc ∧ pc.role = .uses z := by
  cases c with
  | put w => exact ⟨_, rfl, rfl⟩
  | read k => exact ⟨_, rfl, rfl⟩

/-- The token gets the hazard pointer. -/
theorem gets (h : Hazards s l) {rc : Nat} (hview : s.view t = ⟨true, none, .acquire (.check rc p)⟩) :
    Hazards (({ s with last := Function.update s.last p none }.setToken t
      { s.token t with haz := some p }).enter t p c) l := by
  obtain ⟨pc, heq, hrole⟩ := enter_eq (s := { s with last := Function.update s.last p none }.setToken t
      { s.token t with haz := some p }) (t := t) (z := p) (c := c)
  have hlive : (s.token t).live = true := congrArg View.live hview
  rw [heq, Hazards, State.view_setPc, State.view_setToken, Function.update_idem,
    Function.update_self, Token.view, hlive, hrole]
  refine Ring.set h ⟨rfl, rfl⟩ ?_ ?_ fun b hb => ?_
  · change some p = (s.view t).node
    rw [hview]
    rfl
  · change none = (s.view t).role.unlinked
    rw [hview]
    rfl
  · cases hb

theorem acquireStep (h : Hazards s l) (hpc : (s.token t).pc = .acquire c a) :
    ∃ l', Hazards (s.acquireStep o cfg t c a) l' := by
  obtain ⟨hview, hon⟩ := h.acquiring hpc
  cases a with
  | loadCount => exact ⟨l, h.goOn hview rfl rfl h.cycle.start_mem⟩
  | next rc p => exact ⟨l, h.goOn hview rfl rfl ⟨hon, h.cycle.next_mem hon⟩⟩
  | owned rc p n =>
    rw [State.acquireStep]
    split
    · exact ⟨l, h.passHazard hview rfl rfl hon.1 hon.2⟩
    · exact ⟨l, h.goOn hview rfl rfl hon⟩
  | take rc p n =>
    rw [State.acquireStep]
    split
    · exact ⟨l, h.passHazard hview rfl rfl hon.1 hon.2⟩
    · next hfree => exact ⟨l, h.takes hview rfl hon.1 (Bool.eq_false_iff.mpr hfree)⟩
  | append rc p n new => exact h.appends hview
  | headOffset rc p | headBlock rc p off => exact ⟨l, h.goOn hview rfl rfl trivial⟩
  | initActive rc p off head =>
    have hs : Same (some p) s (s.setHazard p { s.hazard p with
      nextProtectWrite := off
      nextProtectRead := off
      activeOffset := cfg.reg o (off + cfg.inactive) }) :=
        (Same.refl _ s).setHazard rfl rfl (.inl rfl)
    exact ⟨l, (h.same hs).goOn hview rfl rfl trivial⟩
  | initRead rc p head =>
    have hs : Same none s (s.setBlock p (some head) .read) := (Same.refl _ s).setBlock _ _
    exact ⟨l, (h.same hs).goOn hview rfl rfl trivial⟩
  | initWrite rc p head =>
    have hs : Same none s (s.setBlock p (some head) .write) := (Same.refl _ s).setBlock _ _
    exact ⟨l, (h.same hs).goOn hview rfl rfl trivial⟩
  | count rc p =>
    have hs : Same none s { s with hazPtrCounter := cfg.reg o (s.hazPtrCounter + 1) } :=
      .of_eq rfl rfl rfl rfl
    exact ⟨l, (h.same hs).goOn hview rfl rfl trivial⟩
  | check rc p =>
    rw [State.acquireStep]
    split
    · exact ⟨l, h.gets hview⟩
    · exact ⟨l, h.goOn hview rfl rfl trivial⟩

/-! ## The special member functions -/

theorem freeStep (h : Hazards s l) {q : FreePc} (hpc : (s.token t).pc = .free z q) :
    Hazards (s.freeStep t z q) l := by
  have hrole : (s.view t).role = .free z := congrArg Pc.role hpc
  have hhaz := h.fits t
  rw [View.Fits, hrole] at hhaz
  have hhaz : (s.token t).haz = some z := hhaz
  have hblock : ∀ s₁ q', Same none s s₁ → Hazards (s₁.setPc t (.free z q')) l := by
    intro s₁ q' hs
    have hview : s₁.view t = s.view t := hs.view t
    have hhaz' : (s₁.token t).haz = some z := (congrArg View.haz hview).trans hhaz
    refine (h.same hs).set hhaz' ?_ ?_ fun a ha => by cases ha
    · exact (View.node_of_haz hhaz').trans (View.node_of_haz hhaz').symm
    · rw [hview, hrole]
      rfl
  cases q with
  | writeBlock => exact hblock _ _ ((Same.refl _ s).setBlock _ _)
  | readBlock => exact hblock _ _ ((Same.refl _ s).setBlock _ _)
  | owned =>
    rw [State.freeStep, Hazards, State.view_setToken]
    change Ring (Function.update s.view t _) (s.setHazard z { s.hazard z with owned := false }).owned
      (s.setHazard z { s.hazard z with owned := false }).next s.hazards l
    rw [State.owned_setHazard, State.next_setHazard]
    have hnext : Function.update s.next z (s.hazard z).next = s.next := Function.update_eq_self z _
    rw [hnext]
    refine Ring.release h (View.node_of_haz hhaz) ?_ (fun _ => rfl) rfl rfl
    rw [hrole]
    rfl

theorem ready (h : s.ready t = true) : (s.token t).pc = .idle ∧ (s.token t).live = true := by
  rw [State.ready] at h
  split at h
  · next hpc => exact ⟨hpc, h⟩
  · cases h

theorem vacant (h : s.vacant t = true) : (s.token t).pc = .idle ∧ (s.token t).live = false := by
  rw [State.vacant] at h
  split at h
  · next hpc => exact ⟨hpc, Bool.not_eq_true' _ |>.mp h⟩
  · cases h

theorem view_idle (hpc : (s.token t).pc = .idle) :
    s.view t = ⟨(s.token t).live, (s.token t).haz, .idle⟩ := by
  rw [State.view, Token.view, hpc]
  rfl

theorem freeHazardPtr (h : Hazards s l) (hpc : (s.token t).pc = .idle) (live : Bool) :
    Hazards (s.freeHazardPtr t live) l := by
  have hview := view_idle hpc
  rw [State.freeHazardPtr]
  split
  · next z hz =>
    refine h.set hz ?_ ?_ fun a ha => by cases ha
    · exact (View.node_of_haz hz).trans (View.node_of_haz hz).symm
    · rw [hview]
      rfl
  · next hz =>
    refine h.set ?_ ?_ ?_ fun a ha => ?_
    · rw [View.Fits, Token.view, hpc]
      exact fun _ => hz
    · rw [hview, Token.view, hpc]
      rfl
    · rw [hview, Token.view, hpc]
      rfl
    · rw [Token.view, hpc] at ha
      cases ha

/-- A move from `u` to `t`, which has no hazard pointer of this channel. -/
theorem moves (h : Hazards s l) (hne : t ≠ u) (ht : (s.token t).pc = .idle)
    (hu : (s.token u).pc = .idle) (hhaz : (s.token t).haz = none) :
    Hazards ((s.setToken t { s.token t with live := true, haz := (s.token u).haz }).setToken u
      { s.token u with live := false, haz := none }) l := by
  have htview := view_idle ht
  have huview := view_idle hu
  rw [Hazards, State.view_setToken, State.view_setToken]
  refine Ring.move h hne ?_ ?_ ?_ ?_ ?_ ?_ ?_ ?_ ?_
  · rw [htview, hhaz]
    rfl
  · rw [htview]
  · rw [huview]
  · rw [View.Fits, Token.view, ht]
    exact fun hdead => by cases hdead
  · rw [View.Fits, Token.view, hu]
    exact fun _ => rfl
  · rw [huview, Token.view, ht]
    rfl
  · rw [Token.view, hu]
    rfl
  · rw [Token.view, ht]
    rfl
  · rw [Token.view, hu]
    rfl

theorem tokenStep {spurious : Bool} (h : Hazards s l)
    (hscope : ∀ z k q, (s.token t).pc = .read z k q → q.Scope k (s.last z))
    (hs : s.tokenStep o cfg t spurious = some s') : ∃ l', Hazards s' l' := by
  rw [State.tokenStep] at hs
  split at hs
  · cases hs
  · next c a hpc =>
    cases hs
    exact h.acquireStep hpc
  · next z w q hpc =>
    cases hs
    exact ⟨l, h.working (congrArg Pc.role hpc) (State.put_works hpc)⟩
  · next z k q hpc =>
    have hworks := State.read_works hpc (hscope z k q hpc) (fun _ _ _ => trivial) hs
    exact ⟨l, h.working (congrArg Pc.role hpc) hworks⟩
  · next q hpc => exact ⟨l, h.closing (congrArg Pc.role hpc) (State.close_goes hs)⟩
  · next z q hpc =>
    cases hs
    exact ⟨l, h.freeStep hpc⟩

/-- The step of a token that is at rest. -/
theorem begins (h : Hazards s l) {pc : Pc V} (hpc : (s.token t).pc = .idle)
    (hfits : View.Fits ⟨(s.token t).live, (s.token t).haz, pc.role⟩)
    (hnode : pc.role.node = none ∨ pc.role.node = (s.token t).haz)
    (hun : pc.role.unlinked = none) (hon : ∀ a, pc.role = .acquire a → a.On s.next l) :
    Hazards (s.setPc t pc) l := by
  have hview := view_idle hpc
  refine h.set hfits ?_ ?_ hon
  · rw [hview, View.node, View.node, Role.node, Option.or_none, Token.view]
    rcases hnode with hnode | hnode
    · rw [hnode, Option.or_none]
    · rw [hnode, Option.or_self]
  · rw [hview, Role.unlinked]
    exact hun

theorem call (h : Hazards s l) (hpc : (s.token t).pc = .idle) (hlive : (s.token t).live = true) :
    Hazards (s.call t c) l := by
  rw [State.call]
  split
  · next z hz =>
    obtain ⟨pc, heq, hrole⟩ := enter_eq (s := s) (t := t) (z := z) (c := c)
    rw [heq]
    refine h.begins hpc ?_ (.inr ?_) ?_ fun a ha => ?_
    · rw [hrole]
      exact ⟨hlive, hz⟩
    · rw [hrole, hz]
      rfl
    · rw [hrole]
      rfl
    · cases hrole.symm.trans ha
  · next hz =>
    exact h.begins hpc ⟨hlive, hz⟩ (.inl rfl) rfl fun a ha => by cases ha; trivial

theorem same_frame :
    Same none s (s.setToken t { s.token t with frame := (s.token t).frame + 1 }) := by
  refine ⟨rfl, fun _ => rfl, fun _ => rfl, fun u => ?_, fun u => .inl ?_, fun _ _ => rfl,
    fun _ _ => rfl⟩
  · rw [State.token_setToken]
    split
    · next hu =>
      rw [hu]
      rfl
    · rfl
  · rw [State.token_setToken]
    split
    · next hu => rw [hu]
    · rfl

/-- A step keeps the hazard pointers of a channel leased and in a cycle. -/
theorem step {a : Act V} (h : Hazards s l)
    (hscope : ∀ t z k q, (s.token t).pc = .read z k q → q.Scope k (s.last z))
    (hs : Channel.step o cfg s a = some s') : ∃ l', Hazards s' l' := by
  cases a with
  | copy u t =>
    obtain ⟨⟨-, ht⟩, heq⟩ := Option.ite_none_right_eq_some.mp hs
    cases heq
    obtain ⟨hpc, hlive⟩ := vacant ht
    have hview := view_idle hpc
    have hhaz : (s.token t).haz = none := (h.fits t).vacant (congrArg View.role hview) hlive
    refine ⟨l, h.set ?_ ?_ ?_ fun a ha => ?_⟩
    · rw [View.Fits, Token.view, hpc]
      exact fun _ => hhaz
    · rw [hview, Token.view, hpc]
      rfl
    · rw [hview, Token.view, hpc]
      rfl
    · rw [Token.view, hpc] at ha
      cases ha
  | move u t =>
    obtain ⟨⟨hu, ht⟩, heq⟩ := Option.ite_none_right_eq_some.mp hs
    cases heq
    obtain ⟨hpcu, hliveu⟩ := ready hu
    obtain ⟨hpct, hlivet⟩ := vacant ht
    have hne : t ≠ u := by
      rintro rfl
      cases hliveu.symm.trans hlivet
    have hhaz : (s.token t).haz = none :=
      (h.fits t).vacant (congrArg View.role (view_idle hpct)) hlivet
    exact ⟨l, h.moves hne hpct hpcu hhaz⟩
  | assign u t =>
    obtain ⟨⟨hu, ht⟩, heq⟩ := Option.ite_none_right_eq_some.mp hs
    obtain ⟨hpcu, hliveu⟩ := ready hu
    obtain ⟨hpct, hlivet⟩ := ready ht
    split at heq
    · cases heq
      exact ⟨l, h.freeHazardPtr hpct true⟩
    · next hne =>
      split at heq
      · cases heq
        exact ⟨l, h.freeHazardPtr hpcu false⟩
      · next hnone =>
        cases heq
        have hhaz : (s.token t).haz = none := Option.not_isSome_iff_eq_none.mp hnone
        have hmoved := h.moves (Ne.symm hne) hpct hpcu hhaz
        rw [← hlivet] at hmoved
        exact ⟨l, hmoved⟩
  | destroy t =>
    obtain ⟨ht, heq⟩ := Option.ite_none_right_eq_some.mp hs
    cases heq
    exact ⟨l, h.freeHazardPtr (ready ht).1 false⟩
  | call t c =>
    obtain ⟨⟨ht, -⟩, heq⟩ := Option.ite_none_right_eq_some.mp hs
    cases heq
    obtain ⟨hpc, hlive⟩ := ready ht
    have hsame := same_frame (s := s) (t := t)
    refine ⟨l, (h.same hsame).call ?_ ?_⟩
    · rw [State.token_setToken, if_pos rfl]
      exact hpc
    · rw [State.token_setToken, if_pos rfl]
      exact hlive
  | close t =>
    obtain ⟨ht, heq⟩ := Option.ite_none_right_eq_some.mp hs
    cases heq
    obtain ⟨hpc, hlive⟩ := ready ht
    exact ⟨l, h.begins hpc hlive (.inl rfl) rfl fun a ha => by cases ha⟩
  | step t spurious => exact h.tokenStep (hscope t) hs
  | release t =>
    rw [Channel.step] at hs
    split at hs
    · next z k idx b hpc =>
      cases hs
      have hworks : Works o cfg True z t s (s.destroyValue cfg t z k idx b) :=
        State.release_works (hscope t z k _ hpc)
      exact ⟨l, h.working (congrArg Pc.role hpc) hworks⟩
    · cases hs

theorem init : Hazards (State.init cfg : State V) [hazardPtrList] where
  fits t := fun _ => rfl
  leases := ⟨fun _ _ _ ht _ => (Option.some_ne_none _ ht.symm).elim,
    fun _ => ⟨fun hz => (by cases hz), fun ⟨_, hz⟩ => (by cases hz)⟩⟩
  lt t z hz := by cases hz
  cycle := .singleton rfl
  mem z := by
    rw [List.mem_singleton]
    constructor
    · rintro rfl
      exact ⟨Nat.one_pos, fun t hz => by cases hz⟩
    · exact fun hz => Nat.lt_one_iff.mp hz.1
  on t a ha := by cases ha

end Hazards

/-! ## What this means for the tokens -/

namespace State

/-- Token `t` has the hazard pointer `z` or its task uses it. -/
def Uses (s : State V) (t : Tid) (z : Nat) : Prop :=
  (s.token t).haz = some z ∨ (s.token t).pc.role.node = some z

/-- `z` is allocated and still to be linked by the task of `t`. -/
def Unlinked (s : State V) (t : Tid) (z : Nat) : Prop := (s.token t).pc.role.unlinked = some z

/-- Every token is destroyed. -/
def Gone (s : State V) : Prop := ∀ t, (s.token t).live = false ∧ (s.token t).pc.role = .idle

/-- The hazard pointers that `~channel` deletes in the first `n` rounds of its loop. -/
def deleted (s : State V) (n : Nat) : List Nat :=
  walk (fun z => (s.hazard z).next) hazardPtrList n hazardPtrList

end State

structure Exclusive (s : State V) : Prop where
  exclusive : ∀ t u z, s.Uses t z → s.Uses u z → t = u
  /-- The flag is set while a token has it or is getting it, and not otherwise. -/
  owned : ∀ z, (s.hazard z).owned = true ↔ ∃ t, s.Uses t z
  cycle : ∃ l, Cycle (fun z => (s.hazard z).next) hazardPtrList l ∧
    ∀ z, z ∈ l ↔ z < s.hazards ∧ ∀ t, ¬ s.Unlinked t z
  /-- `~channel` deletes every hazard pointer once, and none has an owner. -/
  gone : s.Gone → (∀ z, (s.hazard z).owned = false) ∧
    ∀ n, s.hazards ≤ n → (s.deleted n).Perm (List.range s.hazards)

theorem Hazards.uses_iff (h : Hazards s l) : s.Uses t z ↔ (s.view t).node = some z := by
  constructor
  · rintro (hz | hz)
    · exact View.node_of_haz hz
    · exact (h.fits t).node_of_role hz
  · intro hz
    rw [View.node, Option.or_eq_some_iff] at hz
    rcases hz with hz | ⟨-, hz⟩
    · exact .inl hz
    · exact .inr hz

theorem Hazards.exclusive (h : Hazards s l) : Exclusive s where
  exclusive t u z ht hu := h.leases.inj t u z (h.uses_iff.mp ht) (h.uses_iff.mp hu)
  owned z := by
    simp only [h.uses_iff]
    exact h.leases.owned z
  cycle := ⟨l, h.cycle, h.mem⟩
  gone hgone := by
    have hnone : ∀ t z, ¬ s.Uses t z := by
      intro t z hz
      obtain ⟨hlive, hrole⟩ := hgone t
      rcases hz with hz | hz
      · cases ((h.fits t).vacant hrole hlive).symm.trans hz
      · rw [hrole] at hz
        cases hz
    have hmem : ∀ z, z ∈ l ↔ z < s.hazards := by
      intro z
      rw [h.mem]
      refine and_iff_left fun t hz => ?_
      have hrole : (s.view t).role = .idle := (hgone t).2
      rw [hrole] at hz
      cases hz
    have hperm : l.Perm (List.range s.hazards) := by
      refine (List.perm_ext_iff_of_nodup h.cycle.nodup List.nodup_range).mpr fun z => ?_
      rw [hmem, List.mem_range]
    refine ⟨fun z => Bool.eq_false_iff.mpr fun hz => ?_, fun n hn => ?_⟩
    · obtain ⟨t, ht⟩ := (h.leases.owned z).mp hz
      exact hnone t z (h.uses_iff.mpr ht)
    · have hlen : l.length ≤ n := by
        rw [hperm.length_eq, List.length_range]
        exact hn
      have hwalk : s.deleted n = l := h.cycle.walk_eq hlen
      rw [hwalk]
      exact hperm

end CoroUtil.Channel
