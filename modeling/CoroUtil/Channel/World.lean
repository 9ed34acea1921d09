import CoroUtil.Channel.Resting

/-!
# Tokens of several channels

`World` has the `chan_tok` objects with what their `chan` points to, and `World.step`
their special member functions with the branches for the same and for another
channel.  A token that has a hazard pointer gives it up in several steps, and goes
on with `finish`.

What happens to one channel is a step of it (`channel_reachable`), so what is true
of every run of a channel is true beside the others.
-/

namespace CoroUtil.Channel

open CoroUtil.Blocks CoroUtil.General

variable {V : Type}

/-- What a token does once its hazard pointer is free: `chan = Other.chan`,
`chan = std::move(Other.chan)` with its hazard pointer, or the end of the destructor. -/
inductive Pending
  | copy (u : Tid)
  | move (u : Tid)
  | drop

structure World (V : Type) where
  /-- The channels that have been made. -/
  channel : Nat → Option (State V)
  chan : Tid → Option Nat
  pending : Tid → Option Pending

namespace World

inductive Act (V : Type)
  /-- `make_channel`, which returns token 0. -/
  | make (a : Nat)
  | copyConstruct (u t : Tid)
  | moveConstruct (u t : Tid)
  | copyAssign (u t : Tid)
  | moveAssign (u t : Tid)
  | destroy (t : Tid)
  | finish (t : Tid)
  | call (t : Tid) (c : Call V)
  | close (t : Tid)
  | release (t : Tid)
  /-- The task that uses `t` takes its next step in channel `a`. -/
  | step (a : Nat) (t : Tid) (spurious : Bool)

def start : World V := ⟨fun _ => none, fun _ => none, fun _ => none⟩

variable (o : Offsets) (cfg : Config) (W : World V) (u t : Tid)

def setChan (a : Option Nat) : World V := { W with chan := Function.update W.chan t a }

def setPending (p : Option Pending) : World V :=
  { W with pending := Function.update W.pending t p }

/-- A step of channel `a`. -/
def on (a : Nat) (act : Channel.Act V) : Option (World V) :=
  ((W.channel a).bind fun s => Channel.step o cfg s act).map fun s =>
    { W with channel := Function.update W.channel a (some s) }

/-- `chan(Other.chan), haz_ptr{nullptr}`. -/
def copyFrom : Option (World V) :=
  match W.chan u with
  | none => some (W.setChan t none)
  | some a => (W.on o cfg a (.copy u t)).map fun W => W.setChan t (some a)

/-- `chan(std::move(Other.chan)), haz_ptr{Other.haz_ptr}`. -/
def moveFrom : Option (World V) :=
  match W.chan u with
  | none => some (W.setChan t none)
  | some a => (W.on o cfg a (.move u t)).map fun W => (W.setChan t (some a)).setChan u none

/-- `free_hazard_ptr` of a token of channel `b`, which goes on with `p`. -/
def freeHazardPtr (b : Nat) (p : Pending) : Option (World V) :=
  (W.on o cfg b (.destroy t)).map fun W => W.setPending t (some p)

/-- An operation on a token. -/
def use (act : Channel.Act V) : Option (World V) :=
  match W.chan t, W.pending t with
  | some a, none => W.on o cfg a act
  | _, _ => none

def copyAssign : Option (World V) :=
  if W.chan t ≠ W.chan u then
    match W.chan t with
    | none => W.copyFrom o cfg u t
    | some b => W.freeHazardPtr o cfg t b (.copy u)
  else some W

def moveAssign : Option (World V) :=
  match W.chan t with
  | none => if W.chan u = none then some W else W.moveFrom o cfg u t
  | some b =>
    if W.chan u ≠ some b then W.freeHazardPtr o cfg t b (.move u)
    else (W.on o cfg b (.assign u t)).map fun W => if u = t then W else W.setChan u none

/-- The hazard pointer of a token is free. -/
def finish : Option (World V) :=
  match W.pending t, (W.chan t).bind W.channel with
  | some p, some s =>
    if s.vacant t then
      let W := (W.setPending t none).setChan t none
      match p with
      | .copy u => W.copyFrom o cfg u t
      | .move u => W.moveFrom o cfg u t
      | .drop => some W
    else none
  | _, _ => none

def step (W : World V) : Act V → Option (World V)
  | .make a =>
    if W.channel a = none ∧ W.chan 0 = none then
      some ({ W with channel := Function.update W.channel a (some (.init cfg)) }.setChan 0 (some a))
    else none
  | .copyConstruct u t => if W.chan t = none then W.copyFrom o cfg u t else none
  | .moveConstruct u t => if W.chan t = none then W.moveFrom o cfg u t else none
  | .copyAssign u t => if W.pending t = none then W.copyAssign o cfg u t else none
  | .moveAssign u t => if W.pending t = none then W.moveAssign o cfg u t else none
  | .destroy t =>
    match W.chan t, W.pending t with
    | some a, none => W.freeHazardPtr o cfg t a .drop
    | _, _ => none
  | .finish t => W.finish o cfg t
  | .call t c => W.use o cfg t (.call t c)
  | .close t => W.use o cfg t (.close t)
  | .release t => W.use o cfg t (.release t)
  | .step a t spurious => W.on o cfg a (.step t spurious)

end World

/-- The channels and their tokens as a transition system. -/
def world (V : Type) (o : Offsets) (cfg : Config) : System (World V) (World.Act V) :=
  .ofStep .start (World.step o cfg)

namespace World

variable {o : Offsets} {cfg : Config} {W W' : World V} {a b : Nat} {u t : Tid}
  {act : Channel.Act V} {p : Pending}

/-- What holds of the channels that have been made. -/
def All (P : State V → Prop) (W : World V) : Prop := ∀ a s, W.channel a = some s → P s

variable {P : State V → Prop}
  (hstep : ∀ s act s', P s → Channel.step o cfg s act = some s' → P s')

section Step

include hstep

theorem All.on (h : All P W) (hs : W.on o cfg a act = some W') : All P W' := by
  obtain ⟨s', hs', rfl⟩ := Option.map_eq_some_iff.mp hs
  obtain ⟨s, hs, hact⟩ := Option.bind_eq_some_iff.mp hs'
  intro b r hr
  simp only [Function.update_apply] at hr
  split at hr
  · cases hr
    exact hstep s act _ (h a s hs) hact
  · exact h b r hr

theorem All.copyFrom (h : All P W) (hs : W.copyFrom o cfg u t = some W') : All P W' := by
  rw [World.copyFrom] at hs
  split at hs
  · cases hs
    exact h
  · obtain ⟨W₁, hs₁, rfl⟩ := Option.map_eq_some_iff.mp hs
    have h₁ := h.on hstep hs₁
    exact h₁

theorem All.moveFrom (h : All P W) (hs : W.moveFrom o cfg u t = some W') : All P W' := by
  rw [World.moveFrom] at hs
  split at hs
  · cases hs
    exact h
  · obtain ⟨W₁, hs₁, rfl⟩ := Option.map_eq_some_iff.mp hs
    have h₁ := h.on hstep hs₁
    exact h₁

theorem All.freeHazardPtr (h : All P W) (hs : W.freeHazardPtr o cfg t b p = some W') :
    All P W' := by
  obtain ⟨W₁, hs₁, rfl⟩ := Option.map_eq_some_iff.mp hs
  have h₁ := h.on hstep hs₁
  exact h₁

theorem All.use (h : All P W) (hs : W.use o cfg t act = some W') : All P W' := by
  rw [World.use] at hs
  split at hs
  · exact h.on hstep hs
  · cases hs

theorem All.copyAssign (h : All P W) (hs : W.copyAssign o cfg u t = some W') : All P W' := by
  rw [World.copyAssign] at hs
  split at hs
  · split at hs
    · exact h.copyFrom hstep hs
    · exact h.freeHazardPtr hstep hs
  · cases hs
    exact h

theorem All.moveAssign (h : All P W) (hs : W.moveAssign o cfg u t = some W') : All P W' := by
  rw [World.moveAssign] at hs
  split at hs
  · split at hs
    · cases hs
      exact h
    · exact h.moveFrom hstep hs
  · split at hs
    · exact h.freeHazardPtr hstep hs
    · obtain ⟨W₁, hs₁, rfl⟩ := Option.map_eq_some_iff.mp hs
      have h₁ := h.on hstep hs₁
      split
      · exact h₁
      · exact h₁

theorem All.finish (h : All P W) (hs : W.finish o cfg t = some W') : All P W' := by
  rw [World.finish] at hs
  split at hs
  · have h₁ : All P ((W.setPending t none).setChan t none) := h
    split at hs
    · split at hs
      · exact h₁.copyFrom hstep hs
      · exact h₁.moveFrom hstep hs
      · cases hs
        exact h₁
    · cases hs
  · cases hs

/-- What the start of a channel has and its steps keep, the steps of the world keep. -/
theorem All.step (hinit : P (.init cfg)) {x : World.Act V} (h : All P W)
    (hs : World.step o cfg W x = some W') : All P W' := by
  cases x with
  | make a =>
    obtain ⟨-, heq⟩ := Option.ite_none_right_eq_some.mp hs
    cases heq
    intro b r hr
    simp only [setChan, Function.update_apply] at hr
    split at hr
    · cases hr
      exact hinit
    · exact h b r hr
  | copyConstruct u t => exact h.copyFrom hstep (Option.ite_none_right_eq_some.mp hs).2
  | moveConstruct u t => exact h.moveFrom hstep (Option.ite_none_right_eq_some.mp hs).2
  | copyAssign u t => exact h.copyAssign hstep (Option.ite_none_right_eq_some.mp hs).2
  | moveAssign u t => exact h.moveAssign hstep (Option.ite_none_right_eq_some.mp hs).2
  | destroy t =>
    rw [World.step] at hs
    split at hs
    · exact h.freeHazardPtr hstep hs
    · cases hs
  | finish t => exact h.finish hstep hs
  | call t c => exact h.use hstep hs
  | close t => exact h.use hstep hs
  | release t => exact h.use hstep hs
  | step a t spurious => exact h.on hstep hs

end Step

/-- A channel of the world is in a state that it reaches alone. -/
theorem channel_reachable (h : (world V o cfg).Reachable W) :
    All (system V o cfg).Reachable W := by
  refine h.invariant (I := All (system V o cfg).Reachable) (fun W hW => ?_) fun W x W' hi _ hs => ?_
  · cases hW
    exact fun a s hs => nomatch hs
  · exact hi.step (fun s act s' hr hs => hr.step hs) (.init rfl) hs

end World

variable {o : Offsets} {cfg : Config} {W : World V} {a : Nat} {s : State V}

/-- Hazard pointers are exclusively owned, whatever the tokens of all channels do. -/
theorem hazards_owned (h : (world V o cfg).Reachable W) (hs : W.channel a = some s) :
    Exclusive s := by
  obtain ⟨l, hl⟩ := Hazards.reachable (World.channel_reachable h a s hs)
  exact hl.exclusive

/-- Two tokens call `post`, and the second allocates a hazard pointer. -/
def twoPosts : List (World.Act Nat) :=
  [.make 0, .call 0 (.put (.post 7))] ++ List.replicate 4 (.step 0 0 false) ++
    [.copyConstruct 0 1, .call 1 (.put (.post 8))] ++ List.replicate 3 (.step 0 1 false)

theorem twoPosts_run : ∃ W s, (world Nat .wrapping twoElements).Reachable W ∧
    W.channel 0 = some s ∧ s.hazards = 2 ∧ (s.hazard 0).next = 0 := by
  have hrun : (twoPosts.foldlM (World.step .wrapping twoElements) .start).any (fun W =>
      (W.channel 0).any fun s => s.hazards = 2 && (s.hazard 0).next = 0) = true := by
    decide +kernel
  obtain ⟨W, hW, hany⟩ := (Option.any_eq_true _ _).mp hrun
  obtain ⟨s, hs, hand⟩ := (Option.any_eq_true _ _).mp hany
  rw [Bool.and_eq_true, decide_eq_true_iff, decide_eq_true_iff] at hand
  exact ⟨W, s, System.ofStep_reachable twoPosts hW, hs, hand.1, hand.2⟩

theorem hazards_owned_twoPosts : ∃ W s, (world Nat .wrapping twoElements).Reachable W ∧
    W.channel 0 = some s ∧ Exclusive s := by
  obtain ⟨W, s, hW, hs, -⟩ := twoPosts_run
  exact ⟨W, s, hW, hs, hazards_owned hW hs⟩

/-- A hazard pointer that has been allocated is not at once in the cycle. -/
theorem newHazard_offCycle : ∃ W s, (world Nat .wrapping twoElements).Reachable W ∧
    W.channel 0 = some s ∧
    ¬ ∃ l, Cycle (fun z => (s.hazard z).next) hazardPtrList l ∧ ∀ z < s.hazards, z ∈ l := by
  obtain ⟨W, s, hW, hs, hcount, hnext⟩ := twoPosts_run
  refine ⟨W, s, hW, hs, fun ⟨l, hl, hall⟩ => ?_⟩
  have hone : Cycle (fun z => (s.hazard z).next) hazardPtrList [0] := .singleton hnext
  have heq : l = [0] := (hl.walk_eq (Nat.le_max_left _ 1)).symm.trans
    (hone.walk_eq (Nat.le_max_right l.length 1))
  have hmem := hall 1 (hcount ▸ Nat.one_lt_two)
  rw [heq, List.mem_singleton] at hmem
  cases hmem

end CoroUtil.Channel
