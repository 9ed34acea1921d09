import CoroUtil.SpscBounded.Close

/-!
# `try_push`

`try_push_exact`: `try_push` is refused exactly when `capacity` pushed values are
not released at the instant it polls its slot, and a refused one leaves the queue
as it is.  One that goes on pushes its value next, and a consumer that is
suspended then is resumed once before it returns.
-/

namespace CoroUtil.SpscBounded

open CoroUtil.General

variable {V : Type} {cfg : Config} {s s' t t' : State V} {v : V}

/-- The pushed values that are not released: all but the ones handed out whose
slots the exchange of `finish_read` has freed. -/
def State.unreleased (s : State V) : List V :=
  s.pushed.drop ((handed s.pulls).length - s.consumer.taken)

/-- What the rest of a call does. -/
structure Effect where
  /-- A consumer was suspended when the value was published. -/
  suspended : Bool
  /-- How often the consumer was resumed. -/
  resumed : Nat
  deriving DecidableEq

def Effect.next (e : Effect) (s s' : State V) : Effect where
  suspended := if s.pushed.length < s'.pushed.length then s.consumer.waiting else e.suspended
  resumed := if s.consumer.waiting && !s'.consumer.waiting then e.resumed + 1 else e.resumed

/-- The states between the poll of `try_push` in `s` that finds its slot free and
the return of the call, which is the first one where the producer is idle. -/
inductive Accepts (cfg : Config) (s : State V) : Effect → State V → Prop
  | polled {s' : State V} {spurious : Bool} (hs : step cfg s (.producer spurious) = some s')
      (hgo : s'.producer ≠ .idle) : Accepts cfg s ⟨false, 0⟩ s'
  | step {e : Effect} {t t' : State V} {act : Act V} (h : Accepts cfg s e t)
      (hgo : t.producer ≠ .idle) (hs : step cfg t act = some t') :
      Accepts cfg s (e.next t t') t'

/-- What a `try_push` of `v` that polls its slot in `s` promises. -/
structure TryPush (cfg : Config) (s : State V) (v : V) : Prop where
  polls : ∀ spurious, ∃ s', step cfg s (.producer spurious) = some s'
  /-- It returns `false` exactly when the queue is full. -/
  exact : ∀ spurious s', step cfg s (.producer spurious) = some s' →
    (s'.producer = .idle ↔ s.unreleased.length = cfg.capacity)
  /-- Then nothing but the call is over. -/
  atomic : ∀ spurious s', step cfg s (.producer spurious) = some s' → s'.producer = .idle →
    s' = { s with producer := .idle }
  /-- Otherwise it returns, whatever the consumer does. -/
  returns : ∀ e t, Accepts cfg s e t → ∃ k ≤ 3, ∃ t',
    (List.replicate k (.producer false)).foldlM (step cfg) t = some t' ∧ t'.producer = .idle
  /-- It pushes its value and nothing else. -/
  next : ∀ e t, Accepts cfg s e t → t.producer = .idle → t.pushed = s.pushed ++ [v]
  in_order : ∀ e t, Accepts cfg s e t → handed t.pulls <+: t.pushed ∧ t.broken = false
  /-- A consumer that is suspended when the value is published is resumed once. -/
  resumes : ∀ e t, Accepts cfg s e t → t.producer = .idle →
    e.resumed = if e.suspended then 1 else 0
  /-- That is one that is suspended at the poll, or suspends later. -/
  suspended : s.consumer.waiting = true → ∀ e t, Accepts cfg s e t → t.producer = .idle →
    e.suspended = true

theorem Inv.unreleased_length (h : Inv cfg s) :
    s.unreleased.length = s.writeOffset - s.readOffset := by
  rw [State.unreleased, List.length_drop, h.pushed, h.handed_length, Nat.add_sub_cancel]

theorem State.tryPoll_step (hpc : s.producer = .tryPoll v) {spurious : Bool}
    (hs : step cfg s (.producer spurious) = some s') :
    s' = s.setProducer (if (s.elem cfg s.writeOffset).flags = .data then .idle
      else .emplace v s.writeOffset) := by
  simp only [SpscBounded.step, State.producerStep, hpc, Option.some.injEq] at hs
  exact hs.symm

theorem State.tryPoll_idle (hpc : s.producer = .tryPoll v) {spurious : Bool}
    (hs : step cfg s (.producer spurious) = some s') :
    s'.producer = .idle ↔ (s.elem cfg s.writeOffset).flags = .data := by
  rw [State.tryPoll_step hpc hs]
  simp only [State.setProducer]
  split_ifs with hd <;> simp [hd]

/-- The slot that `try_push` polls holds data exactly when the window is full. -/
theorem Inv.tryPoll_full (h : Inv cfg s) (hb : Straight cfg s) (hpc : s.producer = .tryPoll v) :
    (s.elem cfg s.writeOffset).flags = .data ↔ s.unreleased.length = cfg.capacity := by
  have hopen := h.producer
  rw [State.producerOk, hpc] at hopen
  have hiff := h.poll_iff hb (marked_of_open hopen) (by rw [hpc]; rfl) (by rw [hpc]; rfl) le_rfl
    (Nat.lt_add_of_pos_right cfg.capacity_pos) (Nat.le_add_right ..)
  have hle := h.le
  have hfull := h.full
  rw [hiff, h.unreleased_length]
  omega

theorem Inv.others (h : Inv cfg s) (hgo : s.producer ≠ .idle) (hwaits : s.producer.waitsFor = none)
    {act : Act V} (hact : ∀ b, act ≠ .producer b) (hs : SpscBounded.step cfg s act = some s') :
    s'.producer = s.producer ∧ s'.pushed = s.pushed ∧
      (s.consumer.waiting = true → s'.consumer.waiting = true) := by
  have hcall : ∀ pc b, s.call pc b = none := by
    intro pc b
    rw [State.call]
    split
    · next hpc => exact absurd hpc hgo
    · rfl
  cases act with
  | producer b => exact absurd rfl (hact b)
  | push w | tryPush w | pushBulk vs | close =>
    simp only [SpscBounded.step, hcall] at hs
    cases hs
  | pull k =>
    simp only [SpscBounded.step] at hs
    split at hs
    · next hpc =>
      split at hs <;> cases hs
      refine ⟨rfl, rfl, fun hw => ?_⟩
      rw [hpc] at hw
      cases hw
    · cases hs
  | release =>
    simp only [SpscBounded.step, State.release] at hs
    split at hs <;> cases hs
    next idx hpc =>
      refine ⟨rfl, rfl, fun hw => ?_⟩
      rw [hpc] at hw
      cases hw
  | consumer =>
    have hres : s.consumer ≠ .resumeProducer := by
      intro hpc
      have hc := h.consumer
      rw [State.consumerOk, hpc] at hc
      cases hwaits.symm.trans hc
    obtain ⟨hp, -, hpushed, -⟩ := State.consumerStep_frame hres hs
    refine ⟨hp, hpushed, fun hw => ?_⟩
    cases hpc : s.consumer with
    | suspended idx n =>
      simp only [SpscBounded.step, State.consumerStep, hpc] at hs
      cases hs
    | _ =>
      rw [hpc] at hw
      cases hw

/-- How far a `try_push` of `v` is that has found its slot free, behind the
values `l`. -/
def Course (l : List V) (v : V) (e : Effect) (t : State V) : Prop :=
  match t.producer with
  | .emplace w _ | .publish w _ => w = v ∧ t.pushed = l ∧ e = ⟨false, 0⟩
  | .resumeConsumer => t.pushed = l ++ [v] ∧ e = ⟨true, 0⟩
  | .idle => t.pushed = l ++ [v] ∧ e.resumed = if e.suspended then 1 else 0
  | _ => False

def ProducerPc.left : ProducerPc V → Nat
  | emplace _ _ => 3
  | publish _ _ => 2
  | resumeConsumer => 1
  | _ => 0

def Awaited (e : Effect) (t : State V) : Prop :=
  match t.producer with
  | .idle => e.suspended = true
  | _ => t.consumer.waiting = true

namespace Course

variable {l : List V} {e : Effect}

theorem cases_of (h : Course l v e t) (hgo : t.producer ≠ .idle) :
    (∃ idx, t.producer = .emplace v idx ∧ t.pushed = l ∧ e = ⟨false, 0⟩) ∨
    (∃ idx, t.producer = .publish v idx ∧ t.pushed = l ∧ e = ⟨false, 0⟩) ∨
    (t.producer = .resumeConsumer ∧ t.pushed = l ++ [v] ∧ e = ⟨true, 0⟩) := by
  rw [Course] at h
  cases hpc : t.producer with
  | idle => exact absurd hpc hgo
  | emplace w idx =>
    rw [hpc] at h
    obtain ⟨rfl, hl, he⟩ := h
    exact .inl ⟨idx, rfl, hl, he⟩
  | publish w idx =>
    rw [hpc] at h
    obtain ⟨rfl, hl, he⟩ := h
    exact .inr (.inl ⟨idx, rfl, hl, he⟩)
  | resumeConsumer =>
    rw [hpc] at h
    exact .inr (.inr ⟨rfl, h⟩)
  | _ =>
    rw [hpc] at h
    exact h.elim

theorem waitsFor (h : Course l v e t) (hgo : t.producer ≠ .idle) :
    t.producer.waitsFor = none := by
  rcases h.cases_of hgo with ⟨idx, hpc, -⟩ | ⟨idx, hpc, -⟩ | ⟨hpc, -⟩ <;> rw [hpc] <;> rfl

theorem length (h : Course l v e t) :
    t.pushed.length + t.producer.count ≤ l.length + 1 := by
  rw [Course] at h
  cases hpc : t.producer with
  | emplace w idx | publish w idx =>
    rw [hpc] at h
    rw [h.2.1]
    exact le_rfl
  | resumeConsumer | idle =>
    rw [hpc] at h
    rw [h.1, List.length_append]
    exact le_rfl
  | _ =>
    rw [hpc] at h
    exact h.elim

theorem straight (h : Course l v e t) (hi : Inv cfg t) (hlt : l.length + 1 < 2 ^ cfg.bits) :
    Straight cfg t := by
  have hlen := h.length
  rw [hi.pushed] at hlen
  exact straight_of_lt (hlen.trans_lt hlt)

theorem other (h : Course l v e t) (hp : t'.producer = t.producer) (hpushed : t'.pushed = t.pushed)
    (hw : t.consumer.waiting = true → t'.consumer.waiting = true) :
    Course l v (e.next t t') t' := by
  have he : e.next t t' = e := by
    simp only [Effect.next, hpushed, lt_self_iff_false, if_false]
    cases hc : t.consumer.waiting with
    | false => rfl
    | true =>
      rw [hw hc]
      rfl
  rw [he]
  simpa only [Course, hp, hpushed] using h

theorem producer (h : Course l v e t) (hi : Inv cfg t) (hb : Straight cfg t)
    (hgo : t.producer ≠ .idle) {spurious : Bool}
    (hs : SpscBounded.step cfg t (.producer spurious) = some t') :
    Course l v (e.next t t') t' ∧ (Awaited e t → Awaited (e.next t t') t') := by
  have hok := hi.producer
  rw [State.producerOk] at hok
  rcases h.cases_of hgo with ⟨idx, hpc, hl, rfl⟩ | ⟨idx, hpc, hl, rfl⟩ | ⟨hpc, hl, rfl⟩
  · simp only [SpscBounded.step, State.producerStep, hpc, Option.some.injEq] at hs
    have hcons : t'.consumer = t.consumer := by
      rw [← hs]
      rfl
    have hpushed : t'.pushed = t.pushed := by
      rw [← hs]
      rfl
    have hp : t'.producer = .publish v idx := by
      rw [← hs]
      rfl
    refine ⟨?_, fun ha => ?_⟩
    · rw [Course, hp]
      exact ⟨rfl, hpushed.trans hl, by simp [Effect.next, hcons, hpushed]⟩
    · rw [Awaited, hpc] at ha
      rw [Awaited, hp]
      exact (congrArg ConsumerPc.waiting hcons).trans ha
  · rw [hpc] at hok
    obtain ⟨hopen, rfl, hin⟩ := hok
    simp only [SpscBounded.step, State.producerStep, hpc, Option.some.injEq] at hs
    rw [hi.publish_eq hb hopen hin] at hs
    have hat := fun hw => hi.waiting_at hw (by rw [hpc]; rfl)
    have hnext : Effect.next ⟨false, 0⟩ t t' = ⟨t.consumer.waiting, 0⟩ := by
      rw [← hs]
      simp [Effect.next, State.setFlags]
    rw [hnext]
    by_cases hw : t.consumer.waiting = true
    · rw [if_pos ⟨hw, (hat hw).symm⟩] at hs
      rw [← hs]
      exact ⟨⟨congrArg (· ++ [v]) hl, by rw [hw]⟩, fun _ => hw⟩
    · rw [if_neg fun hc => hw hc.1] at hs
      rw [← hs]
      refine ⟨⟨congrArg (· ++ [v]) hl, by simp [hw]⟩, fun ha => ?_⟩
      rw [Awaited, hpc] at ha
      exact absurd ha hw
  · rw [hpc] at hok
    obtain ⟨-, -, hc⟩ := hok
    simp only [SpscBounded.step, State.producerStep, hpc, State.resumeConsumer, hc,
      Option.some.injEq] at hs
    have hnext : Effect.next ⟨true, 0⟩ t t' = ⟨true, 1⟩ := by
      rw [← hs]
      simp [Effect.next, State.setConsumer, State.setProducer, hc, ConsumerPc.waiting]
    rw [hnext, ← hs]
    exact ⟨⟨hl, rfl⟩, fun _ => rfl⟩

theorem step (h : Course l v e t) (hi : Inv cfg t) (hb : Straight cfg t)
    (hgo : t.producer ≠ .idle) {act : Act V} (hs : SpscBounded.step cfg t act = some t') :
    Course l v (e.next t t') t' ∧ (Awaited e t → Awaited (e.next t t') t') := by
  cases act with
  | producer spurious => exact h.producer hi hb hgo hs
  | _ =>
    obtain ⟨hp, hpushed, hw⟩ := hi.others hgo (h.waitsFor hgo) (fun b hb => by cases hb) hs
    refine ⟨h.other hp hpushed hw, fun ha => ?_⟩
    rw [Awaited] at ha ⊢
    rw [hp]
    split at ha
    · next hpc => exact absurd hpc hgo
    · exact hw ha

theorem progress (cfg : Config) (h : Course l v e t) (hgo : t.producer ≠ .idle) : ∃ t',
    SpscBounded.step cfg t (.producer false) = some t' ∧
      t'.producer.left < t.producer.left := by
  rcases h.cases_of hgo with ⟨idx, hpc, -⟩ | ⟨idx, hpc, -⟩ | ⟨hpc, -⟩
  · refine ⟨_, by simp only [SpscBounded.step, State.producerStep, hpc]; rfl, ?_⟩
    rw [hpc]
    exact Nat.lt_succ_self 2
  · refine ⟨_, by simp only [SpscBounded.step, State.producerStep, hpc]; rfl, ?_⟩
    obtain ⟨pc, b, hp, heq⟩ := t.publish_spec cfg idx [v]
    rw [heq, hpc]
    rcases hp with rfl | rfl
    · exact Nat.zero_lt_succ 1
    · exact Nat.lt_succ_self 1
  · refine ⟨_, by simp only [SpscBounded.step, State.producerStep, hpc]; rfl, ?_⟩
    rw [hpc]
    exact Nat.lt_succ_self 0

/-- The call returns, and the producer alone can take the steps that are left. -/
theorem returns (hlt : l.length + 1 < 2 ^ cfg.bits) (n : Nat) : ∀ {e : Effect} {t : State V},
    Course l v e t → Inv cfg t → t.producer.left ≤ n → ∃ k ≤ n, ∃ t',
      (List.replicate k (Act.producer false)).foldlM (SpscBounded.step cfg) t = some t' ∧
        t'.producer = .idle := by
  induction n with
  | zero =>
    intro e t h _ hn
    refine ⟨0, le_rfl, t, rfl, ?_⟩
    by_contra hgo
    obtain ⟨t', -, hlt⟩ := h.progress cfg hgo
    omega
  | succ n ih =>
    intro e t h hi hn
    by_cases hgo : t.producer = .idle
    · exact ⟨0, Nat.zero_le _, t, rfl, hgo⟩
    obtain ⟨t', hs, hless⟩ := h.progress cfg hgo
    have hb := h.straight hi hlt
    obtain ⟨k, hk, u, hu, hidle⟩ := ih (h.step hi hb hgo hs).1 (hi.step hb hs) (by omega)
    refine ⟨k + 1, Nat.succ_le_succ hk, u, ?_, hidle⟩
    rw [List.replicate_succ, List.foldlM_cons, hs]
    exact hu

end Course

theorem Inv.course (h : Inv cfg s) (hpc : s.producer = .tryPoll v)
    (hb : Straight cfg s) (hlt : s.writeOffset + 1 < 2 ^ cfg.bits) {e : Effect} {t : State V}
    (ha : Accepts cfg s e t) :
    Inv cfg t ∧ Course s.pushed v e t ∧ (s.consumer.waiting = true → Awaited e t) := by
  rw [← h.pushed] at hlt
  induction ha with
  | polled hs hgo =>
    refine ⟨h.step hb hs, ?_⟩
    rw [Ne, State.tryPoll_idle hpc hs] at hgo
    rw [State.tryPoll_step hpc hs, if_neg hgo]
    exact ⟨⟨rfl, rfl, rfl⟩, fun hw => hw⟩
  | step _ hgo hs ih =>
    obtain ⟨hi, hc, ha⟩ := ih
    have hb := hc.straight hi hlt
    obtain ⟨hc', ha'⟩ := hc.step hi hb hgo hs
    exact ⟨hi.step hb hs, hc', fun hw => ha' (ha hw)⟩

/-- `try_push` is exact, and atomic when it fails. -/
theorem try_push_exact (h : (system V cfg).Reachable s) (hpc : s.producer = .tryPoll v)
    (hlt : s.writeOffset + 1 < 2 ^ cfg.bits) : TryPush cfg s v := by
  have hb : Straight cfg s := straight_of_lt (by rw [hpc]; exact Nat.lt_of_succ_lt hlt)
  have hi := inv h hb
  have hpoll := fun spurious s' (hs : step cfg s (.producer spurious) = some s') =>
    State.tryPoll_step hpc hs
  have hcourse := fun e t => hi.course hpc hb hlt (e := e) (t := t)
  have hlen : s.pushed.length + 1 < 2 ^ cfg.bits := hi.pushed ▸ hlt
  refine
    { polls := fun spurious => ⟨_, by simp only [step, State.producerStep, hpc]; rfl⟩
      exact := fun spurious s' hs => ?_
      atomic := fun spurious s' hs hidle => ?_
      returns := fun e t ha => ?_
      next := fun e t ha hidle => ?_
      in_order := fun e t ha => ?_
      resumes := fun e t ha hidle => ?_
      suspended := fun hw e t ha hidle => ?_ }
  · rw [State.tryPoll_idle hpc hs, hi.tryPoll_full hb hpc]
  · have hd := (State.tryPoll_idle hpc hs).mp hidle
    rw [hpoll spurious s' hs, if_pos hd]
    rfl
  · obtain ⟨hit, hc, -⟩ := hcourse e t ha
    refine hc.returns hlen 3 hit ?_
    cases t.producer <;> simp [ProducerPc.left]
  · obtain ⟨-, hc, -⟩ := hcourse e t ha
    rw [Course, hidle] at hc
    exact hc.1
  · obtain ⟨hit, -, -⟩ := hcourse e t ha
    exact ⟨hit.handed ▸ List.take_prefix _ _, hit.unbroken⟩
  · obtain ⟨-, hc, -⟩ := hcourse e t ha
    rw [Course, hidle] at hc
    exact hc.2
  · obtain ⟨-, -, hsusp⟩ := hcourse e t ha
    have := hsusp hw
    rwa [Awaited, hidle] at this

/-- One slot: the second `try_push` polls while the first value is unreleased. -/
def tryFull : List (Act Nat) :=
  .tryPush 7 :: List.replicate 3 (.producer false) ++ [.pull .pull, .consumer, .tryPush 8]

theorem try_push_exact_tryFull : ∃ s, tryFull.foldlM (step oneSlot) .init = some s ∧
    s.unreleased = [7] ∧ TryPush oneSlot s 8 :=
  ⟨_, rfl, rfl, try_push_exact (System.ofStep_reachable tryFull rfl) rfl (by decide)⟩

end CoroUtil.SpscBounded
