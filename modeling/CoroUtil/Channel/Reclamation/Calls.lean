import CoroUtil.Channel.Reclamation.Operations

/-!
# The calls, `close` and `get_hazard_ptr`

What a token does while it has no block: it is called, comes to rest, is handed over,
closes the channel, or is in `get_hazard_ptr`.  The call whose `reclaim_counter` has not
changed has the blocks of the head that it has loaded (`Calling.safe`).
-/

namespace CoroUtil.Channel

open CoroUtil.General CoroUtil.Blocks

/-- It has nothing to do with a block but by `close`. -/
def Task.Calm : Task → Prop
  | .rest | .waits | .closes | .marks _ | .walks .. | .frees _ => True
  | .acquires q => q = .loadCount
  | .uses _ p top => p = .out ∧ top = 0
  | .locks .. | .reclaims .. => False

namespace Sight

variable {cfg : Config} {l l' : List Nat} {S S' : Sight} {m m' : Map} {a a' : Plan}
  {f k b z y n p idx top rc : Nat} {side : Side} {q q' : Acquire} {t u : Tid} {v : HazardPtr}
  {w : Option Nat}

theorem Ring.links (h : S.Ring l) (h' : S'.Ring l') (hn : ∀ y ∈ l, S'.next y = S.next y) :
    Links S.next S'.next l l' :=
  .same ((h.cycle.path.congr hn).mem (fun _ => h'.cycle.next_mem) h'.cycle.start_mem) hn

theorem Moves.out {p : Phase} : Moves S m z p m .out :=
  .same (fun _ hi => by cases hi) fun _ hl => Bool.noConfusion hl.1

/-- Only the tokens of `T` do something else, and nothing with the blocks. -/
theorem Inv.hands (h : Inv cfg l S m a) {T : Tid → Prop} {live : Tid → Bool}
    {haz : Tid → Option Nat} {lock : Option Tid} {task : Tid → Task}
    (hS : S' = { S with live := live, haz := haz, blocksLock := lock, task := task })
    (hring : S'.Ring l') (hrun : S'.run = S.run)
    (hlock : ∀ t, (task t).locked = true ↔ lock = some t)
    (htask : ∀ u, ¬ T u → task u = S.task u ∧ haz u = S.haz u)
    (hcalm : ∀ t, T t → (task t).Calm ∧ Walks cfg m (task t))
    (hhas : ∀ t, T t → ∀ z, S'.Has t z → ∃ u, S.Has u z) : ∃ m a, Inv cfg l' S' m a := by
  subst hS
  have hf : Frame cfg l l' S
    { S with live := live, haz := haz, blocksLock := lock, task := task } m m :=
    ⟨.of_grows h.heaps.ok (.refl h.heaps.ok), fun b hb => .inl hb,
      fun side => by cases side <;> exact le_rfl,
      le_rfl, Ring.links h.ring hring fun _ _ => rfl, rfl, rfl, rfl, rfl, rfl, rfl⟩
  have hphase : ∀ t, T t → (task t).phase = .out := by
    intro t ht
    have hc := (hcalm t ht).1
    cases hk : task t with
    | uses z p top =>
      rw [hk] at hc
      exact hc.1
    | locks | reclaims =>
      rw [hk] at hc
      exact hc.elim
    | rest | acquires | waits | closes | marks | walks | frees => rfl
  obtain ⟨rest, hinv⟩ := h.aside (w := none) (T := T) hf hring hrun hlock
    ⟨h.nodes.fresh, h.nodes.dvd, h.nodes.active⟩ htask (fun _ _ => ⟨.refl _, rfl, rfl⟩)
    (fun _ _ _ _ heq => by cases heq)
    (fun t ht z hz side => by
      obtain ⟨u, hu⟩ := hhas t ht z hz
      exact (h.seats u z hu side).frame hf.stays ⟨.refl _, rfl, rfl⟩)
    (fun t ht z p top hk => by
      have hc := (hcalm t ht).1
      rw [show task t = .uses z p top from hk] at hc
      rw [hc.2]
      exact Nat.zero_le _)
    (fun t ht z p hd => by
      have hp := hphase t ht
      rw [Task.phase, show (task t).doing = some (z, p) from hd] at hp
      have hp : p = .out := hp
      rw [hp]
      exact holds_out)
    (fun t ht q hk => by
      have hc := (hcalm t ht).1
      rw [show task t = .acquires q from hk] at hc
      have hc : q = .loadCount := hc
      subst hc
      exact ⟨fun n hn => (by cases hn), fun b hb => (by cases hb), trivial, fun _ => trivial⟩)
    (fun t ht => (hcalm t ht).2)
    (fun t ht z hz => by
      obtain ⟨u, hu⟩ := hhas t ht z hz
      refine .inr ⟨u, hu, ?_⟩
      rw [show (Sight.task _ t).phase = .out from hphase t ht]
      exact .out)
  exact ⟨m, _, hinv⟩

theorem run_goes (hlock : S.blocksLock = some t → (S.task t).run = none) {k : Task}
    (hk : k.run = none) : (S.goes t k).run = S.run := by
  rw [run, run]
  change S.blocksLock.bind _ = _
  cases hb : S.blocksLock with
  | none => rfl
  | some u =>
    change ((S.goes t k).task u).run = (S.task u).run
    by_cases hu : u = t
    · subst hu
      rw [task_goes, hk, hlock hb]
    · rw [task_goes_of_ne hu]

theorem has_goes {k : Task} (hacq : ∀ q, k ≠ .acquires q) (hkeeps : (S.task t).keeps = true)
    (hz : (S.goes t k).Has t z) : S.Has t z := by
  rcases hz with ⟨hhaz, -⟩ | hk
  · exact .inl ⟨hhaz, hkeeps⟩
  · rw [task_goes] at hk
    exact absurd hk (hacq _)

/-- Token `t` does something else, and nothing with the blocks. -/
theorem Inv.rests (h : Inv cfg l S m a) {k k' : Task} (ht : S.task t = k)
    (hring : (S.goes t k').Ring l') (hcalm : k'.Calm) (hwalks : Walks cfg m k')
    (hlock : k.locked = k'.locked) (hrun : k.run = none) (hkeeps : k.keeps = true)
    (hacq : ∀ q, k' ≠ .acquires q) : ∃ m a, Inv cfg l' (S.goes t k') m a := by
  subst ht
  have hk : k'.run = none := by
    cases k' with
    | reclaims => exact hcalm.elim
    | _ => rfl
  have hS : S.goes t k' = { S with
      live := S.live
      haz := S.haz
      blocksLock := S.blocksLock
      task := Function.update S.task t k' } := rfl
  refine h.hands (T := (· = t)) hS hring (run_goes (fun _ => hrun) hk) (fun u => ?_)
    (fun u hu => ⟨Function.update_of_ne hu .., rfl⟩) ?_ ?_
  · rw [Function.update_apply]
    split_ifs with hu
    · rw [hu, ← hlock]
      exact h.lock t
    · exact h.lock u
  · rintro u rfl
    rw [Function.update_self]
    exact ⟨hcalm, hwalks⟩
  · rintro u rfl z hz
    exact ⟨u, has_goes hacq hkeeps hz⟩

/-- An operation comes to its end. -/
theorem Inv.leaving (h : Inv cfg l S m a) (hl : Leaving cfg t z S S') (hring : S'.Ring l') :
    ∃ m a, Inv cfg l' S' m a := by
  have rests : ∀ {S₁ : Sight} {m₁ a₁}, Inv cfg l S₁ m₁ a₁ → S₁.task t = .uses z .out 0 →
      (S₁.goes t .rest).Ring l' → ∃ m a, Inv cfg l' (S₁.goes t .rest) m a := by
    intro S₁ m₁ a₁ h₁ ht₁ hring
    exact h₁.rests ht₁ hring trivial trivial rfl rfl rfl fun q hq => by cases hq
  cases hl with
  | @leave p top ht off =>
    obtain ⟨m₁, a₁, h₁⟩ := h.leave ht off
    rw [← goes_goes (k := .uses z .out 0)] at hring ⊢
    exact rests h₁ task_goes hring
  | rest ht =>
    obtain ⟨m₁, a₁, h₁⟩ := h.drop ht
    rw [← goes_goes (k := .uses z .out 0)] at hring ⊢
    exact rests h₁ task_goes hring

/-! ## `close` -/

/-- `blocks_lock` is held for something else than a reclaim. -/
theorem Inv.no_run (h : Inv cfg l S m a) {k : Task} (ht : S.task t = k) (hlocked : k.locked = true)
    (hrun : k.run = none) : S.run = none := by
  subst ht
  rw [run, (h.lock t).mp hlocked]
  exact hrun

/-- `blocks_lock` is taken, or given back. -/
theorem Inv.relocks (h : Inv cfg l S m a) {o : Option Tid} {k : Task}
    (hring : ({ S with blocksLock := o }.goes t k).Ring l')
    (hold : S.blocksLock = none ∨ (S.task t).locked = true)
      (ho : o = if k.locked then some t else none)
    (hrun : S.run = none) (hk : k.run = none) (hcalm : k.Calm) (hwalks : Walks cfg m k)
    (hkeeps : (S.task t).keeps = true) (hacq : ∀ q, k ≠ .acquires q) :
    ∃ m a, Inv cfg l' ({ S with blocksLock := o }.goes t k) m a := by
  have hS : { S with blocksLock := o }.goes t k = { S with
      live := S.live
      haz := S.haz
      blocksLock := o
      task := Function.update S.task t k } := rfl
  have htask : ({ S with blocksLock := o }.goes t k).task t = k := task_goes
  have hfree : ∀ u, u ≠ t → (S.task u).locked ≠ true := by
    intro u hu hlocked
    have hsome := (h.lock u).mp hlocked
    rcases hold with hnone | ht
    · cases hnone.symm.trans hsome
    · exact hu (Option.some.inj (hsome.symm.trans ((h.lock t).mp ht)))
  have hother : ∀ u, u ≠ t → o ≠ some u := by
    intro u hu heq
    rw [ho] at heq
    split_ifs at heq
    exact hu (Option.some.inj heq).symm
  refine h.hands (T := (· = t)) hS hring ?_ (fun u => ?_)
    (fun u hu => ⟨Function.update_of_ne hu .., rfl⟩) ?_ ?_
  · rw [hrun, run]
    change o.bind _ = none
    rw [ho]
    split_ifs
    · change (({ S with blocksLock := o }.goes t k).task t).run = none
      rw [htask, hk]
    · rfl
  · by_cases hu : u = t
    · rw [hu, Function.update_self, ho]
      cases k.locked <;> simp
    · rw [Function.update_of_ne hu]
      exact iff_of_false (hfree u hu) (hother u hu)
  · rintro u rfl
    rw [Function.update_self]
    exact ⟨hcalm, hwalks⟩
  · rintro u rfl z hz
    refine ⟨u, ?_⟩
    rcases hz with ⟨hhaz, -⟩ | hk'
    · exact .inl ⟨hhaz, hkeeps⟩
    · rw [htask] at hk'
      exact absurd hk' (hacq _)

/-- What `close` does with the blocks. -/
theorem Inv.closing (h : Inv cfg l S m a) (hc : Closes cfg t S S') (hring : S'.Ring l') :
    ∃ m a, Inv cfg l' S' m a := by
  have hpos := cfg.blockSize_pos
  have rests : ∀ {S₁ : Sight} {m₁ a₁ k k'}, Inv cfg l S₁ m₁ a₁ → S₁.task t = k →
      (k = .closes ∨ (∃ idx, k = .marks idx) ∨ ∃ idx f, k = .walks idx f) →
      (S₁.goes t k').Ring l' →
        (k' = .closes ∨ (∃ idx, k' = .marks idx) ∨ ∃ idx f, k' = .walks idx f) →
      Walks cfg m₁ k' → ∃ m a, Inv cfg l' (S₁.goes t k') m a := by
    intro S₁ m₁ a₁ k k' h₁ ht₁ hk hring hk' hwalks
    rcases hk with rfl | ⟨idx, rfl⟩ | ⟨idx, f, rfl⟩ <;>
      rcases hk' with rfl | ⟨idx', rfl⟩ | ⟨idx', f', rfl⟩ <;>
      exact h₁.rests ht₁ hring trivial hwalks rfl rfl rfl fun q hq => by cases hq
  cases hc with
  | lock ht hfree =>
    refine h.relocks hring (.inl hfree) rfl ?_ rfl trivial trivial
      (congrArg Task.keeps ht) fun q hq => by cases hq
    rw [run, hfree]
    rfl
  | unlock ht =>
    have hlocked : (S.task t).locked = true := congrArg Task.locked ht
    exact h.relocks hring (.inr hlocked) rfl (h.no_run ht rfl rfl) rfl trivial trivial
      (congrArg Task.keeps ht) fun q hq => by cases hq
  | ticket ht =>
    have hring' : (S.goes t (.marks S.writeOffset)).Ring l' := hring
    obtain ⟨m₁, a₁, h₁⟩ := rests h ht (.inl rfl) hring' (.inr (.inl ⟨_, rfl⟩)) (h.heaps.off .write)
    obtain ⟨rest, h₂⟩ :=
      h₁.tickets (w := S.writeOffset + 1) (r := S.readOffset) (Nat.le_succ _) le_rfl
    exact ⟨m₁, _, h₂⟩
  | @start idx ht =>
    have hwalks := h.walks t
    rw [ht] at hwalks
    have hruns := h.runs
    rw [h.no_run ht rfl rfl] at hruns
    refine rests h ht (.inr (.inl ⟨_, rfl⟩)) hring (.inr (.inr ⟨_, _, rfl⟩)) ⟨hwalks, m.lo, le_rfl,
      h.heaps.lo.2, hruns.2.symm, (Nat.le_div_iff_mul_le hpos).mpr hwalks⟩
  | @find idx f ht =>
    have hwalks := h.walks t
    rw [ht] at hwalks
    obtain ⟨c', rest, h₁, -, hf⟩ := h.find le_rfl hwalks.2
    exact rests h₁ ht (.inr (.inr ⟨_, _, rfl⟩)) hring (.inr (.inr ⟨_, _, rfl⟩)) ⟨hwalks.1, hf⟩
  | @wake idx b ht =>
    have hwalks := h.walks t
    rw [ht] at hwalks
    obtain ⟨hidx, hle, hlast, hb⟩ := hwalks
    refine rests h ht (.inr (.inr ⟨_, _, rfl⟩)) hring (.inr (.inr ⟨_, _, rfl⟩))
      ⟨Nat.le_succ_of_le hidx, ?_⟩
    split_ifs with hslot
    · exact ⟨idx / cfg.blockSize, hle, hlast, hb, Nat.div_le_div_right (Nat.le_succ _)⟩
    · have hdiv : (idx + 1) / cfg.blockSize = idx / cfg.blockSize :=
        Nat.succ_div_of_not_dvd fun hdvd => hslot (Nat.mod_eq_zero_of_dvd hdvd)
      rw [Find.Ok, hdiv]
      exact ⟨hle, hlast, hb⟩
  | ends ht =>
    rcases ht with ht | ⟨f, ht⟩
    · exact rests h ht (.inr (.inl ⟨_, rfl⟩)) hring (.inl rfl) trivial
    · exact rests h ht (.inr (.inr ⟨_, _, rfl⟩)) hring (.inl rfl) trivial

end Sight

end CoroUtil.Channel
