import CoroUtil.Channel.Reclamation.Commit

/-!
# Every step keeps the blocks

`Inv.step` puts the steps of the channel together: those of `try_reclaim_blocks`, of
`blocks_lock`, of the special member functions of a token and of its operations.
-/

namespace CoroUtil.Channel

open CoroUtil.General CoroUtil.Blocks

namespace Sight

variable {V : Type} {cfg : Config} {l l' : List Nat} {S S' : Sight} {s s' : State V} {m : Map}
  {a : Plan} {b z y n idx top : Nat} {p : Phase} {k : Read} {r r' : TryReclaim} {t u : Tid}
    {c : Call V}

/-! ## `try_reclaim_blocks` -/

theorem Inv.reclaim (h : Inv cfg l s.sight m a) (hscope : s.writeOffset ≤ cfg.inactive)
    (hpc : (s.token t).pc = .read z k (.reclaim idx b r)) :
    ∃ m a, Inv cfg l ((s.reclaimStep .natural cfg z r).1.sight.goes t
      (.reclaiming z idx b (s.reclaimStep .natural cfg z r).2)) m a := by
  have ht : s.sight.task t = .reclaims z idx b r := State.task_of_pc hpc
  have hruns := h.runs
  rw [h.run_eq ht] at hruns
  obtain ⟨hz, hstage, hsite, hduty⟩ := hruns
  have hlimbo : Private r → limbo s.sight.run = [] := by
    intro hr
    rw [h.run_eq ht]
    cases r <;> first | rfl | exact absurd hr not_false
  have go : ∀ {r'}, Private r → Sound cfg l s.sight m z idx r' →
      ∃ m a, Inv cfg l (s.sight.goes t (.reclaiming z idx b r')) m a := fun hr hsound =>
    ⟨m, h.private ht hr hsound⟩
  have sound : ∀ {r'}, Private r → Private r' → Site cfg l s.sight m a z idx r' →
      (∀ y p, Duty cfg s.sight m a idx y p r → Duty cfg s.sight m a idx y p r') →
      ∃ m a, Inv cfg l (s.sight.goes t (.reclaiming z idx b r')) m a := fun hr hr' hsite' himp =>
    go hr ⟨hr', a, hsite', fun u y hy => himp y _ (hduty u y hy)⟩
  cases r with
  | loadHead protect => exact sound trivial trivial ⟨hsite, hstage.2⟩ fun _ _ _ => trivial
  | loadCount protect old =>
    exact sound trivial trivial ⟨(Nat.sub_le ..).trans hsite.1, Nat.dvd_sub_mod _, hsite.2, le_rfl⟩
      fun _ _ _ => trivial
  | oldOffset protect old count => exact go trivial (h.oldOffset hz hsite)
  | minNext x curr => exact go trivial (h.minNext hsite hduty)
  | minOwned x curr n => exact go trivial (h.minOwned ht hsite hduty)
  | minActive x curr n => exact go trivial (h.minActive ht hscope hsite hduty)
  | walk x new again => exact go trivial (h.walk hz hsite hduty)
  | walkNext x new again =>
    obtain ⟨n, hn, -⟩ := h.walkNext_some hsite
    have hsound := h.walkNext hsite hduty
    rw [State.reclaimStep, hn] at hsound ⊢
    exact go trivial hsound
  | advNext x new curr => exact go trivial (h.advNext hsite hduty)
  | advOwned x new curr n => exact go trivial (h.advOwned hsite hduty)
  | advBlock x new curr n side => exact go trivial (h.advBlock hsite hduty)
  | advOffset x new curr n side o => exact go trivial (advOffset_sound hsite hduty)
  | advNewOffset x new curr n side o off => exact go trivial (h.advNewOffset hsite hduty)
  | advCas x new curr n side o =>
    by_cases hblock : s.getBlock curr side = some o
    · rw [State.reclaimStep, if_pos hblock, State.sight_setBlock]
      rw [State.getBlock_eq] at hblock
      exact h.advCas ht hblock
    · have hsound := h.advCas_fails hsite hduty hblock
      rw [State.reclaimStep, if_neg hblock] at hsound ⊢
      exact go trivial hsound
  | advFailed x new curr n side o =>
    exact go trivial (h.advFailed hstage.1 (hlimbo trivial) hsite hduty)
  | advActive x new curr n side => exact go trivial (h.advActive hscope hsite hduty)
  | reduce x new => exact go trivial (h.reduce hsite hduty)
  | assertRead x new => exact sound trivial trivial hsite fun _ _ hd => hd
  | assertWrite x new => exact go trivial (assertWrite_sound hsite hduty)
  | storeHead x new => exact ⟨m, h.storeHead ht⟩
  | count x new => exact ⟨m, h.count ht⟩
  | check x new =>
    rw [State.reclaimStep]
    split_ifs with hcount
    · exact h.commits ht hcount
    · exact ⟨m, h.abandons ht⟩
  | rollback x => exact ⟨m, h.rollback ht⟩
  | newOffset x new => exact ⟨m, h.newOffset ht⟩
  | storeOffset x new off => exact ⟨m, h.storeOffset ht⟩
  | move c =>
    have hmove := h.move ht
    have hbare : c.step .natural cfg.toLayout s.sight.heap s.sight.tailBlock =
        ((c.step .natural cfg.toLayout s.heap s.tailBlock).1.bare,
          (c.step .natural cfg.toLayout s.heap s.tailBlock).2) := Reclaim.step_bare c
    rw [hbare] at hmove
    rw [State.reclaimStep]
    generalize c.step .natural cfg.toLayout s.heap s.tailBlock = g at hmove ⊢
    obtain ⟨heap, tail, ok, c'⟩ := g
    cases c' <;> exact hmove
  | done => exact go trivial .done

/-! ## `blocks_lock` -/

/-- `blocks_lock` is taken or given back by an operation. -/
theorem Inv.turns (h : Inv cfg l S m a) {o : Option Tid} {k : Task}
    (hdoing : (S.task t).doing = some (z, p)) (hk : k.doing = some (z, p))
    (hring : ({ S with blocksLock := o }.goes t k).Ring l')
    (hold : S.blocksLock = none ∨ (S.task t).locked = true)
    (ho : o = if k.locked then some t else none) (hrun : S.run = none) (hkrun : k.run = none)
    (htop : ∀ z p top, k = .uses z p top → top ≤ S.writeOffset) :
    ∃ m a, Inv cfg l' ({ S with blocksLock := o }.goes t k) m a := by
  have htask : ({ S with blocksLock := o }.goes t k).task t = k := task_goes
  have hother : ∀ u, u ≠ t → ({ S with blocksLock := o }.goes t k).task u = S.task u := fun u hu =>
    task_goes_of_ne hu
  have hrole : k.role = (S.task t).role := by
    rw [Task.role_of_doing hk, Task.role_of_doing hdoing]
  have hf : Frame cfg l l' S ({ S with blocksLock := o }.goes t k) m m :=
    ⟨.of_grows h.heaps.ok (.refl h.heaps.ok), fun _ hb => .inl hb,
      fun side => by cases side <;> exact le_rfl, le_rfl, Ring.links h.ring hring fun _ _ => rfl,
        rfl,
      rfl, rfl, rfl, rfl, rfl⟩
  have hnotacq : ∀ q, k ≠ .acquires q := by
    rintro q rfl
    cases hk
  obtain ⟨rest, hinv⟩ := h.aside (w := none) (T := (· = t)) hf hring
    (by
      rw [hrun, run]
      change o.bind _ = none
      rw [ho]
      split_ifs
      · change (({ S with blocksLock := o }.goes t k).task t).run = none
        rw [htask, hkrun]
      · rfl)
    (fun u => by
      change _ ↔ o = some u
      by_cases hu : u = t
      · rw [hu, htask, ho]
        cases k.locked <;> simp
      · rw [hother u hu, ho]
        refine iff_of_false (fun hlocked => ?_) (fun heq => ?_)
        · have hsome := (h.lock u).mp hlocked
          rcases hold with hnone | ht
          · cases hnone.symm.trans hsome
          · exact hu (Option.some.inj (hsome.symm.trans ((h.lock t).mp ht)))
        · split_ifs at heq
          exact hu (Option.some.inj heq).symm)
    ⟨h.nodes.fresh, h.nodes.dvd, h.nodes.active⟩ (fun u hu => ⟨hother u hu, rfl⟩)
    (fun _ _ => ⟨.refl _, rfl, rfl⟩) (fun _ _ _ _ heq => by cases heq)
    (by
      rintro u rfl y hy side
      refine (h.seats u y ?_ side).frame hf.stays ⟨.refl _, rfl, rfl⟩
      exact has_goes hnotacq (Task.keeps_of_doing hdoing) hy)
    (by
      rintro u rfl y q top' hk'
      exact htop y q top' (htask.symm.trans hk'))
    (by
      rintro u rfl y q hd
      rw [htask, hk] at hd
      cases hd
      exact (h.holds u z p hdoing).frame hf.stays ⟨.refl _, rfl, rfl⟩)
    (by
      rintro u rfl q hk'
      exact absurd (htask.symm.trans hk') (hnotacq q))
    (by
      rintro u rfl
      rw [htask]
      cases k with
      | uses | locks | reclaims => trivial
      | rest | acquires | waits | closes | marks | walks | frees => cases hk)
    (by
      rintro u rfl y hy
      refine .inr ⟨u, has_goes hnotacq (Task.keeps_of_doing hdoing) hy, ?_⟩
      rw [htask, Task.phase, Task.phase, hk, hdoing]
      exact .refl)
  exact ⟨_, _, hinv⟩

/-- `try_reclaim_blocks` is called. -/
theorem Inv.starts (h : Inv cfg l S m a) (ht : S.task t = .locks z idx b) (hn : n ≤ S.writeOffset) :
    ∃ m a, Inv cfg l (S.goes t (.reclaims z idx b (.loadHead n))) m a := by
  have hlocked : (S.task t).locked = true := congrArg Task.locked ht
  have hdoing : (S.task t).doing = some (z, .has .read idx idx (idx + 1) b) :=
    congrArg Task.doing ht
  have hrun := h.no_run ht rfl rfl
  have hruns := h.runs
  have hheaps := h.heaps
  have hhead := h.head
  have hcalling := h.calling
  rw [hrun] at hruns hheaps hhead hcalling
  obtain ⟨a', hinv⟩ := h.reclaims hlocked hdoing (.refl S) m a (.loadHead n) hheaps h.nodes hhead
    h.off h.seats h.holds hcalling
    ⟨Ring.mem_of_has h.ring (Ring.has_of_doing h.ring hdoing), hruns, hn, fun _ _ _ => trivial⟩
  exact ⟨m, a', hinv⟩

/-- What an operation does with `blocks_lock`. -/
theorem Inv.locking (h : Inv cfg l S m a) (hl : Locking t z S S') (hring : S'.Ring l') :
    ∃ l m a, Inv cfg l S' m a := by
  have hfree : S.blocksLock = none → S.run = none := by
    intro hfree
    rw [run, hfree]
    rfl
  cases hl with
  | @lock idx b top ht hnone =>
    obtain ⟨m', a', hinv⟩ :=
      h.turns (k := .locks z idx b) (congrArg Task.doing ht) rfl hring (.inl hnone)
      rfl (hfree hnone) rfl fun _ _ _ hk => by cases hk
    exact ⟨l', m', a', hinv⟩
  | @tryLock idx b top ht hnone =>
    -- it takes the lock, and then the call starts
    have hview : ({ S with blocksLock := some t }.goes t (.locks z idx b)).view =
        ({ S with blocksLock := some t }.goes t (.reclaims z idx b (.loadHead top))).view := by
      funext u
      have hrole : (({ S with blocksLock := some t }.goes t (.locks z idx b)).task u).role =
          (({ S with blocksLock := some t }.goes t (.reclaims z idx b (.loadHead top))).task
            u).role := by
        by_cases hu : u = t
        · rw [hu, task_goes, task_goes]
          rfl
        · rw [task_goes_of_ne hu, task_goes_of_ne hu]
      rw [view, view, hrole]
      rfl
    have hring' : ({ S with blocksLock := some t }.goes t (.locks z idx b)).Ring l' := by
      rw [Ring, hview]
      exact hring
    obtain ⟨m', a', hinv⟩ :=
      h.turns (k := .locks z idx b) (congrArg Task.doing ht) rfl hring' (.inl hnone)
      rfl (hfree hnone) rfl fun _ _ _ hk => by cases hk
    obtain ⟨m'', a'', hinv'⟩ := hinv.starts task_goes (h.top t z _ top ht)
    rw [goes_goes] at hinv'
    exact ⟨l', m'', a'', hinv'⟩
  | protect ht =>
    obtain ⟨m', a', hinv⟩ := h.starts ht le_rfl
    exact ⟨l, m', a', hinv⟩
  | @unlock idx b ht =>
    obtain ⟨m', a', hinv⟩ := h.turns (k := .uses z (.has .read idx idx (idx + 1) b) 0)
      (congrArg Task.doing ht) rfl hring (.inr (congrArg Task.locked ht)) rfl
      (h.no_run ht rfl rfl) rfl (by rintro _ _ _ ⟨⟩; exact Nat.zero_le _)
    exact ⟨l', m', a', hinv⟩

/-! ## The special member functions -/

/-- A step of `release_ownership`. -/
theorem Inv.frees (h : Inv cfg l S m a) (ht : S.task t = .frees z) {v : HazardPtr}
    {haz : Tid → Option Nat}
    {k : Task} (hnext : v.next = (S.hazard z).next)
      (hblock : ∀ side b, v.block side = some b → b < S.heap.fresh)
    (hprotect : ∀ side, v.nextProtect side = (S.hazard z).nextProtect side)
    (hactive : v.activeOffset = (S.hazard z).activeOffset) (hhaz : ∀ u, u ≠ t → haz u = S.haz u)
    (hk : k = .frees z ∨ k = .rest ∧ haz t = none)
    (hring : { S.setHazard z v with haz := haz, task := Function.update S.task t k }.Ring l') :
    ∃ m a, Inv cfg l' { S.setHazard z v with haz := haz, task := Function.update S.task t k } m
      a := by
  set S' : Sight := { S.setHazard z v with haz := haz, task := Function.update S.task t k } with hS'
  have hself : S'.task t = k := Function.update_self ..
  have hother : ∀ u, u ≠ t → S'.task u = S.task u := fun u hu => Function.update_of_ne hu ..
  have hh : ∀ y, S'.hazard y = if y = z then v else S.hazard y := fun y => Function.update_apply ..
  have hnexts : ∀ y ∈ l, S'.next y = S.next y := by
    intro y _
    rw [Sight.next, hh]
    split_ifs with hy
    · rw [hnext, hy, Sight.next]
    · rfl
  have hoff : ∀ side, S'.off side = S.off side := fun side => by cases side <;> rfl
  have hf : Frame cfg l l' S S' m m :=
    ⟨.of_grows h.heaps.ok (.refl h.heaps.ok), fun _ hb => .inl hb, fun side => (hoff side).symm.le,
      le_rfl,
      Ring.links h.ring hring hnexts, rfl, rfl, rfl, rfl, rfl, rfl⟩
  have hnone : ∀ y, ¬ S'.Has t y := by
    rintro y (⟨hy, hkeeps⟩ | hy)
    · rw [hself] at hkeeps
      rcases hk with rfl | ⟨-, hnone⟩
      · cases hkeeps
      · cases hnone.symm.trans hy
    · rw [hself] at hy
      rcases hk with rfl | ⟨rfl, -⟩ <;> cases hy
  have hcalm : k.locked = false ∧ k.run = none ∧ k.doing = none ∧ (∀ q, k ≠ .acquires q) ∧
      (∀ y p top, k ≠ .uses y p top) ∧ Walks cfg m k := by
    rcases hk with rfl | ⟨rfl, -⟩ <;>
      exact ⟨rfl, rfl, rfl, fun _ hq => (by cases hq), fun _ _ _ hq => (by cases hq), trivial⟩
  obtain ⟨hlocked, hrun, hdoing, hacq, huses, hwalks⟩ := hcalm
  obtain ⟨rest, hinv⟩ := h.aside (w := some z) (T := (· = t)) hf hring
    (run_goes (S := S) (fun _ => by rw [ht]; rfl) hrun)
    (fun u => by
      by_cases hu : u = t
      · have hold := h.lock u
        rw [hu, ht] at hold
        rw [hu, hself, hlocked]
        exact hold
      · rw [hother u hu]
        exact h.lock u)
    ⟨fun y side b hb => by
      rw [hh] at hb
      split_ifs at hb
      · exact hblock side b hb
      · exact h.nodes.fresh y side b hb, fun y side => by
      rw [hh]
      split_ifs
      · rw [hprotect]
        exact h.nodes.dvd z side
      · exact h.nodes.dvd y side, fun y => by
      rw [hh]
      split_ifs
      · rw [hactive]
        exact h.nodes.active z
      · exact h.nodes.active y⟩
    (fun u hu => ⟨hother u hu, hhaz u hu⟩)
    (fun y hy => by
      refine ⟨?_, rfl, rfl⟩
      rw [hh, if_neg fun heq => hy (congrArg some heq.symm)]
      exact .refl _)
    (fun u y hu hy heq => by
      cases heq
      exact hu (h.ring.leases.inj u t z hy (Ring.node_of_task h.ring ht rfl)))
    (by
      rintro u rfl y hy
      exact absurd hy (hnone y))
    (by
      rintro u rfl y p top hk'
      exact absurd (hself.symm.trans hk') (huses y p top))
    (by
      rintro u rfl y p hd
      rw [hself, hdoing] at hd
      cases hd)
    (by
      rintro u rfl q hk'
      exact absurd (hself.symm.trans hk') (hacq q))
    (by
      rintro u rfl
      rw [hself]
      exact hwalks)
    (by
      rintro u rfl y hy
      exact absurd hy (hnone y))
  exact ⟨_, _, hinv⟩

theorem Inv.freeStep (h : Inv cfg l s.sight m a) {q : FreePc} (hpc : (s.token t).pc = .free z q)
    (hring : (s.freeStep t z q).sight.Ring l') :
      ∃ m a, Inv cfg l' (s.freeStep t z q).sight m a := by
  have ht : s.sight.task t = .frees z := State.task_of_pc hpc
  have hnode := Ring.node_of_task h.ring ht rfl
  cases q with
  | writeBlock =>
    rw [State.freeStep, State.sight_setPc, State.sight_setBlock] at hring ⊢
    refine h.frees (k := .frees z) ht rfl (fun side b hb => ?_) (fun side => ?_) rfl
      (fun _ _ => rfl)
      (.inl rfl) hring
    · cases side with
      | write => cases hb
      | read => exact h.nodes.fresh z .read b hb
    · cases side <;> rfl
  | readBlock =>
    rw [State.freeStep, State.sight_setPc, State.sight_setBlock] at hring ⊢
    refine h.frees (k := .frees z) ht rfl (fun side b hb => ?_) (fun side => ?_) rfl
      (fun _ _ => rfl)
      (.inl rfl) hring
    · cases side with
      | write => exact h.nodes.fresh z .write b hb
      | read => cases hb
    · cases side <;> rfl
  | owned =>
    have hlive : Function.update s.sight.live t (s.token t).live = s.sight.live :=
      Function.update_eq_self t _
    have heq : (s.freeStep t z .owned).sight =
      { s.sight.setHazard z { s.hazard z with owned := false } with
        haz := Function.update s.sight.haz t none
        task := Function.update s.sight.task t .rest } := by
      rw [State.freeStep, State.sight_setToken]
      change { s.sight.setHazard z { s.hazard z with owned := false } with
        live := Function.update s.sight.live t (s.token t).live
        haz := Function.update s.sight.haz t none
        task := Function.update s.sight.task t .rest } = _
      rw [hlive]
      rfl
    rw [heq] at hring ⊢
    refine h.frees ht rfl (fun side b hb => h.nodes.fresh z side b ?_) (fun side => ?_) rfl
      (fun u hu => Function.update_of_ne hu ..) (.inr ⟨rfl, Function.update_self ..⟩) hring
    · cases side <;> exact hb
    · cases side <;> rfl

/-- Something happens to the tokens of `T`, which are at rest. -/
theorem Inv.retoken (h : Inv cfg l S m a) (T : Tid → Prop) {live : Tid → Bool}
    {haz : Tid → Option Nat}
    {task : Tid → Task} (hring : { S with live := live, haz := haz, task := task }.Ring l')
    (htask : ∀ u, ¬ T u → task u = S.task u ∧ haz u = S.haz u) (hrest : ∀ t, T t → S.task t = .rest)
    (hcalm : ∀ t, T t → (task t).Calm ∧ (task t).locked = false)
    (hhas : ∀ t, T t → ∀ z, haz t = some z → (task t).keeps = true → ∃ u, T u ∧ S.haz u = some z) :
    ∃ m a, Inv cfg l' { S with live := live, haz := haz, task := task } m a := by
  have hlocked : ∀ u, (task u).locked = (S.task u).locked := by
    intro u
    by_cases hu : T u
    · rw [(hcalm u hu).2, hrest u hu]
      rfl
    · rw [(htask u hu).1]
  have hrun : ∀ u, (task u).run = (S.task u).run := by
    intro u
    by_cases hu : T u
    · rw [hrest u hu]
      have hc := (hcalm u hu).1
      cases hk : task u with
      | reclaims =>
        rw [hk] at hc
        exact hc.elim
      | _ => rfl
    · rw [(htask u hu).1]
  have hwalks : ∀ u, T u → Walks cfg m (task u) := by
    intro u hu
    have hl := (hcalm u hu).2
    cases hk : task u with
    | marks | walks =>
      rw [hk] at hl
      cases hl
    | rest | acquires | uses | locks | reclaims | waits | closes | frees => trivial
  refine h.hands (T := T) rfl hring ?_ (fun u => ?_) htask
    (fun u hu => ⟨(hcalm u hu).1, hwalks u hu⟩) (fun u hu z hz => ?_)
  · exact congrArg S.blocksLock.bind (funext hrun)
  · rw [hlocked]
    exact h.lock u
  · rcases hz with ⟨hz, hkeeps⟩ | hz
    · obtain ⟨v, hv, hhaz⟩ := hhas u hu z hz hkeeps
      refine ⟨v, .inl ⟨hhaz, ?_⟩⟩
      rw [hrest v hv]
      rfl
    · have hc := (hcalm u hu).1
      rw [show task u = .acquires (.check S.reclaimCounter z) from hz] at hc
      cases hc

theorem rest_of_idle (hpc : (s.token t).pc = .idle) : s.sight.task t = .rest := State.task_of_pc hpc

theorem Inv.freeHazardPtr (h : Inv cfg l s.sight m a) (hpc : (s.token t).pc = .idle) {live : Bool}
    (hring : (s.freeHazardPtr t live).sight.Ring l') :
    ∃ m a, Inv cfg l' (s.freeHazardPtr t live).sight m a := by
  have hrest := rest_of_idle hpc
  rw [State.freeHazardPtr] at hring ⊢
  split at hring
  · next z hz =>
    rw [State.sight_setToken] at hring ⊢
    refine h.retoken (· = t) hring
      (fun u hu => ⟨Function.update_of_ne hu .., Function.update_of_ne hu ..⟩)
      (by rintro u rfl; exact hrest) ?_ ?_
    · rintro u rfl
      rw [Function.update_self]
      exact ⟨trivial, rfl⟩
    · rintro u rfl y - hkeeps
      rw [Function.update_self] at hkeeps
      cases hkeeps
  · next hz =>
    rw [State.sight_setToken] at hring ⊢
    refine h.retoken (· = t) hring
      (fun u hu => ⟨Function.update_of_ne hu .., Function.update_of_ne hu ..⟩)
      (by rintro u rfl; exact hrest) ?_ ?_
    · rintro u rfl
      rw [Function.update_self]
      exact ⟨by rw [hpc]; trivial, by rw [hpc]; rfl⟩
    · rintro u rfl y hy -
      rw [Function.update_self] at hy
      cases hz.symm.trans hy

/-- The hazard pointer of `u` is moved to `t`. -/
theorem Inv.hazMoves (h : Inv cfg l s.sight m a) (ht : (s.token t).pc = .idle)
    (hu : (s.token u).pc = .idle) {live live' : Bool}
    (hring : ((s.setToken t { s.token t with live, haz := (s.token u).haz }).setToken u
      { s.token u with live := live', haz := none }).sight.Ring l') :
    ∃ m a, Inv cfg l' ((s.setToken t { s.token t with live, haz := (s.token u).haz }).setToken u
      { s.token u with live := live', haz := none }).sight m a := by
  rw [State.sight_setToken, State.sight_setToken] at hring ⊢
  have htask : ∀ v, Function.update (Function.update s.sight.task t (s.token t).pc.task) u
      (s.token u).pc.task v = s.sight.task v := by
    intro v
    rw [Function.update_apply, Function.update_apply]
    split_ifs with hv hv'
    · rw [hv]
      rfl
    · rw [hv']
      rfl
    · rfl
  have hrest : ∀ v, v = t ∨ v = u → s.sight.task v = .rest := by
    rintro v (rfl | rfl)
    · exact rest_of_idle ht
    · exact rest_of_idle hu
  refine h.retoken (fun v => v = t ∨ v = u) hring (fun v hv => ⟨htask v, ?_⟩) hrest (fun v hv => ?_)
    (fun v hv y hy _ => ?_)
  · rw [not_or] at hv
    exact (Function.update_of_ne hv.2 ..).trans (Function.update_of_ne hv.1 ..)
  · rw [htask v, hrest v hv]
    exact ⟨trivial, rfl⟩
  · refine ⟨u, .inr rfl, ?_⟩
    rw [Function.update_apply] at hy
    split_ifs at hy with hvu
    have hy : Function.update s.sight.haz t (s.token u).haz v = some y := hy
    rcases hv with rfl | hv
    · rw [Function.update_self] at hy
      exact hy
    · exact absurd hv hvu

theorem sight_frame : (s.setToken t { s.token t with frame := n }).sight = s.sight := by
  have hlive : Function.update s.sight.live t (s.token t).live = s.sight.live :=
    Function.update_eq_self t _
  have hhaz : Function.update s.sight.haz t (s.token t).haz = s.sight.haz :=
    Function.update_eq_self t _
  have htask : Function.update s.sight.task t (s.token t).pc.task = s.sight.task :=
    Function.update_eq_self t _
  rw [State.sight_setToken]
  dsimp only
  rw [hlive, hhaz, htask]

/-- A token at rest starts something. -/
theorem Inv.begins (h : Inv cfg l S m a) (ht : S.task t = .rest) {k : Task} (hk : k.Calm)
    (hlocked : k.locked = false) (hring : (S.goes t k).Ring l') :
      ∃ m a, Inv cfg l' (S.goes t k) m a := by
  refine h.retoken (· = t) hring (fun u hu => ⟨Function.update_of_ne hu .., rfl⟩)
    (by rintro u rfl; exact ht) ?_ ?_
  · rintro u rfl
    rw [Function.update_self]
    exact ⟨hk, hlocked⟩
  · rintro u rfl y hy -
    exact ⟨u, rfl, hy⟩

theorem Inv.call (h : Inv cfg l s.sight m a) (hpc : (s.token t).pc = .idle)
    (hring : (s.call t c).sight.Ring l') : ∃ m a, Inv cfg l' (s.call t c).sight m a := by
  have hrest := rest_of_idle hpc
  rw [State.call] at hring ⊢
  split at hring
  · next z hz =>
    obtain ⟨pc, heq, htask⟩ := enter_task (s := s) (t := t) (z := z) (c := c)
    rw [heq, State.sight_setPc, htask] at hring ⊢
    exact h.begins hrest ⟨rfl, rfl⟩ rfl hring
  · rw [State.sight_setPc] at hring ⊢
    exact h.begins hrest rfl rfl hring

/-! ## A step -/

theorem Inv.tokenStep {spurious : Bool} (h : Inv cfg l s.sight m a)
    (hscope : s.writeOffset ≤ cfg.inactive)
    (hring : s'.sight.Ring l') (hs : s.tokenStep .natural cfg t spurious = some s') :
    ∃ l m a, Inv cfg l s'.sight m a := by
  rw [State.tokenStep] at hs
  split at hs
  · cases hs
  · next c q hpc =>
    cases hs
    obtain ⟨m', a', hinv⟩ := h.acquire hpc hring
    exact ⟨l', m', a', hinv⟩
  · next z w q hpc =>
    cases hs
    rcases State.put_sight hpc with hd | hl
    · obtain ⟨m', a', hinv⟩ := h.doing hd
      exact ⟨l, m', a', hinv⟩
    · obtain ⟨m', a', hinv⟩ := h.leaving hl hring
      exact ⟨l', m', a', hinv⟩
  · next z k q hpc =>
    rcases State.read_sight hpc hs with hd | hl | hl | ⟨idx, b, r, rfl, heq⟩
    · obtain ⟨m', a', hinv⟩ := h.doing hd
      exact ⟨l, m', a', hinv⟩
    · obtain ⟨m', a', hinv⟩ := h.leaving hl hring
      exact ⟨l', m', a', hinv⟩
    · exact h.locking hl hring
    · obtain ⟨m', a', hinv⟩ := h.reclaim hscope hpc
      rw [← heq] at hinv
      exact ⟨l, m', a', hinv⟩
  · next q hpc =>
    rcases State.close_sight hpc hs with heq | hc
    · rw [heq]
      exact ⟨l, m, a, h⟩
    · obtain ⟨m', a', hinv⟩ := h.closing hc hring
      exact ⟨l', m', a', hinv⟩
  · next z q hpc =>
    cases hs
    obtain ⟨m', a', hinv⟩ := h.freeStep hpc hring
    exact ⟨l', m', a', hinv⟩

/-- **Every step keeps what keeps the blocks.** -/
theorem Inv.step {act : Act V} (h : Inv cfg l s.sight m a) (hscope : s.writeOffset ≤ cfg.inactive)
    (hring : s'.sight.Ring l') (hs : Channel.step .natural cfg s act = some s') :
    ∃ l m a, Inv cfg l s'.sight m a := by
  have lift : (∃ m a, Inv cfg l' s'.sight m a) → ∃ l m a, Inv cfg l s'.sight m a :=
    fun hinv => ⟨l', hinv⟩
  cases act with
  | copy u t =>
    obtain ⟨⟨-, ht⟩, heq⟩ := Option.ite_none_right_eq_some.mp hs
    cases heq
    have hpc := (Hazards.vacant ht).1
    have hrest := rest_of_idle hpc
    refine lift ?_
    rw [State.sight_setToken] at hring ⊢
    refine h.retoken (· = t) hring
      (fun u hu => ⟨Function.update_of_ne hu .., Function.update_of_ne hu ..⟩)
      (by rintro u rfl; exact hrest) ?_ ?_
    · rintro u rfl
      rw [Function.update_self]
      exact ⟨by rw [hpc]; trivial, by rw [hpc]; rfl⟩
    · rintro u rfl y hy -
      rw [Function.update_self] at hy
      exact ⟨u, rfl, hy⟩
  | move u t =>
    obtain ⟨⟨hu, ht⟩, heq⟩ := Option.ite_none_right_eq_some.mp hs
    cases heq
    exact lift (h.hazMoves (Hazards.vacant ht).1 (Hazards.ready hu).1 hring)
  | assign u t =>
    obtain ⟨⟨hu, ht⟩, heq⟩ := Option.ite_none_right_eq_some.mp hs
    split at heq
    · cases heq
      exact lift (h.freeHazardPtr (Hazards.ready ht).1 hring)
    · split at heq
      · cases heq
        exact lift (h.freeHazardPtr (Hazards.ready hu).1 hring)
      · cases heq
        exact lift (h.hazMoves (Hazards.ready ht).1 (Hazards.ready hu).1 hring)
  | destroy t =>
    obtain ⟨ht, heq⟩ := Option.ite_none_right_eq_some.mp hs
    cases heq
    exact lift (h.freeHazardPtr (Hazards.ready ht).1 hring)
  | call t c =>
    obtain ⟨⟨ht, -⟩, heq⟩ := Option.ite_none_right_eq_some.mp hs
    cases heq
    rw [← sight_frame (t := t) (n := (s.token t).frame + 1)] at h
    refine lift (h.call ?_ hring)
    rw [State.token_setToken, if_pos rfl]
    exact (Hazards.ready ht).1
  | close t =>
    obtain ⟨ht, heq⟩ := Option.ite_none_right_eq_some.mp hs
    cases heq
    refine lift ?_
    rw [State.sight_setClose] at hring ⊢
    exact h.begins (k := .waits) (rest_of_idle (Hazards.ready ht).1) trivial rfl hring
  | step t spurious => exact h.tokenStep hscope hring hs
  | release t =>
    rw [Channel.step] at hs
    split at hs
    · next z k idx b hpc =>
      cases hs
      have ht : s.sight.task t = .uses z (.has .read idx idx (idx + 1) b) 0 := State.task_of_pc hpc
      obtain ⟨m', a', hinv⟩ := h.work (.drop ht)
      refine ⟨l, m', a', ?_⟩
      rw [State.destroyValue, State.sight_setRead]
      have heq : ∀ (d : List (Nat × V)), ({ (s.setElem cfg b idx
          { s.elem cfg b idx with data := none }).check (s.elem cfg b idx).data.isSome with
            destroyed := d } : State V).sight = s.sight := fun d => State.sight_setElem
      rw [heq]
      exact hinv
    · cases hs

/-! ## A new channel -/

theorem Inv.start : Inv cfg [hazardPtrList] (.init cfg : State V).sight
    ⟨⟨0, 0, fun _ => 0⟩, 0, fun _ _ => 0, fun _ => 0⟩
    ⟨0, []⟩ := by
  have hnone : ∀ t z, ¬ (State.init cfg : State V).sight.Has t z := by
    rintro t z (⟨hz, -⟩ | hz) <;> cases hz
  have hhas : ∀ k, (⟨0, 0, fun _ => 0⟩ : Chain).Has k ↔ k = 0 := fun k =>
    ⟨fun hk => Nat.le_zero.mp hk.2, fun hk => by cases hk; exact ⟨le_rfl, le_rfl⟩⟩
  have hok : (⟨0, 0, fun _ => 0⟩ : Chain).Ok cfg.toLayout
    (State.init cfg : State V).sight.heap := by
    refine ⟨le_rfl, fun j k hj hk _ => ?_, fun k _ => Nat.one_pos, fun k hk => ?_, fun k hk => ?_⟩
    · rw [(hhas j).mp hj, (hhas k).mp hk]
    · rw [(hhas k).mp hk, Nat.zero_mul]
      rfl
    · rw [if_pos ((hhas k).mp hk)]
      rfl
  have hzero : ∀ side, 0 * cfg.blockSize ≤ (State.init cfg : State V).sight.off side :=
    fun side => by
    rw [Nat.zero_mul]
    exact Nat.zero_le _
  refine
    { ring := Hazards.init.sight
      heaps := ⟨hok, fun b hb => .inr ⟨0, (hhas 0).mpr rfl, (Nat.lt_one_iff.mp hb).symm⟩,
        (hhas 0).mpr rfl, hzero, rfl⟩
      nodes := ⟨fun z side b hb => ?_, fun z side => ?_, fun z => .inr le_rfl⟩
      lock := fun t => ⟨fun h => (by cases h), fun h => (by cases h)⟩
      head := ⟨0, le_rfl, ⟨le_rfl, rfl⟩, hzero⟩
      off := ⟨Nat.zero_le _, Nat.dvd_zero _⟩
      seats := fun t z h => absurd h (hnone t z)
      top := fun t z p top h => by cases h
      holds := fun t z p h => by cases h
      calling := fun t q h => by cases h
      walks := fun t => trivial
      runs := ⟨⟨rfl, (Nat.zero_mul _).symm, 0, (hhas 0).mpr rfl, rfl⟩, rfl⟩ }
  · cases side <;> cases hb
  · cases side <;> exact Nat.dvd_zero _

end Sight

end CoroUtil.Channel
