import CoroUtil.Channel.Reclamation.Lowest

/-!
# The blocks are advanced

The walk to the block of `ProtectIdx`, `try_advance_hazptr_block` for the block pointers
that are before it, and the walk again if an offset was lower then.  What the second loop
has not stored itself is protected by the offset that it has loaded after it
(`Todo.through`, `Inv.advActive`).
-/

namespace CoroUtil.Channel

open CoroUtil.General CoroUtil.Blocks

namespace Sight

variable {V : Type} {cfg : Config} {l : List Nat} {S : Sight} {s : State V} {m : Map} {a a' : Plan}
  {f k b z y n idx o curr new : Nat} {now side : Side} {p : Phase} {r : TryReclaim} {x : Scan}
  {t u : Tid} {again : Bool} {left left' : Side → Prop}

/-! ## What the second loop has to do -/

theorem Todo.imp (h : Todo cfg S m a z p left x) (hleft : ∀ side, left side → left' side) :
    Todo cfg S m a z p left' x :=
  ⟨h.1, fun side => (h.2 side).imp_left fun hl => ⟨hl.1.imp_right (hleft side), hl.2⟩⟩

/-- It is at `now` of `curr`: that is the one it comes to, or has still to come to. -/
theorem Todo.ahead {Q : Side → Prop}
    (h : Todo cfg S m a z p (fun side => z = curr ∧ Ahead now side ∧ Q side) x) (side : Side) :
    (z ∈ a.rest ∨ z = curr ∧ now = .write ∧ side = .read) ∧
        Follows cfg m z p (a.new * cfg.blockSize) side ∨
      (z = curr ∧ side = now ∧ Q side ∧ Follows cfg m z p (a.new * cfg.blockSize) side) ∨
      (x.count = S.hazPtrCounter → Done cfg m z p x.protect side) := by
  rcases h.2 side with ⟨hmem | ⟨hcurr, hahead, hq⟩, hf⟩ | hd
  · exact .inl ⟨.inl hmem, hf⟩
  · by_cases hside : side = now
    · exact .inr (.inl ⟨hcurr, hside, hq, hf⟩)
    · refine .inl ⟨.inr ⟨hcurr, ?_⟩, hf⟩
      rcases hahead with rfl | rfl
      · cases side with
        | write => exact absurd rfl hside
        | read => exact ⟨rfl, rfl⟩
      · cases now with
        | write => exact ⟨rfl, rfl⟩
        | read => exact absurd rfl hside
  · exact .inr (.inr hd)

/-- It is through with `now`. -/
theorem Todo.through {Q : Side → Prop}
    (h : Todo cfg S m a z p (fun side => z = curr ∧ Ahead now side ∧ Q side) x)
    (hdone : Q now → Follows cfg m z p (a.new * cfg.blockSize) now →
      x.count = S.hazPtrCounter → Done cfg m z p x.protect now) :
    Todo cfg S m a z p (fun side => z = curr ∧ now = .write ∧ side = .read) x := by
  refine ⟨h.1, fun side => ?_⟩
  rcases h.ahead side with hleft | ⟨-, rfl, hq, hf⟩ | hd
  · exact .inl hleft
  · exact .inr (hdone hq hf)
  · exact .inr hd

section

variable (h : Inv cfg l S m a)
include h

theorem Inv.new_offset (hnew : New cfg S m a' new) : S.offset new = a'.new * cfg.blockSize :=
  h.at_offset hnew.at_ hnew.le

/-- A block is at a position from the head on. -/
theorem Inv.position (hquiet : Quiet cfg S m) (hlimbo : limbo S.run = []) (hb : b < S.heap.fresh) :
    ∃ k, m.lo ≤ k ∧ m.At k b := by
  rcases h.heaps.mem b hb with hmem | ⟨k, hk, hkb⟩
  · rw [hlimbo] at hmem
    exact absurd hmem List.not_mem_nil
  · exact ⟨k, hquiet.first ▸ hk.1, hk.2, hkb⟩

/-- Nothing that a token has is before the committed head. -/
theorem Inv.done_lo (hy : S.Has u y) : Done cfg m y (S.task u).phase (m.lo * cfg.blockSize) side :=
  ⟨Nat.mul_le_mul_right _ (h.seats u y hy side).le, fun hl =>
    Nat.mul_le_mul_right _ ((h.phase_holds hy).looks hl.1).2.1⟩

theorem Inv.clear_lo (hy : S.Has u y) : (S.task u).phase.Clear (m.lo * cfg.blockSize) :=
  fun i hi => ((h.phase_holds hy).idx i hi).2.1

/-- What is done for `ProtectIdx` is done for the block of the new head. -/
theorem Inv.advanced (hy : S.Has u y) (hend : a'.new = m.lo ∨ a'.new * cfg.blockSize ≤ o)
    (hclear : (S.task u).phase.Clear o)
    (hdone : x.count = S.hazPtrCounter → o ≤ m.lo * cfg.blockSize ∨
      ∀ side, Done cfg m y (S.task u).phase o side) :
    (S.task u).phase.Clear (a'.new * cfg.blockSize) ∧
      (x.count = S.hazPtrCounter → ∀ side,
        Done cfg m y (S.task u).phase (a'.new * cfg.blockSize) side) := by
  rcases hend with hlo | hle
  · rw [hlo]
    exact ⟨h.clear_lo hy, fun _ _ => h.done_lo hy⟩
  · refine ⟨hclear.mono hle, fun hc side => ?_⟩
    rcases hdone hc with hlo | hd
    · exact (h.done_lo hy).mono (hle.trans hlo)
    · exact (hd side).mono hle

/-- The pointer of a hazard pointer that a token has is to a block of the list. -/
theorem Inv.has_at (hy : S.Has u y) (hb : (S.hazard y).block side = some b) :
    ∃ k, m.lo ≤ k ∧ k ≤ m.pos y side ∧ m.At k b := by
  have hseat := h.seats u y hy side
  exact ⟨m.pos y side, hseat.le, le_rfl, hseat.last, Option.some.inj (hseat.block.symm.trans hb)⟩

/-- It is not null. -/
theorem Inv.has_block (hy : S.Has u y) : (S.hazard y).block side ≠ none := by
  rw [(h.seats u y hy side).block]
  exact Option.some_ne_none _

end

/-! ## The walk -/

section

variable (h : Inv cfg l s.sight m a)
include h

theorem Inv.walk (hz : z ∈ l) (hsite : Site cfg l s.sight m a' z idx (.walk x new again))
    (hduty : ∀ u y, s.sight.Has u y →
      Duty cfg s.sight m a' idx y (s.sight.task u).phase (.walk x new again)) :
    Sound cfg l s.sight m z idx (s.reclaimStep .natural cfg z (.walk x new again)).2 := by
  obtain ⟨hs, hnew, hreach, hend, hfirst⟩ := hsite
  have hoff : s.offset new = a'.new * cfg.blockSize := h.new_offset hnew
  rw [State.reclaimStep]
  dsimp only
  rw [hoff, Layout.less_natural]
  by_cases hlt : a'.new * cfg.blockSize < x.protect
  · rw [if_pos (decide_eq_true hlt)]
    refine ⟨trivial, a', ⟨hs, hnew, hreach, hlt, hfirst⟩, fun u y hy => ?_⟩
    have hold := hduty u y hy
    cases again with
    | false => exact hold
    | true => exact hold
  · have hge : x.protect ≤ a'.new * cfg.blockSize := Nat.le_of_not_lt hlt
    rw [decide_eq_false hlt, if_neg Bool.false_ne_true]
    cases again with
    | true =>
      rw [if_pos rfl]
      exact ⟨trivial, a', ⟨hs, hnew⟩, fun u y hy =>
        h.advanced hy hend (hduty u y hy).1 (hduty u y hy).2⟩
    | false =>
      have hscan := hfirst rfl
      have hle : a'.new * cfg.blockSize ≤ x.protect := by
        refine hend.resolve_left fun hlo => ?_
        rw [hlo] at hge
        exact Nat.lt_irrefl _ (hscan.trans_le hge)
      have hscans : State.scans .natural cfg x = true := by
        rw [State.scans, hs.oldOff]
        exact decide_eq_true hscan
      obtain ⟨rest, hmem, hloop⟩ := h.ring.loop hz
      rw [if_neg Bool.false_ne_true, if_pos hscans]
      exact ⟨trivial, ⟨a'.new, rest⟩, ⟨⟨hs, ⟨hnew.le, hnew.at_, hnew.off⟩, hge⟩, hloop _⟩,
        fun u y hy => ⟨(hduty u y hy).1.mono hle, fun side =>
          .inl ⟨.inl (hmem y (Ring.mem_of_has h.ring hy)), ((hduty u y hy).2 side).mono hle⟩⟩⟩

/-- The walk does not come to the end of the list. -/
theorem Inv.walkNext_some (hsite : Site cfg l s.sight m a' z idx (.walkNext x new again)) :
    ∃ n, (s.heap.block new).next = some n ∧ m.At (a'.new + 1) n := by
  obtain ⟨-, hnew, hreach, hlt, -⟩ := hsite
  have hhas : m.chain.Has a'.new := ⟨h.heaps.lo.1.trans hnew.le, hnew.at_.1⟩
  rcases Reclaim.next_of_has h.heaps.ok hhas hnew.at_.2 with ⟨-, hlast⟩ | ⟨n, hn, hhas', hb⟩
  · have hreach := hreach.last
    rw [← hlast] at hreach
    exact absurd (hlt.trans_le hreach) (Nat.lt_irrefl _)
  · exact ⟨n, hn, hhas'.2, hb⟩

theorem Inv.walkNext (hsite : Site cfg l s.sight m a' z idx (.walkNext x new again))
    (hduty : ∀ u y, s.sight.Has u y →
      Duty cfg s.sight m a' idx y (s.sight.task u).phase (.walkNext x new again)) :
    Sound cfg l s.sight m z idx (s.reclaimStep .natural cfg z (.walkNext x new again)).2 := by
  obtain ⟨n, hn, hat⟩ := h.walkNext_some hsite
  obtain ⟨hs, hnew, hreach, hlt, hfirst⟩ := hsite
  have hle : (a'.new + 1) * cfg.blockSize ≤ x.protect := by
    obtain ⟨c, hc⟩ := hs.dvd
    rw [hc, Nat.mul_comm cfg.blockSize] at hlt ⊢
    exact Nat.mul_le_mul_right _ (Nat.lt_of_mul_lt_mul_right hlt)
  rw [State.reclaimStep, hn]
  refine ⟨trivial, { a' with new := a'.new + 1 }, ⟨hs, ⟨Nat.le_succ_of_le hnew.le, hat,
    fun side => hle.trans (hreach.off side)⟩, hreach, .inr hle, hfirst⟩, fun u y hy => ?_⟩
  have hold := hduty u y hy
  cases again with
  | false => exact hold
  | true => exact hold

end

/-! ## The second loop -/

theorem afterAdv_sound (hadv : Advances cfg S m a' x new) (hl : Loads l S a' z curr n)
    (hduty : ∀ u y, S.Has u y → Todo cfg S m a' y (S.task u).phase (fun _ => False) x) :
    Sound cfg l S m z idx (State.afterAdv .natural cfg z x new n) := by
  obtain ⟨hs, hnew, hle⟩ := hadv
  rw [State.afterAdv]
  split_ifs with hn hscans
  · rw [hn] at hl
    refine ⟨trivial, a', ⟨hs, hnew, hle⟩,
      fun u y hy => ⟨(hduty u y hy).1.mono hle, fun hc => .inr fun side => ?_⟩⟩
    refine ((hduty u y hy).2 side).elim (fun hleft => ?_) fun hd => hd hc
    have hmem := hleft.1.resolve_right not_false
    rw [hl.rest_nil] at hmem
    exact absurd hmem List.not_mem_nil
  · exact ⟨trivial, a', ⟨⟨hs, hnew, hle⟩, hl.loop hn⟩, hduty⟩
  · have hback : x.protect ≤ x.oldOff := Nat.le_of_not_lt fun hlt => hscans (decide_eq_true hlt)
    rw [hs.oldOff] at hback
    exact ⟨trivial, a', ⟨hs, hnew, hle⟩,
      fun u y hy => ⟨(hduty u y hy).1.mono hle, fun _ => .inl hback⟩⟩

/-- A call of `try_advance_hazptr_block` is through. -/
theorem afterSide_sound (hadv : Advances cfg S m a' x new) (hl : Loads l S a' z curr n)
    (hduty : ∀ u y, S.Has u y → Todo cfg S m a' y (S.task u).phase
      (fun side => y = curr ∧ now = .write ∧ side = .read) x) :
    Sound cfg l S m z idx (State.afterSide .natural cfg z x new curr n now) := by
  cases now with
  | write =>
    exact ⟨trivial, a', ⟨hadv, hl⟩, fun u y hy => (hduty u y hy).imp fun side hleft =>
      ⟨hleft.1, .inr hleft.2.2⟩⟩
  | read =>
    exact afterAdv_sound hadv hl fun u y hy => (hduty u y hy).imp fun side hleft => by
      cases hleft.2.1

section

variable (h : Inv cfg l s.sight m a)
include h

theorem Inv.advNext (hsite : Site cfg l s.sight m a' z idx (.advNext x new curr))
    (hduty : ∀ u y, s.sight.Has u y →
      Duty cfg s.sight m a' idx y (s.sight.task u).phase (.advNext x new curr)) :
    Sound cfg l s.sight m z idx (s.reclaimStep .natural cfg z (.advNext x new curr)).2 := by
  obtain ⟨hadv, hloop⟩ := hsite
  obtain ⟨tl, htl, hloads⟩ := h.ring.loads hloop
  refine ⟨trivial, { a' with rest := tl }, ⟨⟨hadv.scans, ⟨hadv.new.le, hadv.new.at_, hadv.new.off⟩,
    hadv.le⟩, hloads⟩, fun u y hy => ⟨(hduty u y hy).1, fun side => ?_⟩⟩
  refine ((hduty u y hy).2 side).imp_left fun hleft => ⟨?_, hleft.2⟩
  have hmem := hleft.1.resolve_right not_false
  rw [htl, List.mem_cons] at hmem
  exact hmem.symm

theorem Inv.advOwned (hsite : Site cfg l s.sight m a' z idx (.advOwned x new curr n))
    (hduty : ∀ u y, s.sight.Has u y →
      Duty cfg s.sight m a' idx y (s.sight.task u).phase (.advOwned x new curr n)) :
    Sound cfg l s.sight m z idx (s.reclaimStep .natural cfg z (.advOwned x new curr n)).2 := by
  rw [State.reclaimStep]
  dsimp only
  split_ifs with howned
  · exact ⟨trivial, a', hsite,
      fun u y hy => Todo.imp (hduty u y hy) fun side hcurr => ⟨hcurr, .inl rfl⟩⟩
  · refine afterAdv_sound hsite.1 hsite.2 fun u y hy => Todo.imp (hduty u y hy) fun side hcurr => ?_
    exact howned (hcurr ▸ Ring.owned_of_has h.ring hy)

theorem Inv.advBlock (hsite : Site cfg l s.sight m a' z idx (.advBlock x new curr n side))
    (hduty : ∀ u y, s.sight.Has u y →
      Duty cfg s.sight m a' idx y (s.sight.task u).phase (.advBlock x new curr n side)) :
    Sound cfg l s.sight m z idx (s.reclaimStep .natural cfg z (.advBlock x new curr n side)).2 := by
  rw [State.reclaimStep, State.getBlock_eq]
  dsimp only
  cases hb : (s.hazard curr).block side with
  | none =>
    refine afterSide_sound hsite.1 hsite.2 fun u y hy => Todo.imp (hduty u y hy) fun _ hleft => ?_
    obtain ⟨rfl, -⟩ := hleft
    exact absurd hb (h.has_block hy)
  | some b =>
    refine ⟨trivial, a', ⟨hsite.1, hsite.2, h.nodes.fresh curr side b hb⟩, fun u y hy =>
      Todo.imp (hduty u y hy) fun side' hleft => ⟨hleft.1, hleft.2, fun hside _ => ?_⟩⟩
    obtain ⟨rfl, -⟩ := hleft
    subst hside
    exact h.has_at hy hb

omit h in
theorem advOffset_sound (hsite : Site cfg l s.sight m a' z idx (.advOffset x new curr n side b))
    (hduty : ∀ u y, s.sight.Has u y →
      Duty cfg s.sight m a' idx y (s.sight.task u).phase (.advOffset x new curr n side b)) :
    Sound cfg l s.sight m z idx (s.reclaimStep .natural cfg z (.advOffset x new curr n side b)).2 :=
  ⟨trivial, a', ⟨hsite.1, hsite.2.1, hsite.2.2, rfl⟩, hduty⟩

/-- A block that is not before the new head stays. -/
theorem Inv.advNewOffset {boff : Nat}
    (hsite : Site cfg l s.sight m a' z idx (.advNewOffset x new curr n side b boff))
    (hduty : ∀ u y, s.sight.Has u y →
      Duty cfg s.sight m a' idx y (s.sight.task u).phase (.advNewOffset x new curr n side b boff)) :
    Sound cfg l s.sight m z idx
      (s.reclaimStep .natural cfg z (.advNewOffset x new curr n side b boff)).2 := by
  obtain ⟨hadv, hl, hb, hboff⟩ := hsite
  have hoff : s.offset new = a'.new * cfg.blockSize := h.new_offset hadv.new
  rw [State.reclaimStep]
  dsimp only
  rw [hoff, Layout.less_natural]
  by_cases hlt : boff < a'.new * cfg.blockSize
  · rw [if_pos (decide_eq_true hlt)]
    exact ⟨trivial, a', ⟨hadv, hl, hb, hboff ▸ hlt⟩, hduty⟩
  · rw [decide_eq_false hlt, if_neg Bool.false_ne_true]
    refine afterSide_sound hadv hl fun u y hy => (hduty u y hy).through fun hpos hf hc => ?_
    obtain ⟨k, hlo, hk, hat⟩ := hpos rfl hc
    have hnew : a'.new * cfg.blockSize ≤ m.pos y side * cfg.blockSize := by
      rw [hboff, h.at_offset hat hlo] at hlt
      exact (Nat.le_of_not_lt hlt).trans (Nat.mul_le_mul_right _ hk)
    refine ⟨hadv.le.trans hnew, fun hlooks => hadv.le.trans ?_⟩
    rcases hf hlooks with hlow | hlow
    · exact hlow
    · exact hnew.trans (Nat.mul_le_mul_right _ hlow)

/-- The compare-exchange fails: the pointer has been changed. -/
theorem Inv.advCas_fails (hsite : Site cfg l s.sight m a' z idx (.advCas x new curr n side b))
    (hduty : ∀ u y, s.sight.Has u y →
      Duty cfg s.sight m a' idx y (s.sight.task u).phase (.advCas x new curr n side b))
    (hne : s.getBlock curr side ≠ some b) :
    Sound cfg l s.sight m z idx (s.reclaimStep .natural cfg z (.advCas x new curr n side b)).2 := by
  obtain ⟨hadv, hl, -⟩ := hsite
  rw [State.reclaimStep, if_neg hne]
  dsimp only
  rw [State.getBlock_eq]
  cases hb : (s.hazard curr).block side with
  | none =>
    refine afterSide_sound hadv hl fun u y hy => Todo.imp (hduty u y hy) fun _ hleft => ?_
    obtain ⟨rfl, -⟩ := hleft
    exact absurd hb (h.has_block hy)
  | some b' =>
    refine ⟨trivial, a', ⟨hadv, hl, h.nodes.fresh curr side b' hb⟩, fun u y hy =>
      Todo.imp (hduty u y hy) fun side' hleft => ⟨hleft.1, hleft.2.1, fun hside _ => ?_⟩⟩
    obtain ⟨rfl, -⟩ := hleft
    subst hside
    exact h.has_at hy hb

/-- What is stored there protects as much as its block. -/
theorem Inv.advFailed (hquiet : Quiet cfg s.sight m) (hlimbo : limbo s.sight.run = [])
    (hsite : Site cfg l s.sight m a' z idx (.advFailed x new curr n side b))
    (hduty : ∀ u y, s.sight.Has u y →
      Duty cfg s.sight m a' idx y (s.sight.task u).phase (.advFailed x new curr n side b)) :
    Sound cfg l s.sight m z idx
      (s.reclaimStep .natural cfg z (.advFailed x new curr n side b)).2 := by
  obtain ⟨hadv, hl, hb⟩ := hsite
  have hle : min x.protect (s.offset b) ≤ x.protect := Nat.min_le_left ..
  have hdvd : cfg.blockSize ∣ min x.protect (s.offset b) := by
    obtain ⟨k, hlo, hat⟩ := h.position hquiet hlimbo hb
    have hoff : s.offset b = k * cfg.blockSize := h.at_offset hat hlo
    rw [hoff]
    rcases Nat.le_total x.protect (k * cfg.blockSize) with hk | hk
    · rw [Nat.min_eq_left hk]
      exact hadv.scans.dvd
    · rw [Nat.min_eq_right hk]
      exact Nat.dvd_mul_left ..
  rw [State.reclaimStep]
  dsimp only
  rw [keepMin_natural]
  refine ⟨trivial, a', ⟨⟨hadv.scans.lower hle hdvd, hadv.new, hle.trans hadv.le⟩, hl⟩,
    fun u y hy => ?_⟩
  refine ⟨(hduty u y hy).1, fun side' => ?_⟩
  rcases Todo.ahead (hduty u y hy) side' with hleft | ⟨hcurr, rfl, hpos, -⟩ | hd
  · exact .inl hleft
  · refine .inr (.inl ⟨hcurr, rfl, fun hc => ?_⟩)
    obtain ⟨k, hlo, hk, hat⟩ := hpos rfl hc
    have hoff : s.offset b = k * cfg.blockSize := h.at_offset hat hlo
    rw [hoff]
    exact (Nat.min_le_right ..).trans (Nat.mul_le_mul_right _ hk)
  · exact .inr (.inr fun hc => (hd hc).mono hle)

/-- Whoever has loaded the block that was there has its offset in `active_offset`. -/
theorem Inv.advActive (hscope : s.writeOffset ≤ cfg.inactive)
    (hsite : Site cfg l s.sight m a' z idx (.advActive x new curr n side))
    (hduty : ∀ u y, s.sight.Has u y →
      Duty cfg s.sight m a' idx y (s.sight.task u).phase (.advActive x new curr n side)) :
    Sound cfg l s.sight m z idx
      (s.reclaimStep .natural cfg z (.advActive x new curr n side)).2 := by
  obtain ⟨hadv, hl⟩ := hsite
  have hle : min x.protect (s.hazard curr).activeOffset ≤ x.protect := Nat.min_le_left ..
  rw [State.reclaimStep]
  dsimp only
  rw [keepMin_natural]
  refine afterSide_sound ⟨h.keepMin hscope hadv.scans, hadv.new, hle.trans hadv.le⟩ hl fun u y hy =>
    ⟨(hduty u y hy).1, fun side' => ?_⟩
  rcases (hduty u y hy).2 side' with ⟨hleft, hf⟩ | ⟨rfl, rfl, hpos⟩ | hd
  · exact .inl ⟨hleft, hf⟩
  · exact .inr fun hc => ⟨hle.trans (hpos hc), fun hlooks =>
      (Nat.min_le_right ..).trans ((h.phase_holds hy).looks hlooks.1).1⟩
  · exact .inr fun hc => (hd hc).mono hle

/-! ## The end of `try_advance_head` -/

/-- The head is reduced if an offset was lower in the second loop. -/
theorem Inv.reduce (hsite : Site cfg l s.sight m a' z idx (.reduce x new))
    (hduty : ∀ u y, s.sight.Has u y →
      Duty cfg s.sight m a' idx y (s.sight.task u).phase (.reduce x new)) :
    Sound cfg l s.sight m z idx (s.reclaimStep .natural cfg z (.reduce x new)).2 := by
  obtain ⟨hs, hnew, hle⟩ := hsite
  have hoff : s.offset new = a'.new * cfg.blockSize := h.new_offset hnew
  rw [State.reclaimStep]
  dsimp only
  rw [hoff, Layout.less_natural]
  by_cases hlt : x.protect < a'.new * cfg.blockSize
  · rw [if_pos (decide_eq_true hlt)]
    exact ⟨trivial, { a' with new := m.lo },
      ⟨hs, ⟨le_rfl, ⟨h.heaps.lo.2, hs.old.symm⟩, h.heaps.off⟩,
      ⟨hle.trans (Nat.mul_le_mul_right _ hnew.at_.1), fun side => hle.trans (hnew.off side)⟩,
        .inl rfl,
      fun heq => by cases heq⟩, hduty⟩
  · rw [decide_eq_false hlt, if_neg Bool.false_ne_true]
    exact ⟨trivial, a', ⟨hs, hnew⟩, fun u y hy =>
      h.advanced hy (.inr (Nat.le_of_not_lt hlt)) (hduty u y hy).1 (hduty u y hy).2⟩

omit h in
theorem assertWrite_sound (hsite : Site cfg l s.sight m a' z idx (.assertWrite x new))
    (hduty : ∀ u y, s.sight.Has u y →
      Duty cfg s.sight m a' idx y (s.sight.task u).phase (.assertWrite x new)) :
    Sound cfg l s.sight m z idx (s.reclaimStep .natural cfg z (.assertWrite x new)).2 := by
  rw [State.reclaimStep]
  dsimp only
  rw [State.afterHead]
  split_ifs with hnew
  · exact .done
  · exact ⟨trivial, a', hsite, hduty⟩

end

end Sight

end CoroUtil.Channel
