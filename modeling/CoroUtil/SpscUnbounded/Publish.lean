import CoroUtil.SpscUnbounded.Producer

/-!
# Publishing elements and waking the consumer

The exchange that publishes an element finds null, or the pointer of the consumer
that is suspended on it: `Inv.found_cases`.  `Inv.producerStep` puts the steps of
the producer together.
-/

namespace CoroUtil.SpscUnbounded

open CoroUtil.Blocks

variable {V : Type} {cfg : Config} {s s' : State V} {m m' : Map} {pc pc' : ProducerPc V}
  {n b k idx frame : Nat} {j : Job V} {w : Put V} {items : List V} {cons cons' : Option Nat}

theorem Map.mark_of_lt (h : n < m.next) : m.mark n = .data := if_pos h

theorem Map.mark_next (hs : m.sealed = false) (h : m.next ≤ n) : m.mark n = .null := by
  rw [Map.mark, if_neg (by omega), if_neg fun hc => by rw [hs] at hc; cases hc.1]

/-- The element that is published next. -/
theorem Inv.found_cases (h : Inv cfg s m) (hs : m.sealed = false) (hb : m.BlockOf cfg m.next b) :
    (s.elem cfg b m.next).flags = .null ∧
        (∀ i c e, s.consumer = .suspended i c e → i < m.next) ∨
      (∃ c, s.consumer = .suspended m.next c s.producer.nulls) ∧
        (s.elem cfg b m.next).flags = .consumer s.frame := by
  have hk := h.consumer
  have hcell := hb.elem (s := s)
  have hnull : m.mark m.next = .null := Map.mark_next hs le_rfl
  rcases Nat.lt_or_ge s.readOffset m.next with hlt | hge
  · -- the consumer is not there yet
    refine .inl ⟨by rw [hcell, h.mem.flags _ hlt, hnull], fun i c e hc => ?_⟩
    rw [hc] at hk
    rw [hk.2.1.1]
    exact hlt
  · have heq : s.readOffset = m.next := Nat.le_antisymm h.mem.read_le hge
    have hclear : Clear cfg s m → (s.elem cfg b m.next).flags = .null := fun hcl => by
      rw [hcell, ← heq, hcl, heq, hnull]
    cases hpc : s.consumer with
    | suspended i c e =>
      rw [hpc] at hk
      obtain ⟨-, hl, hflags, -⟩ := hk
      refine .inr ⟨⟨c, ?_⟩, ?_⟩
      · rw [hl.1, heq, h.awake.nulls i c e hpc]
      · rw [hcell, ← heq, hflags, Map.waiting, if_neg (by omega), if_neg (by simp [hs])]
    | storeClosed i c =>
      rw [hpc] at hk
      cases hs.symm.trans hk.2.2.1
    | holding i c =>
      rw [hpc] at hk
      exact absurd hk.2.lt (Nat.not_lt.mpr hge)
    | emptyFind scope f | emptyPoll scope c =>
      rw [hpc] at hk
      obtain ⟨-, -, hsc⟩ := hk
      cases scope with
      | none => exact .inl ⟨hclear hsc, fun i c e hc => by cases hc⟩
      | some x => exact absurd (Scope.lt hsc) (Nat.not_lt.mpr hge)
    | idle | reclaim r =>
      rw [hpc] at hk
      exact .inl ⟨hclear (by first | exact hk.2 | exact hk.1), fun i c e hc => by cases hc⟩
    | assertRead c | find c i f | poll c i b' | tryWait i b' | resumed i b' e =>
      rw [hpc] at hk
      exact .inl ⟨hclear hk.2.1, fun i c e hc => by cases hc⟩

/-! ## Constructing an element -/

/-- The next element is constructed. -/
theorem Inv.emplace (h : Inv cfg s m) (hpc : s.producer = .emplace w idx k b cons)
    (hs : s.producerStep .natural cfg = some s') : ∃ m', Inv cfg s' m' := by
  have hk := h.producer
  rw [hpc] at hk
  obtain ⟨hp, hlt, hb, hr, hw⟩ := hk
  have hnext : m.next = idx + k := hp.2.1
  have hread := h.mem.read_le
  have hlen := h.recorded.length
  have hposts := h.recorded.posts
  rw [hpc] at hlen hposts
  have hlen : s.constructed.length = idx + k := by rw [hlen, hnext]; rfl
  obtain ⟨v, hv⟩ : ∃ v, w.items[k]? = some v := ⟨_, List.getElem?_eq_getElem hlt⟩
  have hnone : (s.elem cfg b (idx + k)).data.isNone = true := by
    rw [hb.elem, h.mem.data _ (by omega), List.getElem?_eq_none (by omega)]
    rfl
  rw [State.producerStep, hpc] at hs
  simp only [Layout.reg_natural, hv, hnone, State.check_true] at hs
  cases hs
  have hmem : Mem cfg ({ s.setElem cfg b (idx + k)
    { s.elem cfg b (idx + k) with data := some v } with
      constructed := s.constructed ++ [v] }.setProducer (.publish w idx k b cons)) m := by
    refine h.mem.setElem (by omega) hb rfl rfl rfl rfl rfl rfl rfl le_rfl h.mem.write_near
      (fun i hi => ?_) fun i hi => ?_
    · change _ = (s.constructed ++ [v])[i]?
      split
      · next heq =>
        rw [heq, ← hlen, List.getElem?_concat_length]
      · next hne =>
        rw [h.mem.data i hi]
        rcases Nat.lt_or_ge i s.constructed.length with hil | hil
        · rw [List.getElem?_append_left hil]
        · rw [List.getElem?_eq_none hil, List.getElem?_eq_none]
          rw [List.length_append, List.length_singleton]
          omega
    · split
      · next heq =>
        rw [heq] at hi ⊢
        rw [hb.elem]
        exact h.mem.flags _ hi
      · exact h.mem.flags i hi
  have hcell : m.cell cfg (s.setElem cfg b (idx + k) { s.elem cfg b (idx + k) with data := some v })
      s.readOffset = if s.readOffset = idx + k then { s.elem cfg b (idx + k) with data := some v }
        else m.cell cfg s s.readOffset :=
    h.mem.cell_setElem (by omega) hb _ (h.mem.first_le_div le_rfl)
  have hflags : (m.cell cfg
    (s.setElem cfg b (idx + k) { s.elem cfg b (idx + k) with data := some v })
      s.readOffset).flags = (m.cell cfg s s.readOffset).flags := by
    rw [hcell]
    split
    · next heq => rw [hb.elem, heq]
    · rfl
  have ha : Aside cfg s m
    ({ s.setElem cfg b (idx + k) { s.elem cfg b (idx + k) with data := some v } with
      constructed := s.constructed ++ [v] }.setProducer (.publish w idx k b cons)) m := by
    refine ⟨rfl, rfl, rfl, rfl, rfl, ?_, le_rfl, id, fun hc => hflags.trans hc,
      fun hw => hflags.trans hw, fun _ => hflags⟩
    have hhas := h.mem.has (by omega) hb
    have hbeside := Reclaim.Beside.of_setElem h.mem.ok hhas
      (h.mem.head_le_div (n := idx + k) (by omega))
      (i := cfg.slot (idx + k)) { s.elem cfg b (idx + k) with data := some v }
    rw [hb.2] at hbeside
    exact hbeside
  refine ⟨m, h.produce hmem ha ⟨hp, hlt, hb, hr, hw⟩ rfl ?_ rfl ?_ ?_
    (List.prefix_append ..) h.sound⟩
  · have hawake := h.awake
    exact ⟨fun f hf => by
        have := hawake.wakes f (by rw [hpc]; exact hf)
        rw [hpc] at this
        exact this,
      fun i c e hc hn => by
        have := hawake.waits i c e hc hn
        rw [hpc] at this
        exact this,
      fun i c e hc => by
        have := hawake.nulls i c e hc
        rw [hpc] at this
        exact this⟩
  · change (s.constructed ++ [v]).length = m.next + 1
    rw [List.length_append, List.length_singleton, hlen, hnext]
  · change s.constructed ++ [v] ++ w.rest (k + 1) = s.posts
    have hdrop : w.rest k = v :: w.rest (k + 1) := by
      rw [Put.rest, List.drop_eq_getElem_cons hlt, Put.rest]
      rw [List.getElem?_eq_getElem hlt] at hv
      rw [Option.some.inj hv]
    rw [← hposts, List.append_assoc]
    exact congrArg _ hdrop.symm

/-! ## Publishing an element -/

/-- The flags of the next element are exchanged for those of its new mark. -/
theorem Mem.exchange {f : Flags} (h : Mem cfg s m) (hb : m.BlockOf cfg m.next b)
    (hheap : s'.heap = (s.setFlags cfg b m.next f).heap) (hread : s'.readOffset = s.readOffset)
    (hhead : s'.headBlock = s.headBlock) (hwrite : s'.writeBlock = s.writeBlock)
    (htail : s'.tailBlock = s.tailBlock) (hframe : s'.frame = s.frame)
    (hgrabbed : s'.grabbed = s.grabbed) (hcons : s'.constructed = s.constructed)
    (hchain : m'.chain = m.chain) (hheadPos : m'.head = m.head) (hwritePos : m'.write = m.write)
    (hnext : m.next ≤ m'.next) (hnear : m'.next ≤ (m.write + 1) * cfg.blockSize)
    (hsealed : m.sealed = false) (hmark : ∀ i, m'.mark i = if i = m.next then f else m.mark i)
    (hwaiting : m'.waiting s.frame m.next = f) : Mem cfg s' m' ∧ Aside cfg s m s' m' := by
  have hle := h.read_le
  have hcell : (m'.cell cfg s' s.readOffset).flags =
      if s.readOffset = m.next then f else (m.cell cfg s s.readOffset).flags := by
    have hset := h.cell_setElem hle hb { s.elem cfg b m.next with flags := f }
      (h.first_le_div le_rfl)
    have heq : m'.cell cfg s' s.readOffset =
        m.cell cfg (s.setFlags cfg b m.next f) s.readOffset := by
      rw [Map.cell, Map.cell, hchain, hheap]
    rw [heq]
    refine (congrArg _ hset).trans ?_
    split <;> rfl
  refine ⟨h.setElem hle hb hheap hread hhead hwrite hchain hheadPos hwritePos hnext hnear
    (fun i hi => ?_) fun i hi => ?_, hread, htail, hframe, hgrabbed, hheadPos, ?_, hnext,
    fun hc => ?_, fun hc => ?_, fun hc => ?_, fun hlt => ?_⟩
  · rw [hcons]
    split
    · next heq =>
      rw [heq, hb.elem]
      exact h.data _ hle
    · exact h.data i hi
  · rw [hmark]
    split
    · rfl
    · exact h.flags i hi
  · have hbeside := Reclaim.Beside.of_setElem h.ok (h.has hle hb) (h.head_le_div hle)
      (i := cfg.slot m.next) { s.elem cfg b m.next with flags := f }
    rw [hb.2] at hbeside
    rw [hheap, hchain]
    exact hbeside
  · cases hsealed.symm.trans hc.1
  · rw [Clear, hread, hcell, hmark, hc]
  · rw [hcell]
    split
    · next heq => rw [heq, hwaiting]
    · next hne =>
      have hlt : s.readOffset < m.next := by omega
      rw [hc, Map.waiting, Map.waiting, if_pos hlt, if_pos (hlt.trans_le hnext)]
  · rw [hcell, if_neg (by omega)]

/-- What the exchange on the next element makes of `cons`. -/
def Found (s : State V) (m : Map) (cons cons' : Option Nat) : Prop :=
  (∀ i c e, s.consumer = .suspended i c e → i < m.next) ∧ cons' = cons ∨
    (∃ c, s.consumer = .suspended m.next c false) ∧ cons' = some s.frame

/-- The map once the next element is published. -/
def Map.publish (m : Map) : Map := { m with next := m.next + 1 }

theorem Map.mark_publish (hs : m.sealed = false) (i : Nat) :
    m.publish.mark i = if i = m.next then .data else m.mark i := by
  have hnext : m.publish.next = m.next + 1 := rfl
  split
  · next heq => exact Map.mark_of_lt (by omega)
  · next hne =>
    rcases Nat.lt_or_ge i m.next with hlt | hge
    · rw [Map.mark_of_lt hlt, Map.mark_of_lt (by omega)]
    · rw [Map.mark_next hs hge, Map.mark_next (m := m.publish) hs (by omega)]

/-- The next element is published and the producer goes on at `pc'`. -/
theorem Inv.published {wo : Nat} (h : Inv cfg s m) (hpc : s.producer = .publish w idx k b cons)
    (hfound : Found s m cons cons')
    (hk' : Knows cfg ({ s.setFlags cfg b (idx + k) .data with writeOffset := wo }.setProducer pc')
      m.publish pc')
    (hwakes : pc'.wakes = cons') (hnulls : pc'.nulls = false) (hbuilt : pc'.built = 0)
    (hrest : pc'.rest = w.rest (k + 1)) :
    Inv cfg ({ s.setFlags cfg b (idx + k) .data with writeOffset := wo }.setProducer pc')
      m.publish := by
  have hk := h.producer
  rw [hpc] at hk
  obtain ⟨hp, -, hb, -, hw⟩ := hk
  have hnext : m.next = idx + k := hp.2.1
  have hs : m.sealed = false := hp.2.2.2
  have hlen := h.recorded.length
  have hposts := h.recorded.posts
  rw [hpc] at hlen hposts
  have hnear : m.next + 1 ≤ (m.write + 1) * cfg.blockSize := by
    have hlt := Nat.lt_div_mul_add (a := idx + k) cfg.blockSize_pos
    rw [hw, hnext, Nat.add_mul, Nat.one_mul]
    exact hlt
  obtain ⟨hmem, ha⟩ : Mem cfg ({ s.setFlags cfg b (idx + k) .data with
      writeOffset := wo }.setProducer pc') m.publish ∧
        Aside cfg s m ({ s.setFlags cfg b (idx + k) .data with
          writeOffset := wo }.setProducer pc') m.publish := by
    rw [← hnext] at hb ⊢
    exact h.mem.exchange hb rfl rfl rfl rfl rfl rfl rfl rfl rfl rfl rfl (Nat.le_succ _) hnear hs
      (Map.mark_publish hs) (if_pos (Nat.lt_succ_self _))
  refine h.produce hmem ha hk' rfl ?_ rfl ?_ ?_ (List.prefix_refl _) h.sound
  · have hawake := h.awake
    have hw0 : s.producer.wakes = cons := by rw [hpc]; rfl
    have hn0 : s.producer.nulls = false := by rw [hpc]; rfl
    refine ⟨fun f hf => ?_, fun i c e hc hn => ?_, fun i c e hc => ?_⟩
    · change pc'.wakes = some f at hf
      change f = s.frame ∧ ∃ i c, s.consumer = .suspended i c pc'.nulls ∧ (i < m.next + 1 ∨ _)
      rw [hwakes] at hf
      rw [hnulls]
      rcases hfound with ⟨-, rfl⟩ | ⟨⟨c, hc⟩, rfl⟩
      · obtain ⟨hfr, i, c, hc, hor⟩ := hawake.wakes f (hw0.trans hf)
        rw [hn0] at hc
        exact ⟨hfr, i, c, hc, hor.imp_left fun hlt => hlt.trans (Nat.lt_succ_self _)⟩
      · cases hf
        exact ⟨rfl, m.next, c, hc, .inl (Nat.lt_succ_self _)⟩
    · refine hwakes.trans ?_
      rcases hfound with ⟨hlt, rfl⟩ | ⟨-, rfl⟩
      · exact hw0.symm.trans (hawake.waits i c e hc (.inl (hlt i c e hc)))
      · rfl
    · exact (hawake.nulls i c e hc).trans (hn0.trans hnulls.symm)
  · change s.constructed.length = m.next + 1 + pc'.built
    rw [hbuilt]
    exact hlen
  · change s.constructed ++ pc'.rest = s.posts
    rw [hrest]
    exact hposts

/-- All items are written. -/
theorem Inv.finish (h : Inv cfg s m) (hpc : s.producer = .publish w idx k b cons)
    (hfound : Found s m cons cons') (hk : k + 1 = w.count) :
    Inv cfg ((s.setFlags cfg b (idx + k) .data).finish .natural cfg idx (k + 1) cons')
      m.publish := by
  have hkn := h.producer
  rw [hpc] at hkn
  obtain ⟨⟨-, hnext, hopen, hs⟩, -⟩ := hkn
  have hnext' : m.publish.next = idx + (k + 1) := congrArg (· + 1) hnext
  have hrest : w.rest (k + 1) = [] := List.drop_eq_nil_of_le (Nat.le_of_eq hk.symm)
  cases cons' with
  | none => exact h.published hpc hfound ⟨hnext', hs.trans hopen.symm⟩ rfl rfl rfl hrest.symm
  | some f =>
    exact h.published hpc hfound ⟨hnext', hs.trans hopen.symm, hopen⟩ rfl rfl rfl hrest.symm

/-- Two indices of a block. -/
theorem div_succ_eq {cfg : Config} {n : Nat} (h : cfg.slot (n + 1) ≠ 0) :
    (n + 1) / cfg.blockSize = n / cfg.blockSize :=
  Nat.succ_div_of_not_dvd fun hd => h (Nat.mod_eq_zero_of_dvd hd)

/-- The writer goes on after an element. -/
theorem Inv.afterWrite (h : Inv cfg s m) (hpc : s.producer = .publish w idx k b cons)
    (hfound : Found s m cons cons') :
    Inv cfg ((s.setFlags cfg b (idx + k) .data).afterWrite .natural cfg w idx k b cons')
      m.publish := by
  have hkn := h.producer
  rw [hpc] at hkn
  obtain ⟨hp, hlt, hb, hr, hw⟩ := hkn
  obtain ⟨hidx, hnext, hopen, hs⟩ := hp
  have hnext' : m.publish.next = idx + (k + 1) := congrArg (· + 1) hnext
  cases w with
  | post v =>
    obtain rfl : k = 0 := Nat.lt_one_iff.mp hlt
    exact h.finish hpc hfound rfl
  | bulk items =>
    have hlt : k < items.length := hlt
    rw [State.afterWrite]
    split
    · next hslot =>
      exact h.published hpc hfound
        ⟨⟨hidx, hnext', hopen, hs⟩, Nat.succ_pos k, hlt, hslot, hb, hr, hw⟩
        rfl rfl rfl rfl
    · next hslot =>
      rw [State.afterItem]
      split
      · next heq =>
        have heq : k + 1 = items.length := Nat.add_left_cancel heq
        have hfin := h.finish hpc hfound heq
        rw [heq] at hfin
        exact hfin
      · next hne =>
        have hdiv : (idx + (k + 1)) / cfg.blockSize = (idx + k) / cfg.blockSize := div_succ_eq hslot
        have hne : idx + (k + 1) ≠ idx + items.length := hne
        have hblock : m.publish.BlockOf cfg (idx + (k + 1)) b := by
          rw [Map.BlockOf, hdiv]
          exact hb
        refine h.published hpc hfound
          ⟨⟨hidx, hnext', hopen, hs⟩, ?_, hblock, hr, hw.trans hdiv.symm⟩
          rfl rfl rfl rfl
        change k + 1 < items.length
        omega

theorem Inv.publish (h : Inv cfg s m) (hpc : s.producer = .publish w idx k b cons)
    (hs : s.producerStep .natural cfg = some s') : ∃ m', Inv cfg s' m' := by
  have hk := h.producer
  rw [hpc] at hk
  obtain ⟨⟨-, hnext, -, hsealed⟩, -, hb, -⟩ := hk
  have hfound := h.found_cases hsealed (hnext ▸ hb)
  rw [hpc, hnext] at hfound
  rw [State.producerStep, hpc] at hs
  simp only [Layout.reg_natural] at hs
  rcases hfound with ⟨hflags, hlt⟩ | ⟨⟨c, hc⟩, hflags⟩
  · -- nobody waits for the element
    have hf : Found s m cons cons := .inl ⟨by rw [hnext]; exact hlt, rfl⟩
    have hinv := h.afterWrite hpc hf
    rw [hflags] at hs
    simp only [ite_self] at hs
    cases hs
    exact ⟨_, hinv⟩
  · have hcan : cfg.consumerCanSuspend = true := by
      have hk := h.consumer
      rw [hc] at hk
      exact hk.2.2.2
    have hnone : cons.isNone = true := by
      cases hcons : cons with
      | none => rfl
      | some f =>
        obtain ⟨-, i, c', hc', hor⟩ := h.awake.wakes f (by rw [hpc, hcons]; rfl)
        obtain ⟨rfl, -⟩ := ConsumerPc.suspended.inj (hc.symm.trans hc')
        rcases hor with hlt | hseal
        · omega
        · cases hsealed.symm.trans hseal
    rw [hflags, hcan] at hs
    simp only [if_true, hnone, State.check_true] at hs
    cases hs
    exact ⟨_, h.afterWrite hpc (.inr ⟨⟨c, by rw [hnext]; exact hc⟩, rfl⟩)⟩

/-! ## Crossing to the next block -/

theorem Inv.nextBlock (h : Inv cfg s m) (hpc : s.producer = .nextBlock items idx k b cons)
    (hs : s.producerStep .natural cfg = some s') : ∃ m', Inv cfg s' m' := by
  have hk := h.producer
  rw [hpc] at hk
  obtain ⟨hp, hpos, hle, hslot, hb, hr, hw⟩ := hk
  have hnext : m.next = idx + k := hp.2.1
  have hdiv : (idx + k) / cfg.blockSize = (idx + k - 1) / cfg.blockSize + 1 := by
    have hsucc := Nat.succ_div_of_dvd (a := idx + k - 1) (b := cfg.blockSize)
    rw [Nat.sub_add_cancel (by omega)] at hsucc
    exact hsucc (Nat.dvd_of_mod_eq_zero hslot)
  have hhas : m.chain.Has ((idx + k - 1) / cfg.blockSize) := by
    rw [← hw]
    exact ⟨h.mem.first_le, h.mem.write_le⟩
  have hfin : k = items.length → Inv cfg (s.finish .natural cfg idx items.length cons) m := by
    rintro rfl
    obtain ⟨-, -, hopen, hsealed⟩ := hp
    have hrest : items.drop items.length = [] := List.drop_length
    cases cons with
    | none => exact h.commit hpc ⟨hnext, hsealed.trans hopen.symm⟩ rfl rfl rfl hrest.symm
    | some f => exact h.commit hpc ⟨hnext, hsealed.trans hopen.symm, hopen⟩ rfl rfl rfl hrest.symm
  rw [State.producerStep, hpc] at hs
  simp only [Layout.reg_natural, Layout.less_natural, Nat.add_lt_add_iff_left,
    Nat.add_left_cancel_iff] at hs
  rcases Reclaim.next_of_has h.mem.ok hhas hb.2 with ⟨hn, hl⟩ | ⟨n, hn, hhas', hb'⟩
  · -- the last block has been allocated for the last item
    have hend : k = items.length := by
      by_contra hne
      have hle : (idx + k) / cfg.blockSize ≤ (idx + items.length - 1) / cfg.blockSize :=
        Nat.div_le_div_right (by omega)
      have hr : (idx + items.length - 1) / cfg.blockSize ≤ m.chain.last := hr
      omega
    rw [hn] at hs
    simp only [hend, Nat.lt_irrefl, decide_false, Bool.not_false, State.check_true, if_true] at hs
    cases hs
    exact ⟨m, hfin hend⟩
  · rw [hn] at hs
    dsimp only at hs
    rcases Nat.lt_or_ge k items.length with hlt | hge
    · rw [if_pos (decide_eq_true hlt)] at hs
      cases hs
      have hblock : m.BlockOf cfg (idx + k) n := by
        rw [Map.BlockOf, hdiv]
        exact ⟨hhas'.2, hb'⟩
      exact ⟨m, h.setProducer hpc ⟨hp, hlt, hblock, hr⟩ rfl rfl rfl rfl⟩
    · have hend : k = items.length := Nat.le_antisymm hle hge
      rw [if_neg (by simp [hge]), State.afterItem, if_pos (by rw [hend])] at hs
      cases hs
      exact ⟨m, hfin hend⟩

theorem Inv.storeNextBlock (h : Inv cfg s m)
    (hpc : s.producer = .storeNextBlock items idx k b cons) :
    ∃ m', Inv cfg ({ s with writeBlock := b }.afterItem .natural cfg items idx k b cons) m' := by
  have hk := h.producer
  rw [hpc] at hk
  obtain ⟨hp, hlt, hb, hr⟩ := hk
  have hnext : m.next = idx + k := hp.2.1
  have h' := h.setWrite (b := b) (hnext ▸ hb) (by
    rw [hpc]
    exact ⟨hp, hlt, hb, hr⟩)
  have hk' : Knows cfg { s with writeBlock := b } { m with write := m.next / cfg.blockSize }
      (.emplace (.bulk items) idx k b cons) := ⟨hp, hlt, hb, hr, by rw [hnext]⟩
  rw [State.afterItem, if_neg]
  · exact ⟨_, h'.setProducer hpc hk' rfl rfl rfl rfl⟩
  · rw [Layout.reg_natural, Layout.reg_natural]
    omega

/-! ## Waking the consumer and closing the queue -/

/-- The consumer that has been suspended goes on. -/
theorem Inv.resume {i c : Nat} {e : Bool} (h : Inv cfg s m) (hc : s.consumer = .suspended i c e)
    (hk : Knows cfg s m pc) (hwakes : pc.wakes = none) (hbuilt : pc.built = s.producer.built)
    (hrest : pc.rest = s.producer.rest)
    (he : if e then m.sealed = true ∧ s.readOffset = m.next else s.readOffset < m.next) :
    Inv cfg ((s.setConsumer (.resumed i c e)).setProducer pc) m := by
  have hcon := h.consumer
  rw [hc] at hcon
  obtain ⟨hcalm, hl, hflags, -⟩ := hcon
  have hscope : s.consumer.scope = none := by rw [hc]; rfl
  have hvalues := h.recorded.values
  rw [hscope] at hvalues
  have hclear : Clear cfg s m := by
    rw [Clear, hflags, Map.waiting, Map.mark]
    cases e with
    | true =>
      obtain ⟨hs, heq⟩ : m.sealed = true ∧ s.readOffset = m.next := he
      have hge : ¬s.readOffset < m.next := Nat.not_lt.mpr heq.ge
      rw [if_neg hge, if_neg hge, if_pos hs, if_pos ⟨hs, heq⟩]
    | false =>
      have hlt : s.readOffset < m.next := he
      rw [if_pos hlt, if_pos hlt]
  exact
    { mem := h.mem.congr rfl rfl rfl rfl rfl
      producer := hk.later ⟨.refl _, rfl, rfl, rfl, rfl, rfl, rfl⟩ fun _ => rfl
      consumer := ⟨{ hcalm with }, hclear, hl, he⟩
      awake := ⟨fun f hf => (by cases hwakes.symm.trans hf), fun _ _ _ hc => (by cases hc),
        fun _ _ _ hc => (by cases hc)⟩
      recorded :=
        { h.recorded with
          length := hbuilt ▸ h.recorded.length
          posts := hrest ▸ h.recorded.posts
          values := hvalues }
      sound := h.sound }

theorem Inv.resumeConsumer (h : Inv cfg s m) (hpc : s.producer = .resumeConsumer frame) :
    Inv cfg ((s.resumeConsumer frame).setProducer .idle) m := by
  have hk := h.producer
  rw [hpc] at hk
  obtain ⟨hnext, hsealed, hopen⟩ := hk
  obtain ⟨rfl, i, c, hc, hor⟩ := h.awake.wakes frame (by rw [hpc]; rfl)
  rw [hpc] at hc
  have hcon := h.consumer
  rw [hc] at hcon
  have hlt : s.readOffset < m.next := by
    rw [← hcon.2.1.1]
    rcases hor with hlt | hs
    · exact hlt
    · cases (hsealed.trans hopen).symm.trans hs
  rw [State.resumeConsumer, hc]
  dsimp only
  rw [if_pos rfl]
  exact h.resume hc ⟨hnext, hsealed⟩ rfl (by rw [hpc]; rfl) (by rw [hpc]; rfl) hlt

theorem Inv.closeResume (h : Inv cfg s m) (hpc : s.producer = .closeResume frame) :
    Inv cfg ((s.resumeConsumer frame).setProducer .idle) m := by
  have hk := h.producer
  rw [hpc] at hk
  obtain ⟨hnext, hsealed, hclosed, hread⟩ := hk
  obtain ⟨rfl, i, c, hc, -⟩ := h.awake.wakes frame (by rw [hpc]; rfl)
  rw [hpc] at hc
  rw [State.resumeConsumer, hc]
  dsimp only
  rw [if_pos rfl]
  exact h.resume hc ⟨hnext, hsealed⟩ rfl (by rw [hpc]; rfl) (by rw [hpc]; rfl)
    ⟨hsealed.trans hclosed, hread⟩

theorem Inv.elemNull (h : Inv cfg s m) (hpc : s.producer = .elemNull frame)
    (hs : s.producerStep .natural cfg = some s') : ∃ m', Inv cfg s' m' := by
  have hk := h.producer
  rw [hpc] at hk
  obtain ⟨rfl, i, c, hc, hor⟩ := h.awake.wakes frame (by rw [hpc]; rfl)
  have hcon := h.consumer
  have hcs : (s.setProducer (.closeResume s.frame)).consumer = s.consumer := rfl
  have hlen := h.recorded.length
  have hposts := h.recorded.posts
  have hvalues := h.recorded.values
  rw [hc] at hcon hvalues
  rw [hpc] at hlen hposts
  rw [State.producerStep, hpc] at hs
  dsimp only at hs
  have hfr : (s.setProducer (.closeResume s.frame)).frame = s.frame := rfl
  rw [hcs, hc, hfr] at hs
  dsimp only at hs
  rw [if_pos rfl] at hs
  cases hs
  exact ⟨m,
    { mem := h.mem.congr rfl rfl rfl rfl rfl
      producer := hk
      consumer := ⟨{ hcon.1 with }, hcon.2⟩
      awake := ⟨fun f hf => by
          cases hf
          exact ⟨rfl, i, c, rfl, hor⟩,
        fun _ _ _ _ _ => rfl, fun _ _ _ hc => by
          cases hc
          rfl⟩
      recorded :=
        { h.recorded with
          length := hlen
          posts := hposts
          values := hvalues }
      sound := h.sound }⟩

theorem Inv.closeCas (h : Inv cfg s m) (hpc : s.producer = .closeCas)
    (hs : s.producerStep .natural cfg = some s') : ∃ m', Inv cfg s' m' := by
  have hk := h.producer
  rw [hpc] at hk
  obtain ⟨hnext, hsealed⟩ := hk
  rw [State.producerStep, hpc] at hs
  dsimp only at hs
  split at hs
  · cases hs
    exact ⟨m, h.setProducer hpc ⟨hnext, hsealed⟩ rfl rfl rfl rfl⟩
  · next hopen =>
    cases hs
    have hopen : s.closed = false := Bool.not_eq_true _ ▸ hopen
    have hawake := h.awake
    have hw0 : s.producer.wakes = none := by rw [hpc]; rfl
    have hn0 : s.producer.nulls = false := by rw [hpc]; rfl
    have hlen := h.recorded.length
    have hposts := h.recorded.posts
    rw [hpc] at hlen hposts
    refine ⟨m, h.produce (h.mem.congr rfl rfl rfl rfl rfl)
      (.of_eq h.mem rfl rfl rfl rfl rfl rfl rfl rfl rfl)
        ⟨hnext, rfl, hsealed.trans hopen⟩ rfl ?_ rfl
      hlen hposts (List.prefix_refl _) h.sound⟩
    exact ⟨fun f hf => (by cases hf), fun i c e hc hn => hw0.symm.trans (hawake.waits i c e hc hn),
      fun i c e hc => (hawake.nulls i c e hc).trans hn0⟩

theorem Inv.storeClosedAt (h : Inv cfg s m) (hpc : s.producer = .storeClosedAt) :
    Inv cfg ({ s with writeClosedAt := s.writeOffset }.setProducer
      (.find .close s.writeOffset (.load s.writeBlock))) m := by
  have hk := h.producer
  rw [hpc] at hk
  obtain ⟨hnext, hclosed, hsealed⟩ := hk
  have h' : Inv cfg { s with writeClosedAt := s.writeOffset } m :=
    { h with
      mem := h.mem.congr rfl rfl rfl rfl rfl
      producer := h.producer.later ⟨.refl _, rfl, rfl, rfl, rfl, rfl, rfl⟩ fun _ => rfl
      consumer := h.consumer.aside (.of_eq h.mem rfl rfl rfl rfl rfl rfl rfl rfl rfl) h.mem
      awake := { h.awake with }
      recorded := { h.recorded with } }
  refine h'.setProducer hpc ⟨⟨rfl, hnext, hclosed, hsealed⟩, ⟨m.write, h.mem.writeAt hnext.le⟩,
    fun b hb => ?_⟩ rfl rfl rfl rfl
  cases hb
  rfl

/-- The map once the sentinel is at the next index. -/
def Map.seal (m : Map) : Map := { m with sealed := true }

theorem Map.mark_seal (hs : m.sealed = false) (i : Nat) :
    m.seal.mark i = if i = m.next then .closed else m.mark i := by
  rw [Map.mark, Map.mark, hs]
  change (if i < m.next then _ else if true = true ∧ i = m.next then _ else _) = _
  split_ifs <;> first | rfl | omega | simp_all

theorem Map.waiting_seal : m.seal.waiting frame m.next = .closed := by
  change (if m.next < m.next then _ else if true = true then _ else _) = _
  rw [if_neg (Nat.lt_irrefl _), if_pos rfl]

theorem Inv.exchangeClosed (h : Inv cfg s m) (hpc : s.producer = .exchangeClosed idx b)
    (hs : s.producerStep .natural cfg = some s') : ∃ m', Inv cfg s' m' := by
  have hk := h.producer
  rw [hpc] at hk
  obtain ⟨⟨rfl, hnext, hclosed, hsealed⟩, hb⟩ := hk
  have hlen := h.recorded.length
  have hposts := h.recorded.posts
  rw [hpc] at hlen hposts
  have hw0 : s.producer.wakes = none := by rw [hpc]; rfl
  have hn0 : s.producer.nulls = false := by rw [hpc]; rfl
  rw [← hnext] at hb
  have hfound := h.found_cases hsealed hb
  rw [hn0] at hfound
  have hboth : ∀ pc, Mem cfg ((s.setFlags cfg b m.next .closed).setProducer pc) m.seal ∧
      Aside cfg s m ((s.setFlags cfg b m.next .closed).setProducer pc) m.seal := fun pc =>
    h.mem.exchange hb rfl rfl rfl rfl rfl rfl rfl rfl rfl rfl rfl le_rfl h.mem.write_near hsealed
      (Map.mark_seal hsealed) Map.waiting_seal
  rw [State.producerStep, hpc, ← hnext] at hs
  dsimp only at hs
  rcases hfound with ⟨hflags, hlt⟩ | ⟨⟨c, hc⟩, hflags⟩
  · rw [hflags] at hs
    cases hs
    obtain ⟨hmem, ha⟩ := hboth .idle
    refine ⟨_, h.produce hmem ha ⟨hnext, hclosed.symm⟩ rfl ?_ rfl hlen hposts (List.prefix_refl _)
      h.sound⟩
    exact ⟨fun f hf => (by cases hf),
      fun i c e hc _ => hw0.symm.trans (h.awake.waits i c e hc (.inl (hlt i c e hc))),
      fun i c e hc => (h.awake.nulls i c e hc).trans hn0⟩
  · rw [hflags] at hs
    cases hs
    obtain ⟨hmem, ha⟩ := hboth (.elemNull s.frame)
    have hcon := h.consumer
    rw [hc] at hcon
    refine ⟨_, h.produce hmem ha ⟨hnext, hclosed.symm, hclosed, hcon.2.1.1.symm⟩ rfl ?_ rfl hlen
      hposts (List.prefix_refl _) h.sound⟩
    exact ⟨fun f hf => by
        cases hf
        exact ⟨rfl, m.next, c, hc, .inr rfl⟩,
      fun _ _ _ _ _ => rfl, fun i c e hc => (h.awake.nulls i c e hc).trans hn0⟩

/-- A step of the producer keeps the invariant. -/
theorem Inv.producerStep (h : Inv cfg s m) (hs : s.producerStep .natural cfg = some s') :
    ∃ m', Inv cfg s' m' := by
  cases hpc : s.producer with
  | idle =>
    rw [State.producerStep, hpc] at hs
    cases hs
  | assertOpen w => exact h.assertOpen hpc hs
  | find j idx f => exact h.find hpc hs
  | bulkFind items idx f => exact h.bulkFind hpc hs
  | bulkFindEnd items idx b f => exact h.bulkFindEnd hpc hs
  | emplace w idx k b cons => exact h.emplace hpc hs
  | publish w idx k b cons => exact h.publish hpc hs
  | nextBlock items idx k b cons => exact h.nextBlock hpc hs
  | closeCas => exact h.closeCas hpc hs
  | exchangeClosed idx b => exact h.exchangeClosed hpc hs
  | elemNull frame => exact h.elemNull hpc hs
  | storeWriteBlock j idx b =>
    rw [State.producerStep, hpc] at hs
    cases hs
    exact h.storeWriteBlock hpc
  | bulkAssert items idx =>
    rw [State.producerStep, hpc] at hs
    cases hs
    exact ⟨m, h.bulkAssert hpc⟩
  | bulkStoreWriteBlock items idx b =>
    rw [State.producerStep, hpc] at hs
    cases hs
    exact h.bulkStoreWriteBlock hpc
  | storeNextBlock items idx k b cons =>
    rw [State.producerStep, hpc] at hs
    cases hs
    exact h.storeNextBlock hpc
  | resumeConsumer frame =>
    rw [State.producerStep, hpc] at hs
    cases hs
    exact ⟨m, h.resumeConsumer hpc⟩
  | storeClosedAt =>
    rw [State.producerStep, hpc] at hs
    cases hs
    exact ⟨m, h.storeClosedAt hpc⟩
  | closeResume frame =>
    rw [State.producerStep, hpc] at hs
    cases hs
    exact ⟨m, h.closeResume hpc⟩

end CoroUtil.SpscUnbounded
