import CoroUtil.Blocks.Span

/-!
# The blocks stay intact

`Pair.Inv` holds the chain beside a state with natural offsets, and `Inv.step`
keeps it: a step on registers is the step on the numbers that they stand for,
because a call looks for the first index from its block on that has its register.
`Pair.intact` reads the list, the group and the rest of the old blocks off the
chain.
-/

namespace CoroUtil.Blocks

open CoroUtil.General System

variable {F V : Type} {L : Layout} {c c' : Chain} {h h' : Heap F V}
  {lo lo' idx i j k p t b new : Nat} {f : Find}

/-- A walk has not gone before the block that it is at. -/
theorem Find.Ok.raise (ok : c.Ok L h) (hf : f.Ok L c lo idx) (hlo : c.first ≤ lo) (hj : c.Has j)
    (hb : c.block j = f.block) : lo ≤ j ∧ f.Ok L c j idx := by
  have heq : ∀ {k b}, At L c lo idx k b → c.block j = b → At L c j idx j b ∧ k = j ∧ lo ≤ j := by
    intro k b hk hb
    obtain rfl := ok.inj k j ⟨hlo.trans hk.lo, hk.last⟩ hj (hk.block.trans hb.symm)
    exact ⟨⟨le_rfl, hk.last, hk.block, hk.le⟩, rfl, hk.lo⟩
  cases f with
  | load b =>
    obtain ⟨k, hk⟩ := hf
    obtain ⟨hat, -, hle⟩ := heq hk hb
    exact ⟨hle, j, hat⟩
  | next b offset | cas b offset =>
    obtain ⟨k, hk, hoff, hne⟩ := hf
    obtain ⟨hat, rfl, hle⟩ := heq hk hb
    exact ⟨hle, k, hat, hoff, hne⟩
  | check b offset =>
    obtain ⟨k, hk, hoff⟩ := hf
    obtain ⟨hat, rfl, hle⟩ := heq hk hb
    exact ⟨hle, k, hat, hoff⟩
  | found b =>
    obtain ⟨hle, hlast, hb'⟩ := hf
    obtain rfl := ok.inj _ j ⟨hlo.trans hle, hlast⟩ hj (hb'.trans hb.symm)
    exact ⟨hle, le_rfl, hlast, hb'⟩

/-- What other tasks do does not make a walk longer. -/
theorem Find.Ok.left_eq (hf : f.Ok L c lo idx) (ok : c.Ok L h) (ok' : c'.Ok L h')
    (hext : c.Extends c') (hlo : c.first ≤ lo) (hlo' : c'.first ≤ lo) :
    f.left idx h' = f.left idx h := by
  cases f with
  | load b =>
    obtain ⟨k, hk⟩ := hf
    have hoff := ok.offset k ⟨hlo.trans hk.lo, hk.last⟩
    have hoff' := ok'.offset k ⟨hlo'.trans hk.lo, hk.last.trans hext.last⟩
    rw [hext.block k hk.last] at hoff'
    rw [left, left, ← hk.block, hoff, hoff']
  | next b offset | cas b offset | check b offset | found b => rfl

/-- The first index from `m` on that has the register `idx`. -/
def Layout.lift (L : Layout) (m idx : Nat) : Nat := m + (idx + (2 ^ L.bits - word L.bits m)) % 2 ^ L.bits

theorem Layout.le_lift {m : Nat} : m ≤ L.lift m idx := Nat.le_add_right ..

theorem Layout.lift_lt {m : Nat} : L.lift m idx < m + 2 ^ L.bits :=
  Nat.add_lt_add_left (Nat.mod_lt _ (Nat.two_pow_pos _)) m

theorem Layout.word_lift {m : Nat} (hidx : idx < 2 ^ L.bits) : word L.bits (L.lift m idx) = idx := by
  have hlt : word L.bits m < 2 ^ L.bits := word_lt
  have hsum : word L.bits m + (idx + (2 ^ L.bits - word L.bits m)) = idx + 2 ^ L.bits := by omega
  rw [lift, ← word, word_add_word, ← word_word_add, hsum, word, Nat.add_mod_right,
    Nat.mod_eq_of_lt hidx]

namespace Reclaim

variable {r : Reclaim}

@[simp] theorem old_wrap : (r.wrap L).old = r.old := by cases r <;> rfl

@[simp] theorem wrap_eq_done : r.wrap L = .done ↔ r = .done := by cases r <;> simp [wrap]

/-- A block leaves the group when the group is linked again. -/
theorem un_step [Zero F] (o : Offsets) (L : Layout) (h : Heap F V) (tail : Nat) (hp : p ∈ r.un) :
    p ∈ (r.step o L h tail).2.2.2.un ∨ (r.step o L h tail).2.2.1 = false ∨
      ∃ t old new, r = .relink r.un t old new ∧ (h.block t).next = none := by
  cases r with
  | gather un old new =>
    rw [step]
    split_ifs with hmore hnil
    · cases (h.block old).next with
      | none => exact .inr (.inl rfl)
      | some n => exact .inl (List.mem_append_left _ hp)
    · rw [Reclaim.un, List.eq_nil_of_length_eq_zero hnil] at hp
      cases hp
    · exact .inl hp
  | reset un i old new =>
    rw [step]
    dsimp only
    split_ifs
    · exact .inl hp
    · exact .inl hp
  | tailNext un t old new | tailAgain un t old new =>
    rw [step]
    cases (h.block t).next with
    | none => exact .inl hp
    | some n => exact .inl hp
  | unlink un t old new | tailOffset un t old new => exact .inl hp
  | setOffset un i boff t old new =>
    rw [step]
    dsimp only
    split_ifs
    · exact .inl hp
    · exact .inl hp
  | relink un t old new =>
    rw [step]
    cases hn : (h.block t).next with
    | none => exact .inr (.inr ⟨t, old, new, rfl, hn⟩)
    | some n => exact .inl hp
  | done => cases hp

end Reclaim

theorem Seg.wrap {o q : Option Nat} {l : List Nat} (hs : Seg h o l q) : Seg (h.wrap L) o l q := by
  induction hs with
  | nil o => exact .nil o
  | cons _ ih => exact .cons ih

namespace Pair

variable {s s' : State F} {a : Act F}

/-- The state on registers. -/
def State.wrap (L : Layout) (s : State F) : State F :=
  { s with
    heap := s.heap.wrap L
    reclaim := s.reclaim.wrap L
    call := fun t => (s.call t).map fun x => (word L.bits x.1, x.2.wrap L) }

/-- Where a call is: its block is at or behind the head, its index is the next one
that has its register, and it has a bounded number of steps. -/
structure Calls (L : Layout) (c : Chain) (h : Heap F Empty) (lo steps idx : Nat) (f : Find) :
    Prop where
  going : ∀ b, f ≠ .found b
  walk : ∃ lo', lo ≤ lo' ∧ f.Ok L c lo' idx ∧ idx < lo' * L.blockSize + 2 ^ L.bits
  left : steps + f.left idx h ≤ 3 * 2 ^ L.bits + 2

variable [Zero F]

structure Inv (L : Layout) (s : State F) (c : Chain) (lo : Nat) : Prop where
  ok : c.Ok L s.heap
  reclaim : s.reclaim.Ok L c s.heap lo s.tail
  head : c.block lo = s.head
  call : ∀ t idx f, s.call t = some (idx, f) → Calls L c s.heap lo (s.steps t) idx f
  linked : s.linked.Perm (c.all ++ s.reclaim.limbo)
  ends : ∃ n, s.reclaim.Ends L c lo s.tail n ∧ s.taken + n ≤ bound L s
  sound : s.broken = false

omit [Zero F] in
theorem Calls.mono {steps : Nat} {h h' : Heap F Empty} (hc : Calls L c h lo steps idx f)
    (ok : c.Ok L h) (ok' : c'.Ok L h') (hext : c.Extends c') (hlo : c.first ≤ lo)
    (hlo' : c'.first ≤ lo) : Calls L c' h' lo steps idx f := by
  obtain ⟨lo'', hle, hf, hidx⟩ := hc.walk
  refine ⟨hc.going, ⟨lo'', hle, hf.mono hext le_rfl, hidx⟩, ?_⟩
  rw [hf.left_eq ok ok' hext (hlo.trans hle) (hlo'.trans hle)]
  exact hc.left

/-- The pointers that lead from the head are those to positions from `lo` on. -/
theorem Inv.position (hi : Inv L s c lo) (hl : Reclaim.Leads s.heap s.head p) :
    ∃ k, lo ≤ k ∧ c.Has k ∧ c.block k = p := hl.position hi.ok hi.reclaim.lo_le hi.head

theorem Inv.find (hi : Inv L s c lo) (hl : Reclaim.Leads s.heap s.head b)
    (hidx : idx < 2 ^ L.bits) : ∃ n, Inv L (s.find t b n) c lo ∧
      (s.wrap L).find t b idx = (s.find t b n).wrap L := by
  obtain ⟨k, hlo, hk, hb⟩ := hi.position hl
  refine ⟨L.lift (k * L.blockSize) idx, ⟨hi.ok, hi.reclaim, hi.head, fun t' n f hc => ?_, hi.linked,
    hi.ends, hi.sound⟩, ?_⟩
  · simp only [State.find, Function.update_apply] at hc ⊢
    split at hc
    · next heq =>
      cases hc
      have hle : k ≤ L.lift (k * L.blockSize) idx / L.blockSize :=
        (Nat.le_div_iff_mul_le L.blockSize_pos).mpr Layout.le_lift
      have hlt : L.lift (k * L.blockSize) idx < k * L.blockSize + 2 ^ L.bits := Layout.lift_lt
      refine ⟨fun _ => Find.noConfusion, ⟨k, hlo, ⟨k, le_rfl, hk.2, hb, hle⟩, hlt⟩, ?_⟩
      rw [if_pos heq, Find.left, ← hb, hi.ok.offset k hk]
      omega
    · next hne =>
      rw [if_neg hne]
      exact hi.call t' n f hc
  · simp only [State.wrap, State.find]
    congr 1
    funext t'
    rw [Function.update_apply, Function.update_apply]
    split
    · rw [Option.map_some, Layout.word_lift hidx, Find.wrap]
    · rfl

theorem Inv.walk (hi : Inv L s c lo) (hc : s.call t = some (idx, f)) :
    Inv L (s.walk .natural L t idx f) (f.chain c s.heap) lo ∧
      (s.wrap L).walk .wrapping L t (word L.bits idx) (f.wrap L) =
        (s.walk .natural L t idx f).wrap L := by
  have hcall := hi.call t idx f hc
  obtain ⟨lo', hle, hf, hidx⟩ := hcall.walk
  have hfirst := hi.reclaim.1
  have hlast := hi.reclaim.lo_le.2
  obtain ⟨hg, hsound, hf'⟩ := Find.step_chain hi.ok (hfirst.trans hle) hf
  have hb : Reclaim.Beside L c s.heap lo _ _ := .of_grows hi.ok hg
  have hleft := Find.left_step (h := s.heap) hf hcall.going
  constructor
  · refine ⟨hg.ok, hi.reclaim.frame hb hi.ok, (hg.ext.block lo hlast).trans hi.head,
      fun t' n g hc' => ?_, ?_, ?_, ?_⟩
    · simp only [State.walk, Function.update_apply] at hc' ⊢
      split at hc'
      · next heq =>
        rw [if_pos heq]
        split at hc'
        · cases hc'
        · next hgoing =>
          cases hc'
          refine ⟨fun b hb => hgoing b hb, ⟨lo', hle, hf', hidx⟩, ?_⟩
          have hstep : s.steps t + 1 + (f.step .natural L idx s.heap).2.2.left idx
              (f.step .natural L idx s.heap).1 ≤ 3 * 2 ^ L.bits + 2 := by
            have hold := hcall.left
            omega
          exact hstep
      · next hne =>
        rw [if_neg hne]
        exact (hi.call t' n g hc').mono hi.ok hg.ok hg.ext hfirst (hg.first ▸ hfirst)
    · have hlinked := hi.linked
      simp only [State.walk, Find.chain]
      split_ifs with hlinks
      · rw [Chain.all_append hi.ok.le, List.append_assoc]
        refine (hlinked.append_right _).trans ?_
        rw [List.append_assoc]
        exact List.perm_append_comm.append_left _
      · exact hlinked
    · obtain ⟨n, hn, hle⟩ := hi.ends
      refine ⟨_, hn.grow hg.ext hg.first, ?_⟩
      simp only [State.walk, bound, Find.chain] at hle ⊢
      split_ifs
      · have hone : (c.append [s.heap.fresh]).last = c.last + 1 := rfl
        omega
      · omega
    · have hbroken := hi.sound
      simp only [State.walk, hsound, hbroken, Bool.not_true, Bool.or_false]
  · have hnext : (s.heap.wrap L).fresh = s.heap.fresh := rfl
    have hlinks : (f.wrap L).links (s.heap.wrap L) = f.links s.heap := by cases f <;> rfl
    have hwrap := Find.step_wrap hi.ok (hfirst.trans hle) hf hidx
    simp only [State.walk, State.wrap, hwrap, hnext, hlinks]
    congr 1
    funext t'
    rw [Function.update_apply, Function.update_apply]
    split
    · cases (f.step .natural L idx s.heap).2.2 <;> rfl
    · rfl

theorem Inv.move (hi : Inv L s c lo) (hne : s.reclaim ≠ .done) :
    Inv L (s.move .natural L) (s.reclaim.chain c s.heap) lo ∧
      (s.wrap L).move .wrapping L = (s.move .natural L).wrap L := by
  obtain ⟨hafter, hsound, hr⟩ := Reclaim.step_chain hi.ok hi.reclaim
  have hperm := hi.reclaim.perm hi.ok
  constructor
  · refine ⟨hafter.ok, hr, (hafter.ext.block lo hi.reclaim.lo_le.2).trans hi.head,
      fun t idx f hc => (hi.call t idx f hc).mono hi.ok hafter.ok hafter.ext hi.reclaim.1 hr.1,
      hi.linked.trans hperm.symm, ?_, ?_⟩
    · obtain ⟨n, hn, hle⟩ := hi.ends
      obtain ⟨hpos, hn'⟩ := hi.reclaim.ends_step hi.ok hne hn
      refine ⟨n - 1, hn', ?_⟩
      simp only [State.move, bound] at hle ⊢
      omega
    · have hbroken := hi.sound
      simp only [State.move, hsound, hbroken, Bool.not_true, Bool.or_false]
  · simp only [State.move, State.wrap, Reclaim.step_wrap]

theorem Inv.start (hi : Inv L s c lo) (hdone : s.reclaim = .done)
    (hl : Reclaim.Leads s.heap s.head new)
    (hcalls : ∀ t idx f, s.call t = some (idx, f) → Reclaim.Leads s.heap new f.block) :
    ∃ lo', Inv L (s.start new) c lo' := by
  obtain ⟨lo', hle, hlo', hb⟩ := hi.position hl
  have hr := hi.reclaim
  have hlinked := hi.linked
  rw [hdone] at hr hlinked
  obtain ⟨-, -, rfl, ⟨k, hk, htail⟩, -⟩ := hr
  have hlen : s.linked.length = c.last + 1 - c.first := by
    rw [hlinked.length_eq, Reclaim.limbo, List.append_nil, Chain.all, Chain.length_span]
  refine ⟨lo', hi.ok, ⟨hlo'.1, fun _ _ _ _ _ => Subsingleton.elim _ _, ⟨hle, hlo'.2, hi.head, hb⟩,
    ⟨k, hk, htail⟩, fun i hi => absurd hi (Nat.not_lt_zero i), Nat.zero_le _⟩, hb,
    fun t idx f hc => ?_, hlinked, ?_, hi.sound⟩
  · have hcall := hi.call t idx f hc
    obtain ⟨lo'', hle', hf, hidx⟩ := hcall.walk
    obtain ⟨j, hj, hhas, hbj⟩ := (hcalls t idx f hc).position hi.ok hlo' hb
    obtain ⟨hraise, hf'⟩ := hf.raise hi.ok hle' hhas hbj
    have hmul := Nat.mul_le_mul_right L.blockSize hraise
    exact ⟨hcall.going, ⟨j, hj, hf', by omega⟩, hcall.left⟩
  · refine ⟨_, ⟨Nat.zero_le _, k, hk, htail, le_rfl⟩, ?_⟩
    have hlast := hlo'.2
    have hfirst := hk.1
    have hcost : Reclaim.cost L * (lo' - c.first) ≤ Reclaim.cost L * s.linked.length :=
      Nat.mul_le_mul_left _ (by omega)
    have hsum : bound L (s.start new) = Reclaim.cost L * s.linked.length + 8 * s.linked.length + 5 := by
      rw [← Nat.add_mul]
      rfl
    rw [hsum]
    simp only [State.start, List.length_nil]
    omega

theorem Inv.write {e : F} (hi : Inv L s c lo) (hl : Reclaim.Leads s.heap s.head p) :
    Inv L (s.write p i e) c lo := by
  obtain ⟨k, hlo, hk, rfl⟩ := hi.position hl
  have hb : Reclaim.Beside L c s.heap lo c (s.heap.setElem (c.block k) i ⟨e, none⟩) :=
    .of_setElem hi.ok hk hlo _
  exact ⟨hb.ok, hi.reclaim.frame hb hi.ok, hi.head,
    fun t idx f hc => (hi.call t idx f hc).mono hi.ok hb.ok hb.ext hi.reclaim.1 hi.reclaim.1,
    hi.linked, hi.ends, hi.sound⟩

/-- A step on registers is a step on the numbers that they stand for. -/
theorem Inv.step (hi : Inv L s c lo) (hs : step .wrapping L (s.wrap L) a s') :
    ∃ n c' lo', s' = n.wrap L ∧ Inv L n c' lo' := by
  cases a with
  | find t b idx =>
    obtain ⟨-, hl, hidx, rfl⟩ := hs
    obtain ⟨n, hn, heq⟩ := hi.find (Reclaim.leads_wrap.mp hl) hidx
    exact ⟨_, c, lo, heq, hn⟩
  | walk t =>
    obtain ⟨idx, f, hc, rfl⟩ := hs
    obtain ⟨⟨n, g⟩, hc', heq⟩ := Option.map_eq_some_iff.mp hc
    cases heq
    obtain ⟨hn, heq⟩ := hi.walk hc'
    exact ⟨_, _, lo, heq, hn⟩
  | reclaim new =>
    obtain ⟨hdone, hl, hcalls, rfl⟩ := hs
    have hcalls' : ∀ t idx f, s.call t = some (idx, f) → Reclaim.Leads s.heap new f.block := by
      intro t idx f hc
      have hl := hcalls t (word L.bits idx) (f.wrap L) (by simp [State.wrap, hc])
      rw [Find.block_wrap] at hl
      exact Reclaim.leads_wrap.mp hl
    obtain ⟨lo', hn⟩ := hi.start (Reclaim.wrap_eq_done.mp hdone) (Reclaim.leads_wrap.mp hl) hcalls'
    exact ⟨_, c, lo', rfl, hn⟩
  | move =>
    obtain ⟨hne, rfl⟩ := hs
    obtain ⟨hn, heq⟩ := hi.move fun hdone => hne (Reclaim.wrap_eq_done.mpr hdone)
    exact ⟨_, _, lo, heq, hn⟩
  | write p i e =>
    obtain ⟨hl, -, rfl⟩ := hs
    refine ⟨s.write p i e, c, lo, ?_, hi.write (Reclaim.leads_wrap.mp hl)⟩
    simp only [State.write, State.wrap, Heap.wrap_setElem]

/-! ## The start -/

omit [Zero F] in
/-- The offsets of the start are the registers of consecutive blocks. -/
theorem Start.offset_word (hs : Start L s) : ∃ k, ∀ i (hi : i < s.linked.length),
    (s.heap.block s.linked[i]).offset = word L.bits ((k + i) * L.blockSize) := by
  obtain ⟨k, hk⟩ := hs.first
  refine ⟨k, fun i hi => ?_⟩
  induction i with
  | zero =>
    have hhead : s.linked[0] = s.head := by
      have hlist := hs.list
      generalize s.linked = l at hlist hi
      cases hlist
      rfl
    rw [hhead, hk]
    rfl
  | succ i ih =>
    rw [hs.offset i hi, ih (by omega), Layout.reg_wrapping, word_word_add, ← Nat.add_assoc,
      Nat.add_mul _ 1, Nat.one_mul]

omit [Zero F] in
theorem Seg.next_eq {h : Heap F V} {o : Option Nat} {l : List Nat} (hs : Seg h o l none) :
    ∀ i (hi : i < l.length), (h.block l[i]).next = l[i + 1]? := by
  generalize hq : (none : Option Nat) = q at hs
  induction hs with
  | nil => exact fun i hi => absurd hi (Nat.not_lt_zero i)
  | @cons p l q hl ih =>
    subst hq
    intro i hi
    cases i with
    | zero =>
      cases hl' : (h.block p).next with
      | none =>
        rw [hl'] at hl
        cases hl
        exact hl'
      | some n =>
        rw [hl'] at hl
        cases hl
        exact hl'
    | succ i => exact ih rfl i (Nat.lt_of_succ_lt_succ hi)

theorem Start.inv (hs : Start L s) : ∃ n c lo, s = n.wrap L ∧ Inv L n c lo := by
  obtain ⟨k, hk⟩ := hs.offset_word
  have hhead : 0 < s.linked.length ∧ s.linked[0]?.getD 0 = s.head := by
    have hlist := hs.list
    generalize s.linked = l at hlist
    cases hlist
    exact ⟨Nat.succ_pos _, rfl⟩
  obtain ⟨hpos, hhead⟩ := hhead
  -- the blocks of the list get the numbers that their registers stand for
  let h : Heap F Empty :=
    { s.heap with
      block := fun p =>
        if p ∈ s.linked then
          { s.heap.block p with offset := (k + s.linked.idxOf p) * L.blockSize }
        else s.heap.block p }
  have hwrap : h.wrap L = s.heap := by
    rw [Heap.wrap]
    congr 1
    funext p
    simp only [h, Block.wrap]
    split
    · next hp =>
      have hlt := List.idxOf_lt_length_of_mem hp
      have hoff := hk _ hlt
      rw [List.getElem_idxOf] at hoff
      rw [← hoff]
    · rw [word_of_lt (hs.register p)]
  let c : Chain := ⟨k, k + s.linked.length - 1, fun j => s.linked[j - k]?.getD 0⟩
  have hblock : ∀ i (hi : i < s.linked.length), c.block (k + i) = s.linked[i] := by
    intro i hi
    simp only [c]
    rw [Nat.add_sub_cancel_left, List.getElem?_eq_getElem hi, Option.getD_some]
  have hhas : ∀ j, c.Has j → ∃ i, i < s.linked.length ∧ j = k + i := by
    rintro j ⟨hj, hj'⟩
    simp only [c] at hj hj'
    exact ⟨j - k, by omega, by omega⟩
  have hnext : ∀ p, (h.block p).next = (s.heap.block p).next := by
    intro p
    simp only [h]
    split <;> rfl
  have hoffset : ∀ i (hi : i < s.linked.length),
      (h.block s.linked[i]).offset = (k + i) * L.blockSize := by
    intro i hi
    simp only [h]
    rw [if_pos (List.getElem_mem hi), List.Nodup.idxOf_getElem hs.nodup]
  have hok : c.Ok L h := by
    refine ⟨?_, fun j j' hj hj' heq => ?_, fun j hj => ?_, fun j hj => ?_, fun j hj => ?_⟩
    · simp only [c]
      omega
    · obtain ⟨i, hi, rfl⟩ := hhas j hj
      obtain ⟨i', hi', rfl⟩ := hhas j' hj'
      rw [hblock i hi, hblock i' hi'] at heq
      rw [(List.getElem_inj hs.nodup).mp heq]
    · obtain ⟨i, hi, rfl⟩ := hhas j hj
      rw [hblock i hi]
      exact hs.fresh _ (List.getElem_mem hi)
    · obtain ⟨i, hi, rfl⟩ := hhas j hj
      rw [hblock i hi]
      exact hoffset i hi
    · obtain ⟨i, hi, rfl⟩ := hhas j hj
      rw [hblock i hi, hnext, Seg.next_eq hs.list i hi]
      simp only [c]
      split_ifs with hl
      · rw [List.getElem?_eq_none (by omega)]
      · have hi' : i + 1 < s.linked.length := by omega
        rw [List.getElem?_eq_getElem hi', Nat.add_assoc, Nat.add_sub_cancel_left,
          List.getElem?_eq_getElem hi', Option.getD_some]
  refine ⟨{ s with heap := h }, c, k, ?_, hok, ?_, ?_, ?_, ?_, ⟨0, ?_, ?_⟩, hs.sound⟩
  · simp only [State.wrap, hwrap, hs.reclaim, hs.call, Option.map_none, Reclaim.wrap]
    rw [← hs.reclaim, ← funext hs.call]
  · rw [hs.reclaim]
    obtain ⟨i, hi, htail⟩ := List.getElem_of_mem hs.tail
    refine ⟨le_rfl, fun _ _ _ _ _ => Subsingleton.elim _ _, rfl,
      ⟨k + i, ⟨Nat.le_add_right .., ?_⟩, (hblock i hi).trans htail⟩, hok.le⟩
    simp only [c]
    omega
  · simp only [c, Nat.sub_self]
    exact hhead
  · intro t idx f hc
    rw [hs.call] at hc
    cases hc
  · rw [hs.reclaim, Reclaim.limbo, List.append_nil]
    refine .of_eq (List.ext_getElem ?_ fun i hi hi' => ?_)
    · rw [Chain.all, Chain.length_span]
      simp only [c]
      omega
    · simp only [Chain.all, Chain.getElem_span]
      exact (hblock i hi).symm
  · rw [hs.reclaim]
    trivial
  · rw [hs.taken]
    exact Nat.zero_le _

/-- Every state that is reached stands for numbers with a chain. -/
theorem natural (h : (pair F L).Reachable s) : ∃ n c lo, s = n.wrap L ∧ Inv L n c lo := by
  refine h.invariant (I := fun s => ∃ n c lo, s = n.wrap L ∧ Inv L n c lo)
    (fun s hs => Start.inv hs) ?_
  rintro _ a s' ⟨n, c, lo, rfl, hi⟩ - hs
  exact hi.step hs

/-! ## What the invariant says -/

theorem Inv.split (hi : Inv L s c lo) : ∃ todo l, Split L (s.wrap L) todo l := by
  obtain ⟨todo, hold, hperm⟩ := hi.reclaim.parts hi.ok
  have hlo := hi.reclaim.lo_le
  have hlinked := hi.linked.trans hperm.symm
  refine ⟨todo, c.span lo (c.last + 1 - lo), ?_, ?_, ?_, fun p => ?_, fun i hi' => ?_⟩
  · have hseg := hi.ok.seg_last hlo
    rw [hi.head] at hseg
    exact hseg.wrap
  · simp only [State.wrap, Reclaim.old_wrap, Reclaim.wrap_eq_done]
    rw [hi.head] at hold
    exact hold.wrap
  · simp only [State.wrap, Reclaim.un_wrap]
    exact hperm.nodup_iff.mpr (hi.reclaim.nodup hi.ok)
  · simp only [State.wrap, Reclaim.un_wrap]
    exact hlinked.mem_iff
  · rw [Chain.length_span] at hi'
    have hle := hlo.1
    simp only [State.wrap, Heap.offset_wrap, Chain.getElem_span, Layout.reg_wrapping]
    rw [hi.ok.offset _ ⟨by omega, by omega⟩, hi.ok.offset _ ⟨by omega, by omega⟩, word_word_add,
      ← Nat.add_assoc, Nat.add_mul _ 1, Nat.one_mul]

/-- A block of the group becomes reachable when the group is linked again. -/
theorem Inv.ready {n n' : State F} (hi : Inv L n c lo) (hi' : Inv L n' c' lo')
    (hs : Pair.step .wrapping L (n.wrap L) a (n'.wrap L)) (hp : p ∈ n.reclaim.un)
    (hl : Reclaim.Leads n'.heap n'.head p) : Final L (n.wrap L) (n'.wrap L) p := by
  obtain ⟨k, hlo, hk, hb⟩ := hi'.position hl
  have hout := hi'.reclaim.out hi'.ok hk hlo
  rw [hb] at hout
  have hsame : ∀ {s' : State F}, n'.wrap L = s' → s'.reclaim = n.reclaim.wrap L →
      Final L (n.wrap L) (n'.wrap L) p := by
    intro s' heq hr
    have hr' : (n'.wrap L).reclaim.un = n.reclaim.un := by rw [heq, hr, Reclaim.un_wrap]
    rw [State.wrap, Reclaim.un_wrap] at hr'
    exact absurd (hr' ▸ hp) hout
  cases a with
  | find t b idx =>
    obtain ⟨-, -, -, heq⟩ := hs
    exact hsame heq rfl
  | walk t =>
    obtain ⟨idx, f, -, heq⟩ := hs
    exact hsame heq rfl
  | reclaim new =>
    have hdone := Reclaim.wrap_eq_done.mp hs.1
    rw [hdone] at hp
    cases hp
  | write q i e =>
    obtain ⟨-, -, heq⟩ := hs
    exact hsame heq rfl
  | move =>
    obtain ⟨-, heq⟩ := hs
    obtain ⟨-, hsound, -⟩ := Reclaim.step_chain hi.ok hi.reclaim
    rcases Reclaim.un_step .natural L n.heap n.tail hp with
      hun | hbad | ⟨t, old, new, hr, hn⟩
    · have hr' : (n'.wrap L).reclaim.un = (n.reclaim.step .natural L n.heap n.tail).2.2.2.un := by
        rw [heq, State.move]
        simp only [State.wrap, Reclaim.step_wrap, Reclaim.un_wrap]
      rw [State.wrap, Reclaim.un_wrap] at hr'
      exact absurd (hr' ▸ hun) hout
    · rw [hsound] at hbad
      cases hbad
    · have hlimbo := hi.reclaim
      rw [hr] at hlimbo
      obtain ⟨-, -, -, hlimbo, -⟩ := hlimbo
      have hheap : (n'.wrap L).heap = (n.wrap L).heap.setNext t (some (n.reclaim.un.headD 0)) := by
        rw [heq, State.move]
        simp only [State.wrap, Reclaim.step_wrap]
        conv_lhs => rw [hr]
        rw [Reclaim.step, hn, Heap.wrap_setNext]
      refine ⟨fun i hi => ?_, ?_, fun i => ?_⟩
      · exact congrArg Element.flags (hlimbo.blank p hp i hi)
      · rw [hheap, Heap.offset_setNext]
      · rw [hheap, Heap.elem_setNext]

/-- The blocks are a list, an unlinked group and a rest of the old blocks, and
`find_block` and `reclaim_blocks` come to an end. -/
theorem intact (h : (pair F L).Reachable s) : Intact L s := by
  obtain ⟨n, c, lo, rfl, hi⟩ := natural h
  refine ⟨hi.split, ?_, fun a s' hs p hp hl => ?_, fun hne => ?_, fun t hc => ?_, hi.sound⟩
  · exact hi.linked.nodup_iff.mpr (hi.reclaim.nodup hi.ok)
  · obtain ⟨n', c', lo', rfl, hi'⟩ := hi.step hs
    simp only [State.wrap, Reclaim.un_wrap] at hp
    exact hi.ready hi' hs hp (Reclaim.leads_wrap.mp hl)
  · obtain ⟨m, hm, hle⟩ := hi.ends
    obtain ⟨hpos, -⟩ := hi.reclaim.ends_step hi.ok (fun hdone => hne (Reclaim.wrap_eq_done.mpr hdone)) hm
    have htaken : (n.wrap L).taken = n.taken := rfl
    have hbound : bound L (n.wrap L) = bound L n := rfl
    omega
  · obtain ⟨x, hx⟩ := Option.ne_none_iff_exists'.mp hc
    obtain ⟨⟨idx, f⟩, hx, -⟩ := Option.map_eq_some_iff.mp hx
    have hleft := (hi.call t idx f hx).left
    have hsteps : (n.wrap L).steps t = n.steps t := rfl
    omega

/-- Four blocks of two elements, with `tail_block` at the second. -/
def four : State Nat where
  heap := ⟨fun p => ⟨p % 4 * 2, if p < 3 then some (p + 1) else none, fun _ => ⟨0, none⟩⟩, 4⟩
  head := 0
  tail := 1
  reclaim := .done
  call _ := none
  linked := [0, 1, 2, 3]
  size := 0
  taken := 0
  grown := 0
  steps _ := 0
  broken := false

theorem four_start : Start ⟨8, 1, by decide⟩ four where
  list := .cons (.cons (.cons (.cons (.nil none))))
  nodup := by decide
  fresh := by decide
  first := ⟨0, rfl⟩
  offset
    | 0, _ => rfl
    | 1, _ => rfl
    | 2, _ => rfl
    | i + 3, hi => absurd hi (Nat.not_lt_of_le (Nat.le_add_left ..))
  register p := (Nat.mul_lt_mul_of_pos_right (Nat.mod_lt p (by decide)) (by decide)).trans (by decide)
  tail := by decide
  reclaim := rfl
  call _ := rfl
  steps _ := rfl
  taken := rfl
  sound := rfl

/-- A step of `reclaim_blocks`, or of the call of a task. -/
def play (L : Layout) (s : State Nat) : Option Nat → Option (State Nat)
  | none => if s.reclaim = .done then none else some (s.move .wrapping L)
  | some t => (s.call t).map fun x => s.walk .wrapping L t x.1 x.2

theorem play_step {L : Layout} {s s' : State Nat} {a : Option Nat}
    (h : (pair Nat L).Reachable s) (ha : play L s a = some s') : (pair Nat L).Reachable s' := by
  cases a with
  | none =>
    obtain ⟨hne, heq⟩ := Option.ite_none_left_eq_some.mp ha
    exact h.step (a := .move) ⟨hne, (Option.some.inj heq).symm⟩
  | some t =>
    obtain ⟨⟨idx, f⟩, hc, heq⟩ := Option.map_eq_some_iff.mp ha
    exact h.step (a := .walk t) ⟨idx, f, hc, heq.symm⟩

theorem play_run {L : Layout} (acts : List (Option Nat)) {s s' : State Nat}
    (h : (pair Nat L).Reachable s) (hs : acts.foldlM (play L) s = some s') :
    (pair Nat L).Reachable s' := by
  induction acts generalizing s with
  | nil =>
    cases hs
    exact h
  | cons a acts ih =>
    rw [List.foldlM_cons] at hs
    obtain ⟨s₁, ha, hs⟩ := Option.bind_eq_some_iff.mp hs
    exact ih (play_step h ha) hs

/-- The first two blocks are unlinked while a call comes to the end of the list, links a
block there, and so keeps them from being linked behind the block before it. -/
def linkFirst : List (Option Nat) := List.flatten
  [List.replicate 10 none, [some 0, some 0], List.replicate 4 none, [some 0],
   List.replicate 5 none]

/-- They are about to be linked behind that block, and then are. -/
theorem intact_four : ∃ s s',
    linkFirst.foldlM (play ⟨8, 1, by decide⟩) ((four.find 0 3 9).start 2) = some s ∧
    s.reclaim = .relink [0, 1] 4 2 2 ∧ s.linked = [0, 1, 2, 3, 4] ∧ Intact ⟨8, 1, by decide⟩ s ∧
    play ⟨8, 1, by decide⟩ s none = some s' ∧ (s'.heap.block 4).next = some 0 ∧
    (s'.heap.block 0).offset = 10 ∧ s'.tail = 1 ∧ Intact ⟨8, 1, by decide⟩ s' := by
  have hfind : (pair Nat ⟨8, 1, by decide⟩).Reachable (four.find 0 3 9) :=
    (Reachable.init four_start).step (a := .find 0 3 9)
      ⟨rfl, .next rfl (.next rfl (.next rfl (.refl 3))), by decide, rfl⟩
  have hcalls : ∀ t idx f, (four.find 0 3 9).call t = some (idx, f) →
      Reclaim.Leads four.heap 2 f.block := by
    intro t idx f hc
    simp only [State.find, four, Function.update_apply] at hc
    split at hc
    · cases hc
      exact .next rfl (.refl 3)
    · cases hc
  have hstart : (pair Nat ⟨8, 1, by decide⟩).Reachable ((four.find 0 3 9).start 2) :=
    hfind.step (a := .reclaim 2) ⟨rfl, .next rfl (.next rfl (.refl 2)), hcalls, rfl⟩
  obtain ⟨s, hs, hpc, hlinked, s', hs', hnext, hoffset, htail⟩ : ∃ s,
      linkFirst.foldlM (play ⟨8, 1, by decide⟩) ((four.find 0 3 9).start 2) = some s ∧
      s.reclaim = .relink [0, 1] 4 2 2 ∧ s.linked = [0, 1, 2, 3, 4] ∧ ∃ s',
      play ⟨8, 1, by decide⟩ s none = some s' ∧ (s'.heap.block 4).next = some 0 ∧
      (s'.heap.block 0).offset = 10 ∧ s'.tail = 1 :=
    ⟨_, rfl, rfl, rfl, _, rfl, rfl, rfl, rfl⟩
  have hr := play_run linkFirst hstart hs
  exact ⟨s, s', hs, hpc, hlinked, intact hr, hs', hnext, hoffset, htail,
    intact (play_step hr hs')⟩

end Pair

end CoroUtil.Blocks
