import CoroUtil.Blocks.Find

/-!
# `reclaim_blocks` moves the first blocks behind the last

`Reclaim.Ok` follows a group of blocks that leaves the chain: they are collected
and their elements reset while the chain still has them, then they are unlinked
and belong to no one, and they enter the chain again behind its last block.
`Reclaim.step_spec` is what a step does, `Reclaim.Ok.frame` what the other tasks
may do meanwhile.
-/

namespace CoroUtil.Blocks

variable {F V : Type} {L : Layout} {c c' : Chain} {h h' : Heap F V}
  {lo i j k t old new tail boff : Nat}

namespace Reclaim

/-- The blocks it has in `unlinked`. -/
def un : Reclaim → List Nat
  | gather un _ _ | reset un _ _ _ | tailNext un _ _ _ | unlink un _ _ _ | tailOffset un _ _ _
  | setOffset un _ _ _ _ _ | relink un _ _ _ | tailAgain un _ _ _ => un
  | done => []

/-- The unlinked group, which is in no chain. -/
def limbo : Reclaim → List Nat
  | tailOffset un _ _ _ | setOffset un _ _ _ _ _ | relink un _ _ _ | tailAgain un _ _ _ => un
  | gather .. | reset .. | tailNext .. | unlink .. | done => []

variable {un : List Nat}

/-- `OldHead` is at position `j`, `NewHead` at `lo`. -/
structure Heads (c : Chain) (lo j old new : Nat) : Prop where
  le : j ≤ lo
  last : lo ≤ c.last
  old : c.block j = old
  new : c.block lo = new

theorem Heads.eq_iff (hh : Heads c lo j old new) (ok : c.Ok L h) (hj : c.first ≤ j) :
    old = new ↔ j = lo := by
  have hle := hh.le
  have hlast := hh.last
  constructor
  · intro heq
    rw [← hh.old, ← hh.new] at heq
    exact ok.inj j lo ⟨hj, by omega⟩ ⟨by omega, hlast⟩ heq
  · rintro rfl
    rw [← hh.old, ← hh.new]

/-- A pointer to a block of the chain. -/
def Points (c : Chain) (p : Nat) : Prop := ∃ k, c.Has k ∧ c.block k = p

/-- The pointer that follows a link of the chain. -/
theorem next_of_has (ok : c.Ok L h) (hk : c.Has k) (hb : c.block k = t) :
    (h.block t).next = none ∧ k = c.last ∨
      ∃ n, (h.block t).next = some n ∧ c.Has (k + 1) ∧ c.block (k + 1) = n := by
  have hnext := ok.next k hk
  rw [hb] at hnext
  split at hnext
  · next hl => exact .inl ⟨hnext, hl⟩
  · next hl => exact .inr ⟨_, hnext, ⟨Nat.le_succ_of_le hk.1, Nat.lt_of_le_of_ne hk.2 hl⟩, rfl⟩

/-- The blocks of `un` are the first of the chain. -/
def Collected (c : Chain) (un : List Nat) : Prop :=
  ∀ i (hi : i < un.length), un[i] = c.block (c.first + i)

theorem Collected.has (hc : Collected c un) (hle : c.first + un.length ≤ lo) (hlo : lo ≤ c.last)
    {p : Nat} (hp : p ∈ un) : ∃ k, c.first ≤ k ∧ k < lo ∧ c.Has k ∧ c.block k = p := by
  obtain ⟨i, hi, rfl⟩ := List.getElem_of_mem hp
  exact ⟨c.first + i, by omega, by omega, ⟨by omega, by omega⟩, (hc i hi).symm⟩

/-- The elements of the blocks before `lo` hold no values. -/
def Drained (L : Layout) (c : Chain) (h : Heap F V) (lo : Nat) : Prop :=
  ∀ k, c.first ≤ k → k < lo → ∀ i < L.blockSize, (h.elem (c.block k) i).data = none

variable [Zero F]

def Blank (L : Layout) (h : Heap F V) (un : List Nat) : Prop :=
  ∀ p ∈ un, ∀ i < L.blockSize, h.elem p i = ⟨0, none⟩

/-- The blocks of `un` are linked to each other and in no chain. -/
structure Limbo (L : Layout) (c : Chain) (h : Heap F V) (un : List Nat) : Prop where
  pos : 0 < un.length
  nodup : un.Nodup
  out : ∀ k, c.Has k → c.block k ∉ un
  fresh : ∀ p ∈ un, p < h.fresh
  blank : Blank L h un
  next : ∀ i (hi : i < un.length), (h.block un[i]).next = un[i + 1]?

/-- Where the move of the blocks before `lo` is. -/
def Ok (L : Layout) (c : Chain) (h : Heap F V) (lo tail : Nat) (r : Reclaim) : Prop :=
  c.first ≤ lo ∧ Drained L c h lo ∧
  match r with
  | gather un old new =>
    Heads c lo (c.first + un.length) old new ∧ Points c tail ∧ Collected c un ∧ un.length ≤ 4
  | reset un i old new =>
    Heads c lo (c.first + un.length) old new ∧ Points c tail ∧ Collected c un ∧
      i < un.length * L.blockSize ∧
      ∀ i' < i, (h.elem (un[i' / L.blockSize]?.getD 0) (i' % L.blockSize)).flags = 0
  | tailNext un t old new =>
    Heads c lo (c.first + un.length) old new ∧ Points c t ∧ Collected c un ∧ 0 < un.length ∧
      Blank L h un
  | unlink un t old new =>
    Heads c lo (c.first + un.length) old new ∧
      (∃ k, c.first + un.length ≤ k ∧ k ≤ c.last ∧ c.block k = t) ∧
      Collected c un ∧ 0 < un.length ∧ Blank L h un
  | tailOffset un t old new | tailAgain un t old new =>
    Heads c lo c.first old new ∧ Points c t ∧ Limbo L c h un
  | setOffset un i boff t old new =>
    Heads c lo c.first old new ∧ Limbo L c h un ∧ i < un.length ∧
      ∃ k, c.Has k ∧ c.block k = t ∧ boff = (k + 1 + i) * L.blockSize ∧
        ∀ j (hj : j < un.length), j < i → (h.block un[j]).offset = (k + 1 + j) * L.blockSize
  | relink un t old new =>
    Heads c lo c.first old new ∧ Limbo L c h un ∧
      ∃ k, c.Has k ∧ c.block k = t ∧
        ∀ j (hj : j < un.length), (h.block un[j]).offset = (k + 1 + j) * L.blockSize
  | done => c.first = lo ∧ Points c tail ∧ lo ≤ c.last

/-- What a step leaves behind: the positions keep their blocks, and from `lo` on
the elements are as they were. -/
structure After (L : Layout) (c : Chain) (h : Heap F V) (lo : Nat) (c' : Chain) (h' : Heap F V) :
    Prop where
  ok : c'.Ok L h'
  ext : c.Extends c'
  first : c.first ≤ c'.first
  fresh : h'.fresh = h.fresh
  elem : ∀ k, lo ≤ k → k ≤ c.last → ∀ i, h'.elem (c.block k) i = h.elem (c.block k) i
  cell : ∀ n, lo ≤ n / L.blockSize → c'.cell L h' n = c.cell L h n

theorem After.refl (ok : c.Ok L h) : After L c h lo c h :=
  ⟨ok, .refl c, Nat.le_refl _, rfl, fun _ _ _ _ => rfl, fun _ _ => rfl⟩

/-- A step goes on with the move and its assertions hold. -/
def Continues (L : Layout) (c : Chain) (h : Heap F V) (lo tail : Nat) (r : Reclaim) : Prop :=
  ∃ c', After L c h lo c' (r.step .natural L h tail).1 ∧
    (r.step .natural L h tail).2.2.1 = true ∧
    (r.step .natural L h tail).2.2.2.Ok L c' (r.step .natural L h tail).1 lo
      (r.step .natural L h tail).2.1

/-- The chain after a step. -/
def chain (c : Chain) (h : Heap F V) : Reclaim → Chain
  | unlink un _ _ _ => c.drop un.length
  | relink un t _ _ => if (h.block t).next = none then c.append un else c
  | gather .. | reset .. | tailNext .. | tailOffset .. | setOffset .. | tailAgain .. | done => c

/-- `Continues` with `c'` for the chain after the step. -/
def Steps (L : Layout) (c : Chain) (h : Heap F V) (lo tail : Nat) (r : Reclaim) (c' : Chain) :
    Prop :=
  After L c h lo c' (r.step .natural L h tail).1 ∧ (r.step .natural L h tail).2.2.1 = true ∧
    (r.step .natural L h tail).2.2.2.Ok L c' (r.step .natural L h tail).1 lo
      (r.step .natural L h tail).2.1

theorem Ok.gather (ok : c.Ok L h) (hr : (gather un old new).Ok L c h lo tail) :
    Steps L c h lo tail (.gather un old new) c := by
  obtain ⟨hfirst, hdrained, hheads, htail, hcoll, hlen⟩ := hr
  have hiff := hheads.eq_iff ok (Nat.le_add_right ..)
  have hle := hheads.le
  have hlast := hheads.last
  rw [Steps, Reclaim.step]
  split_ifs with hmore hnil
  · have hne : c.first + un.length ≠ lo := fun heq => hmore.2 (hiff.mpr heq)
    have hhas : c.Has (c.first + un.length) := ⟨Nat.le_add_right .., by omega⟩
    rcases next_of_has ok hhas hheads.old with ⟨-, hl⟩ | ⟨n, hn, hhas', hb⟩
    · omega
    · rw [hn]
      refine ⟨.refl ok, rfl, hfirst, hdrained, ⟨?_, hlast, ?_, hheads.new⟩, htail, ?_, ?_⟩
      · rw [List.length_append, List.length_singleton]
        omega
      · rw [List.length_append, List.length_singleton]
        exact hb
      · intro i hi
        rw [List.length_append, List.length_singleton] at hi
        by_cases hlt : i < un.length
        · rw [List.getElem_append_left hlt]
          exact hcoll i hlt
        · obtain rfl : i = un.length := by omega
          rw [List.getElem_concat_length rfl]
          exact hheads.old.symm
      · rw [List.length_append, List.length_singleton]
        omega
  · have heq : old = new := by
      by_contra hne
      exact hmore ⟨by omega, hne⟩
    rw [hnil, Nat.add_zero] at hiff
    exact ⟨.refl ok, rfl, hfirst, hdrained, hiff.mp heq, htail, hlast⟩
  · refine ⟨.refl ok, rfl, hfirst, hdrained, hheads, htail, hcoll, ?_, fun i' hi' => ?_⟩
    · exact Nat.mul_pos (Nat.pos_of_ne_zero hnil) L.blockSize_pos
    · exact absurd hi' (Nat.not_lt_zero _)

/-- The elements of the collected blocks are reset one by one. -/
theorem Ok.reset (ok : c.Ok L h) (hr : (reset un i old new).Ok L c h lo tail) :
    Steps L c h lo tail (.reset un i old new) c := by
  obtain ⟨hfirst, hdrained, hheads, htail, hcoll, hi, hflags⟩ := hr
  have hle := hheads.le
  have hlast := hheads.last
  have hpos := L.blockSize_pos
  have hdiv : i / L.blockSize < un.length := Nat.div_lt_of_lt_mul (Nat.mul_comm .. ▸ hi)
  have hmod : i % L.blockSize < L.blockSize := Nat.mod_lt _ hpos
  have hb : un[i / L.blockSize]?.getD 0 = c.block (c.first + i / L.blockSize) := by
    rw [List.getElem?_eq_getElem hdiv, Option.getD_some, hcoll]
  have hk : c.Has (c.first + i / L.blockSize) := ⟨Nat.le_add_right .., by omega⟩
  have hdata : ∀ q j, ((h.setElem (un[i / L.blockSize]?.getD 0) (i % L.blockSize)
      ⟨0, (h.elem (un[i / L.blockSize]?.getD 0) (i % L.blockSize)).data⟩).elem q j).data =
        (h.elem q j).data := by
    intro q j
    rw [Heap.elem_setElem]
    split_ifs with hq
    · rw [hq.1, hq.2]
    · rfl
  have hafter : After L c h lo c (h.setElem (un[i / L.blockSize]?.getD 0) (i % L.blockSize)
      ⟨0, (h.elem (un[i / L.blockSize]?.getD 0) (i % L.blockSize)).data⟩) := by
    rw [hb]
    refine ⟨ok.congr le_rfl (fun _ _ => Heap.offset_setElem) (fun _ _ => Heap.next_setElem),
      .refl c, le_rfl, rfl, fun k hlo hk' j => ?_, fun n hn => ?_⟩
    · rw [Heap.elem_setElem, if_neg]
      rintro ⟨heq, -⟩
      have := ok.inj _ _ ⟨hfirst.trans hlo, hk'⟩ hk heq
      omega
    · rw [Chain.cell_setElem ok hk hmod _ (hfirst.trans hn), if_neg]
      rintro rfl
      rw [Nat.mul_comm, Nat.mul_add_div hpos, Nat.div_eq_of_lt hmod] at hn
      omega
  have hdrained' : Drained L c (h.setElem (un[i / L.blockSize]?.getD 0) (i % L.blockSize)
      ⟨0, (h.elem (un[i / L.blockSize]?.getD 0) (i % L.blockSize)).data⟩) lo :=
    fun k hk hlt j hj => (hdata _ j).trans (hdrained k hk hlt j hj)
  have hflags' : ∀ i' < i + 1, ((h.setElem (un[i / L.blockSize]?.getD 0) (i % L.blockSize)
      ⟨0, (h.elem (un[i / L.blockSize]?.getD 0) (i % L.blockSize)).data⟩).elem
        (un[i' / L.blockSize]?.getD 0) (i' % L.blockSize)).flags = 0 := by
    intro i' hi'
    rw [Heap.elem_setElem]
    split_ifs with hq
    · rfl
    · refine hflags i' (Nat.lt_of_le_of_ne (Nat.le_of_lt_succ hi') ?_)
      rintro rfl
      exact hq ⟨rfl, rfl⟩
  rw [Steps, Reclaim.step]
  refine ⟨hafter, rfl, ?_⟩
  dsimp only
  split_ifs with hmore
  · exact ⟨hfirst, hdrained', hheads, htail, hcoll, hmore, hflags'⟩
  · refine ⟨hfirst, hdrained', hheads, htail, hcoll, Nat.zero_lt_of_lt hdiv, fun p hp j hj => ?_⟩
    obtain ⟨m, hm, rfl⟩ := List.getElem_of_mem hp
    have hlt : m * L.blockSize + j < un.length * L.blockSize :=
      calc m * L.blockSize + j < (m + 1) * L.blockSize := by
            rw [Nat.add_mul, Nat.one_mul]
            omega
        _ ≤ un.length * L.blockSize := Nat.mul_le_mul_right _ hm
    have hf := hflags' (m * L.blockSize + j) (by omega)
    rw [Nat.mul_comm, Nat.mul_add_div hpos, Nat.div_eq_of_lt hj, Nat.add_zero,
      Nat.mul_add_mod, Nat.mod_eq_of_lt hj, List.getElem?_eq_getElem hm, Option.getD_some] at hf
    have hd := hdrained' (c.first + m) (Nat.le_add_right ..) (by omega) j hj
    rw [← hcoll m hm] at hd
    exact congrArg₂ Element.mk hf hd

theorem Ok.tailNext (ok : c.Ok L h) (hr : (tailNext un t old new).Ok L c h lo tail) :
    Steps L c h lo tail (.tailNext un t old new) c := by
  obtain ⟨hfirst, hdrained, hheads, ⟨k, hk, hb⟩, hcoll, hpos, hblank⟩ := hr
  have hle := hheads.le
  have hlast := hheads.last
  rw [Steps, Reclaim.step]
  rcases next_of_has ok hk hb with ⟨hn, hl⟩ | ⟨n, hn, hk', hb'⟩
  · rw [hn]
    exact ⟨.refl ok, rfl, hfirst, hdrained, hheads, ⟨k, by omega, hk.2, hb⟩, hcoll, hpos, hblank⟩
  · rw [hn]
    exact ⟨.refl ok, rfl, hfirst, hdrained, hheads, ⟨k + 1, hk', hb'⟩, hcoll, hpos, hblank⟩

/-- The collected blocks leave the chain and stay linked to each other. -/
theorem Ok.unlink (ok : c.Ok L h) (hr : (unlink un t old new).Ok L c h lo tail) :
    Steps L c h lo tail (.unlink un t old new) (c.drop un.length) := by
  obtain ⟨hfirst, hdrained, hheads, ⟨k, hk, hkl, hb⟩, hcoll, hpos, hblank⟩ := hr
  have hle := hheads.le
  have hlast := hheads.last
  have hend : un.getLastD 0 = c.block (c.first + (un.length - 1)) := by
    rw [List.getLastD_eq_getLast?, List.getLast?_eq_getElem?,
      List.getElem?_eq_getElem (Nat.sub_one_lt_of_lt hpos), Option.getD_some, hcoll]
  have hhas : ∀ i < un.length, c.Has (c.first + i) :=
    fun i hi => ⟨Nat.le_add_right .., by omega⟩
  have hsub : ∀ k, (c.drop un.length).Has k → c.Has k ∧ c.first + un.length ≤ k :=
    fun k hk => ⟨⟨Nat.le_of_add_right_le hk.1, hk.2⟩, hk.1⟩
  have hok : (c.drop un.length).Ok L (h.setNext (un.getLastD 0) none) := by
    refine (ok.drop (by omega)).congr le_rfl (fun _ _ => Heap.offset_setNext) fun k hk => ?_
    rw [Heap.next_setNext, if_neg]
    intro heq
    have := ok.inj _ _ (hsub k hk).1 (hhas _ (Nat.sub_one_lt_of_lt hpos)) (heq.trans hend)
    have := (hsub k hk).2
    omega
  rw [Steps, Reclaim.step]
  refine ⟨⟨hok, Chain.extends_drop, Nat.le_add_right .., rfl, fun _ _ _ _ => Heap.elem_setNext,
    fun n hn => ?_⟩, rfl, hle, fun k hk hlt j hj => ?_, ⟨hle, hlast, hheads.old, hheads.new⟩,
    ⟨k, ⟨hk, hkl⟩, hb⟩, hpos, ?_, ?_, ?_, fun p hp j hj => ?_, fun i hi => ?_⟩
  · simp only [Chain.cell, Heap.elem_setNext]
    rfl
  · rw [Heap.elem_setNext]
    exact hdrained k (Nat.le_of_add_right_le hk) hlt j hj
  · refine List.pairwise_iff_getElem.mpr fun a b ha hb hab heq => ?_
    rw [hcoll, hcoll] at heq
    have := ok.inj _ _ (hhas _ ha) (hhas _ hb) heq
    omega
  · intro k hk hmem
    obtain ⟨i, hi, heq⟩ := List.getElem_of_mem hmem
    rw [hcoll] at heq
    have := ok.inj _ _ (hhas i hi) (hsub k hk).1 heq
    have := (hsub k hk).2
    omega
  · intro p hp
    obtain ⟨i, hi, rfl⟩ := List.getElem_of_mem hp
    rw [hcoll]
    exact ok.fresh _ (hhas i hi)
  · rw [Heap.elem_setNext]
    exact hblank p hp j hj
  · rw [Heap.next_setNext, hend, hcoll]
    split_ifs with heq
    · have := ok.inj _ _ (hhas i hi) (hhas _ (Nat.sub_one_lt_of_lt hpos)) heq
      rw [List.getElem?_eq_none (by omega)]
    · have hi' : i + 1 < un.length := by
        by_contra hge
        exact heq (by rw [show un.length - 1 = i by omega])
      rw [ok.next _ (hhas i hi), if_neg (by omega), List.getElem?_eq_getElem hi', hcoll]
      rfl

theorem Ok.tailOffset (ok : c.Ok L h) (hr : (tailOffset un t old new).Ok L c h lo tail) :
    Steps L c h lo tail (.tailOffset un t old new) c := by
  obtain ⟨hfirst, hdrained, hheads, ⟨k, hk, hb⟩, hlimbo⟩ := hr
  have hoff := ok.offset k hk
  rw [hb] at hoff
  rw [Steps, Reclaim.step]
  refine ⟨.refl ok, rfl, hfirst, hdrained, hheads, hlimbo, hlimbo.pos, k, hk, hb, ?_, ?_⟩
  · rw [hoff, L.reg_natural, Nat.add_zero, Nat.add_mul, Nat.one_mul]
  · exact fun j _ hj => absurd hj (Nat.not_lt_zero _)

/-- The unlinked blocks get the offsets behind the last block. -/
theorem Ok.setOffset (ok : c.Ok L h) (hr : (setOffset un i boff t old new).Ok L c h lo tail) :
    Steps L c h lo tail (.setOffset un i boff t old new) c := by
  obtain ⟨hfirst, hdrained, hheads, hlimbo, hi, k, hk, hb, rfl, hoffs⟩ := hr
  have hp : un[i]?.getD 0 = un[i] := by rw [List.getElem?_eq_getElem hi, Option.getD_some]
  have hout : ∀ k, c.Has k → c.block k ≠ un[i] :=
    fun k hk heq => hlimbo.out k hk (heq ▸ List.getElem_mem hi)
  rw [Steps, Reclaim.step, hp]
  have hok : c.Ok L (h.setOffset un[i] ((k + 1 + i) * L.blockSize)) :=
    ok.congr le_rfl (fun k hk => by rw [Heap.offset_setOffset, if_neg (hout k hk)])
      (fun _ _ => Heap.next_setOffset)
  have hdrained' : Drained L c (h.setOffset un[i] ((k + 1 + i) * L.blockSize)) lo := by
    intro k hk hlt j hj
    rw [Heap.elem_setOffset]
    exact hdrained k hk hlt j hj
  have hlimbo' : Limbo L c (h.setOffset un[i] ((k + 1 + i) * L.blockSize)) un :=
    { pos := hlimbo.pos
      nodup := hlimbo.nodup
      out := hlimbo.out
      fresh := hlimbo.fresh
      blank := fun p hp j hj => Heap.elem_setOffset.trans (hlimbo.blank p hp j hj)
      next := fun j hj => Heap.next_setOffset.trans (hlimbo.next j hj) }
  have hoffs' : ∀ j (hj : j < un.length), j < i + 1 →
      ((h.setOffset un[i] ((k + 1 + i) * L.blockSize)).block un[j]).offset =
        (k + 1 + j) * L.blockSize := by
    intro j hj hji
    rw [Heap.offset_setOffset]
    split_ifs with heq
    · rw [(List.getElem_inj hlimbo.nodup).mp heq]
    · refine hoffs j hj (Nat.lt_of_le_of_ne (Nat.le_of_lt_succ hji) ?_)
      rintro rfl
      exact heq rfl
  refine ⟨⟨hok, .refl c, le_rfl, rfl, fun _ _ _ _ => Heap.elem_setOffset, fun n _ => ?_⟩, rfl,
    hfirst, hdrained', ?_⟩
  · simp only [Chain.cell, Heap.elem_setOffset]
  · dsimp only
    split_ifs with hmore
    · refine ⟨hheads, hlimbo', hmore, k, hk, hb, ?_, hoffs'⟩
      rw [L.reg_natural, ← Nat.add_assoc, Nat.add_mul _ 1, Nat.one_mul]
    · exact ⟨hheads, hlimbo', k, hk, hb, fun j hj => hoffs' j hj (by omega)⟩

/-- The unlinked blocks enter the chain again, unless it has become longer. -/
theorem Ok.relink (ok : c.Ok L h) (hr : (relink un t old new).Ok L c h lo tail) :
    Steps L c h lo tail (.relink un t old new) ((relink un t old new).chain c h) := by
  obtain ⟨hfirst, hdrained, hheads, hlimbo, k, hk, hb, hoffs⟩ := hr
  have hpos := hlimbo.pos
  rw [Steps, Reclaim.step, chain]
  rcases next_of_has ok hk hb with ⟨hn, rfl⟩ | ⟨n, hn, hk', hb'⟩
  · subst hb
    have hhead : un.headD 0 = un[0] := by
      cases un with
      | nil => exact absurd hpos (Nat.not_lt_zero _)
      | cons p ps => rfl
    have hend : un.getLastD 0 = un[un.length - 1] := by
      rw [List.getLastD_eq_getLast?, List.getLast?_eq_getElem?,
        List.getElem?_eq_getElem (Nat.sub_one_lt_of_lt hpos), Option.getD_some]
    have hne : ∀ i (hi : i < un.length), un[i] ≠ c.block c.last :=
      fun i hi heq => hlimbo.out _ hk (heq ▸ List.getElem_mem hi)
    have hok : (c.append un).Ok L (h.setNext (c.block c.last) (some un[0])) := by
      refine ok.append hpos hlimbo.nodup hlimbo.out hlimbo.fresh le_rfl
        (fun _ _ => Heap.offset_setNext) (fun k hk hkl => ?_) ?_ (fun i hi => ?_) (fun i hi => ?_)
      · rw [Heap.next_setNext, if_neg fun heq => hkl (ok.inj _ _ hk ⟨ok.le, le_rfl⟩ heq)]
      · rw [Heap.next_setNext, if_pos rfl]
      · rw [Heap.offset_setNext]
        exact hoffs i hi
      · rw [Heap.next_setNext, if_neg (hne i hi)]
        exact hlimbo.next i hi
    have hlast : (c.append un).last = c.last + un.length := rfl
    have hlo := hheads.last
    rw [hn, hhead, hend, if_pos rfl]
    refine ⟨⟨hok, Chain.extends_append, le_rfl, rfl,
      fun _ _ _ _ => Heap.elem_setNext, fun n hn => ?_⟩, rfl, hfirst, fun k hk hlt j hj => ?_,
      ⟨hfirst, by omega, ?_, ?_⟩, ⟨c.last + 1 + (un.length - 1), ⟨?_, by omega⟩, ?_⟩, ?_,
      Nat.zero_le _⟩
    · exact Chain.cell_append (fun _ _ _ _ => Heap.elem_setNext)
        (fun p hp j hj => Heap.elem_setNext.trans (hlimbo.blank p hp j hj)) (hfirst.trans hn)
    · rw [Heap.elem_setNext, Chain.append_block_of_le (by omega)]
      exact hdrained k hk hlt j hj
    · exact (Chain.append_block_of_le ok.le).trans hheads.old
    · exact (Chain.append_block_of_le hlo).trans hheads.new
    · have := ok.le
      exact Nat.le_trans this (by omega)
    · exact Chain.append_block (Nat.sub_one_lt_of_lt hpos)
    · exact fun i hi => absurd hi (Nat.not_lt_zero _)
  · rw [hn, if_neg (Option.some_ne_none n)]
    exact ⟨.refl ok, rfl, hfirst, hdrained, hheads, ⟨k + 1, hk', hb'⟩, hlimbo⟩

theorem Ok.tailAgain (ok : c.Ok L h) (hr : (tailAgain un t old new).Ok L c h lo tail) :
    Steps L c h lo tail (.tailAgain un t old new) c := by
  obtain ⟨hfirst, hdrained, hheads, ⟨k, hk, hb⟩, hlimbo⟩ := hr
  rw [Steps, Reclaim.step]
  rcases next_of_has ok hk hb with ⟨hn, -⟩ | ⟨n, hn, hk', hb'⟩
  · rw [hn]
    exact ⟨.refl ok, rfl, hfirst, hdrained, hheads, ⟨k, hk, hb⟩, hlimbo⟩
  · rw [hn]
    exact ⟨.refl ok, rfl, hfirst, hdrained, hheads, ⟨k + 1, hk', hb'⟩, hlimbo⟩

/-- The chain that a step of `reclaim_blocks` leaves. -/
theorem step_chain (ok : c.Ok L h) {r : Reclaim} (hr : r.Ok L c h lo tail) :
    Steps L c h lo tail r (r.chain c h) := by
  cases r with
  | gather un old new => exact hr.gather ok
  | reset un i old new => exact hr.reset ok
  | tailNext un t old new => exact hr.tailNext ok
  | unlink un t old new => exact hr.unlink ok
  | tailOffset un t old new => exact hr.tailOffset ok
  | setOffset un i boff t old new => exact hr.setOffset ok
  | relink un t old new => exact hr.relink ok
  | tailAgain un t old new => exact hr.tailAgain ok
  | done => exact ⟨.refl ok, rfl, hr⟩

/-- A step of `reclaim_blocks` goes on with the move and its assertions hold. -/
theorem step_spec (ok : c.Ok L h) {r : Reclaim} (hr : r.Ok L c h lo tail) :
    Continues L c h lo tail r := ⟨_, step_chain ok hr⟩

/-- What the other tasks do beside a move of the blocks before `lo`: the chain may
become longer at its end, and elements change from `lo` on. -/
structure Beside (L : Layout) (c : Chain) (h : Heap F V) (lo : Nat) (c' : Chain) (h' : Heap F V) :
    Prop where
  ok : c'.Ok L h'
  ext : c.Extends c'
  first : c'.first = c.first
  fresh : h.fresh ≤ h'.fresh
  new : ∀ k, c.last < k → k ≤ c'.last → h.fresh ≤ c'.block k
  offset : ∀ p < h.fresh, (h'.block p).offset = (h.block p).offset
  next : ∀ p < h.fresh, p ≠ c.block c.last → (h'.block p).next = (h.block p).next
  elem : ∀ p < h.fresh, (∀ k, lo ≤ k → k ≤ c.last → c.block k ≠ p) → ∀ i, h'.elem p i = h.elem p i

theorem Beside.of_grows (ok : c.Ok L h) (hg : c.Grows L h c' h') : Beside L c h lo c' h' where
  ok := hg.ok
  ext := hg.ext
  first := hg.first
  fresh := hg.fresh
  new := hg.new
  offset p hp := by
    by_cases hpl : p = c.block c.last
    · have hlast := hg.ext.last
      have hle := ok.le
      have hfirst := hg.first
      have hoff := hg.ok.offset c.last ⟨by omega, hlast⟩
      rw [hg.ext.block _ le_rfl] at hoff
      rw [hpl, hoff, ok.offset _ ⟨hle, le_rfl⟩]
    · rw [hg.old p hp hpl]
  next p hp hpl := by rw [hg.old p hp hpl]
  elem p hp _ := hg.elem p hp

omit [Zero F] in
theorem Beside.of_setElem (ok : c.Ok L h) (hk : c.Has k) (hlo : lo ≤ k) (e : Element F V) :
    Beside L c h lo c (h.setElem (c.block k) i e) where
  ok := ok.congr le_rfl (fun _ _ => Heap.offset_setElem) (fun _ _ => Heap.next_setElem)
  ext := .refl c
  first := rfl
  fresh := le_rfl
  new _ hl hl' := absurd hl (Nat.not_lt.mpr hl')
  offset _ _ := Heap.offset_setElem
  next _ _ _ := Heap.next_setElem
  elem p _ hout j := by
    rw [Heap.elem_setElem, if_neg]
    rintro ⟨rfl, -⟩
    exact hout k hlo hk.2 rfl

section Frame

variable (hb : Beside L c h lo c' h')
include hb

omit [Zero F] in
theorem Points.beside {p : Nat} (hp : Points c p) : Points c' p := by
  obtain ⟨k, hk, rfl⟩ := hp
  exact ⟨k, ⟨hb.first ▸ hk.1, hk.2.trans hb.ext.last⟩, hb.ext.block k hk.2⟩

omit [Zero F] in
theorem Heads.beside (hh : Heads c lo j old new) : Heads c' lo j old new where
  le := hh.le
  last := hh.last.trans hb.ext.last
  old := (hb.ext.block j (hh.le.trans hh.last)).trans hh.old
  new := (hb.ext.block lo hh.last).trans hh.new

omit [Zero F] in
theorem Collected.beside (hc : Collected c un) (hle : c.first + un.length ≤ lo)
    (hlo : lo ≤ c.last) : Collected c' un := by
  intro i hi
  rw [hc i hi, hb.first, hb.ext.block _ (by omega)]

omit [Zero F] in
/-- The elements of the blocks before `lo` stay. -/
theorem Beside.elem_has (ok : c.Ok L h) (hfirst : c.first ≤ k) (hlt : k < lo) (hlo : lo ≤ c.last)
    (i : Nat) : h'.elem (c.block k) i = h.elem (c.block k) i := by
  have hk : c.Has k := ⟨hfirst, by omega⟩
  refine hb.elem _ (ok.fresh k hk) (fun j hj hl heq => ?_) i
  have := ok.inj j k ⟨by omega, hl⟩ hk heq
  omega

omit [Zero F] in
theorem Drained.beside (ok : c.Ok L h) (hd : Drained L c h lo) (hlo : lo ≤ c.last) :
    Drained L c' h' lo := by
  intro k hk hlt i hi
  rw [hb.first] at hk
  rw [hb.ext.block k (by omega), hb.elem_has ok hk hlt hlo]
  exact hd k hk hlt i hi

theorem Blank.beside (ok : c.Ok L h) (hc : Collected c un) (hle : c.first + un.length ≤ lo)
    (hlo : lo ≤ c.last) (hblank : Blank L h un) : Blank L h' un := by
  intro p hp i hi
  obtain ⟨k, hk, hlt, -, rfl⟩ := hc.has hle hlo hp
  rw [hb.elem_has ok hk hlt hlo]
  exact hblank _ hp i hi

theorem Limbo.beside (hfirst : c.first ≤ lo) (hl : Limbo L c h un) (ok : c.Ok L h) :
    Limbo L c' h' un where
  pos := hl.pos
  nodup := hl.nodup
  out k hk hmem := by
    rcases Nat.lt_or_ge c.last k with hlt | hge
    · exact absurd (hl.fresh _ hmem) (Nat.not_lt.mpr (hb.new k hlt hk.2))
    · rw [hb.ext.block k hge] at hmem
      exact hl.out k ⟨hb.first ▸ hk.1, hge⟩ hmem
  fresh p hp := (hl.fresh p hp).trans_le hb.fresh
  blank p hp i hi := by
    rw [hb.elem p (hl.fresh p hp) fun k hk hk' heq => hl.out k ⟨hfirst.trans hk, hk'⟩ (heq ▸ hp)]
    exact hl.blank p hp i hi
  next i hi := by
    have hmem := List.getElem_mem hi
    rw [hb.next _ (hl.fresh _ hmem) fun heq => hl.out _ ⟨ok.le, le_rfl⟩ (heq ▸ hmem)]
    exact hl.next i hi

/-- The move goes on from where it is after the others have stepped. -/
theorem Ok.frame (ok : c.Ok L h) {r : Reclaim} (hr : r.Ok L c h lo tail) :
    r.Ok L c' h' lo tail := by
  obtain ⟨hfirst, hdrained, hr⟩ := hr
  have hfirst' : c'.first ≤ lo := hb.first ▸ hfirst
  have hoff : ∀ {un}, Limbo L c h un → ∀ j (hj : j < un.length),
      (h'.block un[j]).offset = (h.block un[j]).offset :=
    fun hl j hj => hb.offset _ (hl.fresh _ (List.getElem_mem hj))
  have hhas : ∀ {k t}, c.Has k → c.block k = t → c'.Has k ∧ c'.block k = t :=
    fun hk ht => ⟨⟨hb.first ▸ hk.1, hk.2.trans hb.ext.last⟩, (hb.ext.block _ hk.2).trans ht⟩
  cases r with
  | gather un old new =>
    obtain ⟨hh, ht, hc, hlen⟩ := hr
    refine ⟨hfirst', hdrained.beside hb ok hh.last, ?_, ht.beside hb,
      hc.beside hb hh.le hh.last, hlen⟩
    rw [hb.first]
    exact hh.beside hb
  | reset un i old new =>
    obtain ⟨hh, ht, hc, hi, hflags⟩ := hr
    refine ⟨hfirst', hdrained.beside hb ok hh.last, ?_, ht.beside hb,
      hc.beside hb hh.le hh.last, hi, fun i' hi' => ?_⟩
    · rw [hb.first]
      exact hh.beside hb
    · have hlt : i' / L.blockSize < un.length :=
        Nat.div_lt_of_lt_mul (Nat.mul_comm .. ▸ hi'.trans hi)
      have hmem : un[i' / L.blockSize]?.getD 0 ∈ un := by
        rw [List.getElem?_eq_getElem hlt, Option.getD_some]
        exact List.getElem_mem hlt
      obtain ⟨k, hk, hkl, -, heq⟩ := hc.has hh.le hh.last hmem
      have hf := hflags i' hi'
      rw [← heq] at hf ⊢
      rw [hb.elem_has ok hk hkl hh.last]
      exact hf
  | tailNext un t old new =>
    obtain ⟨hh, ht, hc, hpos, hblank⟩ := hr
    refine ⟨hfirst', hdrained.beside hb ok hh.last, ?_, ht.beside hb,
      hc.beside hb hh.le hh.last, hpos, hblank.beside hb ok hc hh.le hh.last⟩
    rw [hb.first]
    exact hh.beside hb
  | unlink un t old new =>
    obtain ⟨hh, ⟨k, hk, hkl, ht⟩, hc, hpos, hblank⟩ := hr
    refine ⟨hfirst', hdrained.beside hb ok hh.last, ?_,
      ⟨k, hb.first ▸ hk, hkl.trans hb.ext.last, (hb.ext.block k hkl).trans ht⟩,
      hc.beside hb hh.le hh.last, hpos, hblank.beside hb ok hc hh.le hh.last⟩
    rw [hb.first]
    exact hh.beside hb
  | tailOffset un t old new | tailAgain un t old new =>
    obtain ⟨hh, ht, hl⟩ := hr
    refine ⟨hfirst', hdrained.beside hb ok hh.last, ?_, ht.beside hb, hl.beside hb hfirst ok⟩
    rw [hb.first]
    exact hh.beside hb
  | setOffset un i boff t old new =>
    obtain ⟨hh, hl, hi, k, hk, ht, hboff, hoffs⟩ := hr
    obtain ⟨hk', ht'⟩ := hhas hk ht
    refine ⟨hfirst', hdrained.beside hb ok hh.last, ?_, hl.beside hb hfirst ok, hi, k, hk', ht',
      hboff, fun j hj hji => (hoff hl j hj).trans (hoffs j hj hji)⟩
    rw [hb.first]
    exact hh.beside hb
  | relink un t old new =>
    obtain ⟨hh, hl, k, hk, ht, hoffs⟩ := hr
    obtain ⟨hk', ht'⟩ := hhas hk ht
    refine ⟨hfirst', hdrained.beside hb ok hh.last, ?_, hl.beside hb hfirst ok, k, hk', ht',
      fun j hj => (hoff hl j hj).trans (hoffs j hj)⟩
    rw [hb.first]
    exact hh.beside hb
  | done =>
    obtain ⟨heq, ht, hlo⟩ := hr
    exact ⟨hfirst', hdrained.beside hb ok hlo, hb.first.trans heq, ht.beside hb,
      hlo.trans hb.ext.last⟩

end Frame

/-! ## What is out of reach -/

/-- Following the links from block `p` leads to block `q`. -/
inductive Leads (h : Heap F V) : Nat → Nat → Prop
  | refl (p : Nat) : Leads h p p
  | next {p n q : Nat} (hn : (h.block p).next = some n) (hq : Leads h n q) : Leads h p q

omit [Zero F] in
/-- The links lead from one position of the chain to a later one. -/
theorem Leads.position {p q : Nat} (hl : Leads h p q) (ok : c.Ok L h) (hk : c.Has k)
    (hp : c.block k = p) : ∃ i, k ≤ i ∧ c.Has i ∧ c.block i = q := by
  induction hl generalizing k with
  | refl p => exact ⟨k, le_rfl, hk, hp⟩
  | next hn _ ih =>
    rcases next_of_has ok hk hp with ⟨hnone, -⟩ | ⟨n, hsome, hk', hp'⟩
    · cases hnone.symm.trans hn
    · cases hsome.symm.trans hn
      obtain ⟨i, hi, hhas, hq⟩ := ih hk' hp'
      exact ⟨i, Nat.le_of_succ_le hi, hhas, hq⟩

/-- What is being moved is not in the chain from `lo` on. -/
theorem Ok.out (ok : c.Ok L h) {r : Reclaim} (hr : r.Ok L c h lo tail) (hk : c.Has k)
    (hlo : lo ≤ k) : c.block k ∉ r.un := by
  obtain ⟨-, -, hr⟩ := hr
  have hcoll : ∀ {un : List Nat}, Collected c un → c.first + un.length ≤ lo → c.block k ∉ un := by
    intro un hc hle hmem
    obtain ⟨j, -, hlt, hj, heq⟩ := hc.has hle (hlo.trans hk.2) hmem
    obtain rfl := ok.inj j k hj hk heq
    omega
  cases r with
  | gather un old new => exact hcoll hr.2.2.1 hr.1.le
  | reset un i old new => exact hcoll hr.2.2.1 hr.1.le
  | tailNext un t old new => exact hcoll hr.2.2.1 hr.1.le
  | unlink un t old new => exact hcoll hr.2.2.1 hr.1.le
  | tailOffset un t old new | tailAgain un t old new => exact hr.2.2.out k hk
  | setOffset un i boff t old new => exact hr.2.1.out k hk
  | relink un t old new => exact hr.2.1.out k hk
  | done => exact List.not_mem_nil

end Reclaim

end CoroUtil.Blocks
