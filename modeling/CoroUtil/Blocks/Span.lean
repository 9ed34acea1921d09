import CoroUtil.Blocks.Pair
import CoroUtil.Blocks.Rank

/-!
# The blocks of a chain as a list

`Chain.all` lists the blocks of a chain.  While `reclaim_blocks` runs they are the
blocks that it has collected, the rest of the old ones and the list from its new
head on (`Reclaim.Ok.parts`); what is in none of them is its unlinked group, the
`limbo`.
-/

namespace CoroUtil.Blocks

variable {F V : Type} {L : Layout} {c : Chain} {h : Heap F V} {lo tail i j k m n p : Nat}
  {un : List Nat}

theorem Seg.snoc {o : Option Nat} {l : List Nat} {q : Nat} (hs : Seg h o l (some q)) :
    Seg h o (l ++ [q]) (h.block q).next := by
  generalize hp : some q = e at hs
  induction hs with
  | nil o =>
    subst hp
    exact .cons (.nil _)
  | cons _ ih => exact .cons (ih hp)

namespace Chain

/-- The `n` blocks from position `i` on. -/
def span (c : Chain) (i n : Nat) : List Nat := (List.range' i n).map c.block

def all (c : Chain) : List Nat := c.span c.first (c.last + 1 - c.first)

theorem mem_span : p ∈ c.span i n ↔ ∃ k, i ≤ k ∧ k < i + n ∧ c.block k = p := by
  rw [span, List.mem_map]
  simp only [List.mem_range'_1, and_assoc]

@[simp] theorem length_span :
  (c.span i n).length = n := by rw [span, List.length_map, List.length_range']

theorem getElem_span (hj : j < (c.span i n).length) : (c.span i n)[j] = c.block (i + j) := by
  simp only [span, List.getElem_map, List.getElem_range', Nat.one_mul]

theorem span_add : c.span i (m + n) = c.span i m ++ c.span (i + m) n := by
  rw [span, span, span, ← List.map_append, List.range'_append_1]

theorem span_succ : c.span i (n + 1) = c.block i :: c.span (i + 1) n := by
  rw [span, List.range'_succ, List.map_cons, ← span]

theorem Ok.mem_all (ok : c.Ok L h) : p ∈ c.all ↔ ∃ k, c.Has k ∧ c.block k = p := by
  have hle := ok.le
  rw [all, mem_span]
  refine exists_congr fun k => ?_
  rw [← and_assoc]
  exact and_congr_left fun _ => and_congr_right fun _ => by omega

theorem Ok.nodup_all (ok : c.Ok L h) : c.all.Nodup := by
  have hle := ok.le
  refine List.pairwise_iff_getElem.mpr fun i j hi hj hij heq => ?_
  rw [all, length_span] at hi hj
  simp only [all] at heq
  rw [getElem_span, getElem_span] at heq
  have hpos := ok.inj _ _ ⟨Nat.le_add_right .., by omega⟩ ⟨Nat.le_add_right .., by omega⟩ heq
  omega

theorem all_append (hle : c.first ≤ c.last) : (c.append un).all = c.all ++ un := by
  have hlen : (c.append un).last + 1 - (c.append un).first =
      c.last + 1 - c.first + un.length := by
    have hlast : (c.append un).last = c.last + un.length := rfl
    have hfirst : (c.append un).first = c.first := rfl
    omega
  rw [all, hlen, span_add]
  refine congrArg₂ _ (List.map_congr_left fun k hk => ?_) (List.ext_getElem length_span ?_)
  · have hlt := (List.mem_range'_1.mp hk).2
    have hfirst : (c.append un).first = c.first := rfl
    exact append_block_of_le (by omega)
  · intro i hi hi'
    have hpos : (c.append un).first + (c.last + 1 - c.first) + i = c.last + 1 + i := by
      have hfirst : (c.append un).first = c.first := rfl
      omega
    rw [getElem_span, hpos, append_block hi']

theorem all_drop (hn : c.first + n ≤ c.last) : c.all = c.span c.first n ++ (c.drop n).all := by
  have hlen : c.last + 1 - c.first = n + ((c.drop n).last + 1 - (c.drop n).first) := by
    have hlast : (c.drop n).last = c.last := rfl
    have hfirst : (c.drop n).first = c.first + n := rfl
    omega
  rw [all, hlen, span_add]
  rfl

/-- The links lead along the chain. -/
theorem Ok.seg_span (ok : c.Ok L h) (hi : c.first ≤ i) (hn : i + n ≤ c.last) :
    Seg h (some (c.block i)) (c.span i n) (some (c.block (i + n))) := by
  induction n generalizing i with
  | zero => exact .nil _
  | succ n ih =>
    have hnext := ok.next i ⟨hi, by omega⟩
    rw [if_neg (by omega)] at hnext
    have hrest := ih (i := i + 1) (Nat.le_succ_of_le hi) (by omega)
    rw [Nat.add_assoc, Nat.add_comm 1 n, ← hnext] at hrest
    rw [span_succ]
    exact .cons hrest

/-- The links from a position lead to the end of the chain. -/
theorem Ok.seg_last (ok : c.Ok L h) (hi : c.Has i) :
    Seg h (some (c.block i)) (c.span i (c.last + 1 - i)) none := by
  have hle := hi.2
  have hseg := (ok.seg_span (n := c.last - i) hi.1 (by omega)).snoc
  have hspan : c.span (i + (c.last - i)) 1 = [c.block (i + (c.last - i))] := rfl
  rw [← hspan, ← span_add, show i + (c.last - i) = c.last by omega,
    show c.last - i + 1 = c.last + 1 - i by omega, ok.next _ ⟨ok.le, le_rfl⟩, if_pos rfl] at hseg
  exact hseg

end Chain

namespace Reclaim

theorem Collected.eq_span (hc : Collected c un) : un = c.span c.first un.length := by
  refine List.ext_getElem (by simp) fun i hi hi' => ?_
  rw [hc i hi, Chain.getElem_span]

variable [Zero F]

theorem Ok.limbo {r : Reclaim} (hr : r.Ok L c h lo tail) :
    r.limbo.Nodup ∧ (∀ k, c.Has k → c.block k ∉ r.limbo) ∧ ∀ p ∈ r.limbo, p < h.fresh := by
  have hnil : ([] : List Nat).Nodup ∧ (∀ k, c.Has k → c.block k ∉ ([] : List Nat)) ∧
      ∀ p ∈ ([] : List Nat), p < h.fresh := by simp
  obtain ⟨-, -, hr⟩ := hr
  cases r with
  | gather | reset | tailNext | unlink | done => exact hnil
  | tailOffset un t old new | tailAgain un t old new =>
    exact ⟨hr.2.2.nodup, hr.2.2.out, hr.2.2.fresh⟩
  | setOffset un i boff t old new => exact ⟨hr.2.1.nodup, hr.2.1.out, hr.2.1.fresh⟩
  | relink un t old new => exact ⟨hr.2.1.nodup, hr.2.1.out, hr.2.1.fresh⟩

/-- No block is in two places. -/
theorem Ok.nodup (ok : c.Ok L h) {r : Reclaim} (hr : r.Ok L c h lo tail) :
    (c.all ++ r.limbo).Nodup := by
  obtain ⟨hnodup, hout, -⟩ := hr.limbo
  refine List.nodup_append.mpr ⟨ok.nodup_all, hnodup, ?_⟩
  rintro p hp q hq rfl
  obtain ⟨k, hk, rfl⟩ := ok.mem_all.mp hp
  exact hout k hk hq

theorem Ok.lo_le {r : Reclaim} (hr : r.Ok L c h lo tail) : c.Has lo := by
  obtain ⟨hfirst, -, hr⟩ := hr
  refine ⟨hfirst, ?_⟩
  cases r with
  | gather | reset | tailNext | unlink | tailOffset | setOffset | relink | tailAgain =>
    exact hr.1.last
  | done => exact hr.2.2

omit [Zero F] in
theorem Heads.seg {old new : Nat} (hh : Heads c lo j old new) (ok : c.Ok L h) (hj : c.first ≤ j) :
    Seg h (some old) (c.span j (lo - j)) (some (c.block lo)) := by
  have hle := hh.le
  have hlast := hh.last
  have hseg := ok.seg_span (n := lo - j) hj (by omega)
  rwa [hh.old, show j + (lo - j) = lo by omega] at hseg

/-- The group that has been collected, the rest of the old blocks and the list
from the new head on. -/
theorem Ok.parts (ok : c.Ok L h) {r : Reclaim} (hr : r.Ok L c h lo tail) :
    ∃ todo, Seg h r.old todo (if r = .done then none else some (c.block lo)) ∧
      (r.un ++ todo ++ c.span lo (c.last + 1 - lo)).Perm (c.all ++ r.limbo) := by
  have hlo := hr.lo_le
  obtain ⟨hfirst, -, hr⟩ := hr
  have hall : ∀ n, c.first + n ≤ lo →
    c.span c.first n ++ c.span (c.first + n) (lo - (c.first + n)) ++
      c.span lo (c.last + 1 - lo) = c.all := by
    intro n hn
    have hle := hlo.2
    have hmid : c.first + (n + (lo - (c.first + n))) = lo := by omega
    have hlen : n + (lo - (c.first + n)) + (c.last + 1 - lo) = c.last + 1 - c.first := by omega
    conv in c.span lo _ => rw [← hmid]
    rw [← Chain.span_add, ← Chain.span_add, hmid, hlen, ← Chain.all]
  -- before the group is unlinked
  have hcoll : ∀ {un old new}, Heads c lo (c.first + List.length un) old new → Collected c un →
      ∃ todo, Seg h (some old) todo (some (c.block lo)) ∧
        (un ++ todo ++ c.span lo (c.last + 1 - lo)).Perm (c.all ++ []) := by
    intro un old new hh hc
    refine ⟨_, hh.seg ok (Nat.le_add_right ..), ?_⟩
    rw [List.append_nil, ← hall un.length hh.le, ← hc.eq_span]
  -- and after that
  have hlimbo : ∀ {un old new}, Heads c lo c.first old new →
      ∃ todo, Seg h (some old) todo (some (c.block lo)) ∧
        (un ++ todo ++ c.span lo (c.last + 1 - lo)).Perm (c.all ++ un) := by
    intro un old new hh
    refine ⟨_, hh.seg ok le_rfl, ?_⟩
    have hpart := hall 0 hh.le
    rw [Nat.add_zero] at hpart
    rw [← hpart, List.append_assoc]
    exact List.perm_append_comm
  cases r with
  | gather un old new => exact hcoll hr.1 hr.2.2.1
  | reset un i old new => exact hcoll hr.1 hr.2.2.1
  | tailNext un t old new => exact hcoll hr.1 hr.2.2.1
  | unlink un t old new => exact hcoll hr.1 hr.2.2.1
  | tailOffset un t old new => exact hlimbo hr.1
  | setOffset un i boff t old new => exact hlimbo hr.1
  | relink un t old new => exact hlimbo hr.1
  | tailAgain un t old new => exact hlimbo hr.1
  | done =>
    refine ⟨[], .nil none, ?_⟩
    rw [← hr.1]
    exact .of_eq (List.append_nil _).symm

omit [Zero F] in
/-- The links lead to every later position. -/
theorem Leads.of_le (ok : c.Ok L h) (hj : c.first ≤ j) (hjk : j ≤ k) (hk : k ≤ c.last) :
    Leads h (c.block j) (c.block k) := by
  induction hjk using Nat.decreasingInduction with
  | self => exact .refl _
  | of_succ j hlt ih =>
    have hnext := ok.next j ⟨hj, by omega⟩
    rw [if_neg (by omega)] at hnext
    exact .next hnext (ih (Nat.le_succ_of_le hj))

/-- A step moves blocks between the chain and the group. -/
theorem Ok.perm (ok : c.Ok L h) {r : Reclaim} (hr : r.Ok L c h lo tail) :
    ((r.chain c h).all ++ (r.step .natural L h tail).2.2.2.limbo).Perm (c.all ++ r.limbo) := by
  obtain ⟨hfirst, -, hr⟩ := hr
  cases r with
  | gather un old new =>
    have hc : (Reclaim.gather un old new).chain c h = c := rfl
    rw [Reclaim.step, hc]
    split_ifs
    · cases (h.block old).next <;> exact .refl _
    · exact .refl _
    · exact .refl _
  | reset un i old new =>
    have hc : (Reclaim.reset un i old new).chain c h = c := rfl
    rw [Reclaim.step, hc]
    dsimp only
    split_ifs <;> exact .refl _
  | tailNext un t old new | tailAgain un t old new =>
    rw [Reclaim.step]
    cases (h.block t).next <;> exact .refl _
  | unlink un t old new =>
    have hle := hr.1.le
    have hlast := hr.1.last
    have hc : (Reclaim.unlink un t old new).chain c h = c.drop un.length := rfl
    have hall : c.all = c.span c.first un.length ++ (c.drop un.length).all :=
      Chain.all_drop (by omega)
    rw [hc, hall, ← hr.2.2.1.eq_span, Reclaim.step]
    exact List.perm_append_comm.trans (.of_eq (List.append_nil _).symm)
  | tailOffset un t old new => exact .refl _
  | setOffset un i boff t old new =>
    have hc : (Reclaim.setOffset un i boff t old new).chain c h = c := rfl
    rw [Reclaim.step, hc]
    dsimp only
    split_ifs <;> exact .refl _
  | relink un t old new =>
    rw [Reclaim.step, Reclaim.chain]
    cases hn : (h.block t).next with
    | none =>
      rw [if_pos rfl, Chain.all_append ok.le]
      exact .of_eq (List.append_nil _)
    | some p =>
      rw [if_neg (Option.some_ne_none p)]
      exact .refl _
  | done => exact .refl _

end Reclaim

end CoroUtil.Blocks
