import CoroUtil.Blocks.Reclaim

/-!
# How long `reclaim_blocks` takes

`Reclaim.Ends n` says that the move is done after `n` more steps if the chain does
not become longer.  A step uses one of them up (`Ok.ends_step`), and a block that
another task links costs eight: the reclaimer goes one block on for it and, if it
is at the end, sets the offsets of its group again.
-/

namespace CoroUtil.Blocks

variable {F V : Type} {L : Layout} {c c' : Chain} {h h' : Heap F V} {lo k t tail n : Nat}

namespace Reclaim

/-- The steps that a block costs. -/
def cost (L : Layout) : Nat := 4 * L.blockSize + 20

/-- Block `t` is in the chain and at most `n` steps of one block from its end, each
at the price of eight, are left after `m`. -/
def Hops (c : Chain) (t m n : Nat) : Prop :=
  ∃ k, c.Has k ∧ c.block k = t ∧ m + 8 * (c.last - k) ≤ n

def Ends (L : Layout) (c : Chain) (lo tail n : Nat) : Reclaim → Prop
  | gather un _ _ => un.length ≤ 4 ∧ Hops c tail (cost L * (lo - c.first) + (5 - un.length)) n
  | reset un i _ _ =>
    un.length ≤ 4 ∧
      Hops c tail (cost L * (lo - c.first) + (4 * L.blockSize - i) + 16) (n + cost L)
  | tailNext un t _ _ => un.length ≤ 4 ∧ Hops c t (cost L * (lo - c.first) + 15) (n + cost L)
  | unlink un t _ _ => un.length ≤ 4 ∧ Hops c t (cost L * (lo - c.first) + 14) (n + cost L)
  | tailOffset un t _ _ => un.length ≤ 4 ∧ Hops c t (cost L * (lo - c.first) + 12) n
  | setOffset un i _ t _ _ =>
    un.length ≤ 4 ∧ Hops c t (cost L * (lo - c.first) + 7 + (4 - i)) n
  | relink un t _ _ => un.length ≤ 4 ∧ Hops c t (cost L * (lo - c.first) + 6) n
  | tailAgain un t _ _ => un.length ≤ 4 ∧ Hops c t (cost L * (lo - c.first) + 13) n
  | done => True

variable {m m' n' : Nat}

theorem Hops.mono (hh : Hops c t m n) (hle : m' + n ≤ n' + m) : Hops c t m' n' := by
  obtain ⟨k, hk, hb, hn⟩ := hh
  exact ⟨k, hk, hb, by omega⟩

/-- The reclaimer follows a link. -/
theorem Hops.next (hh : Hops c t m n) (ok : c.Ok L h) :
    (h.block t).next = none ∨ ∃ p, (h.block t).next = some p ∧ Hops c p (m + 8) n := by
  obtain ⟨k, hk, hb, hn⟩ := hh
  rcases next_of_has ok hk hb with ⟨hnone, -⟩ | ⟨p, hp, hk', hb'⟩
  · exact .inl hnone
  · have hlast := hk'.2
    exact .inr ⟨p, hp, k + 1, hk', hb', by omega⟩

/-- The chain has become longer. -/
theorem Hops.grow (hh : Hops c t m n) (hext : c.Extends c') (hfirst : c'.first = c.first) :
    Hops c' t m (n + 8 * (c'.last - c.last)) := by
  obtain ⟨k, hk, hb, hn⟩ := hh
  have hlast := hext.last
  exact ⟨k, ⟨hfirst ▸ hk.1, hk.2.trans hlast⟩, (hext.block k hk.2).trans hb, by omega⟩

theorem Ends.grow {r : Reclaim} (he : r.Ends L c lo tail n) (hext : c.Extends c')
    (hfirst : c'.first = c.first) : r.Ends L c' lo tail (n + 8 * (c'.last - c.last)) := by
  cases r with
  | done => trivial
  | gather un old new
  | tailOffset un t old new
  | setOffset un i boff t old new
  | relink un t old new
  | tailAgain un t old new =>
    obtain ⟨hlen, hh⟩ := he
    refine ⟨hlen, ?_⟩
    rw [hfirst]
    exact hh.grow hext hfirst
  | reset un i old new
  | tailNext un t old new
  | unlink un t old new =>
    obtain ⟨hlen, hh⟩ := he
    refine ⟨hlen, ?_⟩
    rw [hfirst]
    exact (hh.grow hext hfirst).mono (by omega)

theorem Hops.pos (hh : Hops c t m n) (hm : 0 < m) : 0 < n := by
  obtain ⟨k, -, -, hn⟩ := hh
  omega

variable [Zero F]

/-- A step uses up one of the steps that are left. -/
theorem Ok.ends_step (ok : c.Ok L h) {r : Reclaim} (hr : r.Ok L c h lo tail) (hne : r ≠ .done)
    (he : r.Ends L c lo tail n) :
    0 < n ∧ (r.step .natural L h tail).2.2.2.Ends L (r.chain c h) lo
      (r.step .natural L h tail).2.1 (n - 1) := by
  obtain ⟨hfirst, -, hr⟩ := hr
  have hcost : cost L = 4 * L.blockSize + 20 := rfl
  -- a group that is not unlinked yet has a block to pay for
  have hpay : ∀ {un : List Nat} {old new : Nat}, Heads c lo (c.first + un.length) old new →
      0 < un.length → cost L ≤ cost L * (lo - c.first) := fun hheads hun => by
    have hle := hheads.le
    exact Nat.le_mul_of_pos_right _ (by omega)
  cases r with
  | gather un old new =>
    obtain ⟨hlen, hh⟩ := he
    have hc : (Reclaim.gather un old new).chain c h = c := rfl
    refine ⟨hh.pos (by omega), ?_⟩
    rw [Reclaim.step, hc]
    split_ifs with hmore hnil
    · cases hn : (h.block old).next with
      | none => trivial
      | some p =>
        refine ⟨?_, hh.mono ?_⟩
        · rw [List.length_append, List.length_singleton]
          omega
        · rw [List.length_append, List.length_singleton]
          omega
    · trivial
    · exact ⟨hlen, hh.mono (by omega)⟩
  | reset un i old new =>
    obtain ⟨hlen, hh⟩ := he
    obtain ⟨hheads, -, -, hi, -⟩ := hr
    have hc : (Reclaim.reset un i old new).chain c h = c := rfl
    have hmul := Nat.mul_le_mul_right L.blockSize hlen
    have hun : 0 < un.length := Nat.pos_of_ne_zero fun h0 => by simp [h0] at hi
    have hone := hpay hheads hun
    have hpos : 0 < n := by
      obtain ⟨k, -, -, hn⟩ := hh
      omega
    refine ⟨hpos, ?_⟩
    rw [Reclaim.step, hc]
    dsimp only
    split_ifs with hmore
    · exact ⟨hlen, hh.mono (by omega)⟩
    · exact ⟨hlen, hh.mono (by omega)⟩
  | tailNext un t old new =>
    obtain ⟨hlen, hh⟩ := he
    obtain ⟨hheads, -, -, hun, -⟩ := hr
    have hc : (Reclaim.tailNext un t old new).chain c h = c := rfl
    have hone := hpay hheads hun
    have hpos : 0 < n := by
      obtain ⟨k, -, -, hn⟩ := hh
      omega
    refine ⟨hpos, ?_⟩
    rw [Reclaim.step, hc]
    rcases hh.next ok with hn | ⟨p, hn, hh'⟩
    · rw [hn]
      exact ⟨hlen, hh.mono (by omega)⟩
    · rw [hn]
      exact ⟨hlen, hh'.mono (by omega)⟩
  | unlink un t old new =>
    obtain ⟨hlen, k, hk, hb, hn⟩ := he
    obtain ⟨hheads, ⟨k', hk', hlast', hb'⟩, -, hun, -⟩ := hr
    have hle := hheads.le
    obtain rfl := ok.inj k k' hk ⟨by omega, hlast'⟩ (hb.trans hb'.symm)
    have hc : (Reclaim.unlink un t old new).chain c h = c.drop un.length := rfl
    have hone := hpay hheads hun
    have hgone : cost L * (lo - (c.first + un.length)) + cost L ≤ cost L * (lo - c.first) := by
      rw [← Nat.mul_succ]
      exact Nat.mul_le_mul_left _ (by omega)
    have hdrop : (c.drop un.length).first = c.first + un.length := rfl
    have hlast : (c.drop un.length).last = c.last := rfl
    refine ⟨by omega, ?_⟩
    rw [Reclaim.step, hc]
    refine ⟨hlen, k, ⟨hk', hlast'⟩, hb, ?_⟩
    rw [hdrop, hlast]
    omega
  | tailOffset un t old new =>
    obtain ⟨hlen, hh⟩ := he
    have hc : (Reclaim.tailOffset un t old new).chain c h = c := rfl
    have hpos := hh.pos (by omega)
    refine ⟨hpos, ?_⟩
    rw [Reclaim.step, hc]
    exact ⟨hlen, hh.mono (by omega)⟩
  | setOffset un i boff t old new =>
    obtain ⟨hlen, hh⟩ := he
    obtain ⟨-, -, hi, -⟩ := hr
    have hc : (Reclaim.setOffset un i boff t old new).chain c h = c := rfl
    have hpos := hh.pos (by omega)
    refine ⟨hpos, ?_⟩
    rw [Reclaim.step, hc]
    dsimp only
    split_ifs with hmore
    · exact ⟨hlen, hh.mono (by omega)⟩
    · exact ⟨hlen, hh.mono (by omega)⟩
  | relink un t old new =>
    obtain ⟨hlen, hh⟩ := he
    obtain ⟨hheads, hlimbo, -⟩ := hr
    have hpos := hh.pos (by omega)
    refine ⟨hpos, ?_⟩
    rw [Reclaim.step, chain]
    rcases hh.next ok with hn | ⟨p, hn, hh'⟩
    · have hun := hlimbo.pos
      have hend : un.getLastD 0 = un[un.length - 1] := by
        rw [List.getLastD_eq_getLast?, List.getLast?_eq_getElem?,
          List.getElem?_eq_getElem (Nat.sub_one_lt_of_lt hun), Option.getD_some]
      have hlast : (c.append un).last = c.last + un.length := rfl
      have hfirst' : (c.append un).first = c.first := rfl
      obtain ⟨k, hk, -, hle⟩ := hh
      have hcf := ok.le
      rw [hn, if_pos rfl, hend]
      refine ⟨Nat.zero_le _, c.last + 1 + (un.length - 1), ⟨by omega, by omega⟩,
        Chain.append_block (Nat.sub_one_lt_of_lt hun), ?_⟩
      rw [hlast, hfirst', List.length_nil]
      omega
    · rw [hn, if_neg (Option.some_ne_none p)]
      exact ⟨hlen, hh'.mono (by omega)⟩
  | tailAgain un t old new =>
    obtain ⟨hlen, hh⟩ := he
    have hc : (Reclaim.tailAgain un t old new).chain c h = c := rfl
    have hpos := hh.pos (by omega)
    refine ⟨hpos, ?_⟩
    rw [Reclaim.step, hc]
    rcases hh.next ok with hn | ⟨p, hn, hh'⟩
    · rw [hn]
      exact ⟨hlen, hh.mono (by omega)⟩
    · rw [hn]
      exact ⟨hlen, hh'.mono (by omega)⟩
  | done => exact absurd rfl hne

end Reclaim

end CoroUtil.Blocks
