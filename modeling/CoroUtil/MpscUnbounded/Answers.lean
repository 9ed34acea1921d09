import CoroUtil.MpscUnbounded.Delivery

/-!
# What the answers of the queue say

`try_pull()` looks at the slot at `read_offset` alone, so its EMPTY may come while a
value waits behind a call that has taken an earlier ticket: `empty_answer` says that
there is no other reason.  `bulk_answer` is that `post_bulk()` puts all of its items in
one row, or none.
-/

namespace CoroUtil.MpscUnbounded

open CoroUtil.Blocks CoroUtil.General

variable {V : Type} {o : Offsets} {cfg : Config} {s s' : State V} {m : Map V} {p : Tid}
  {w : Put V} {n idx k b : Nat} {acc spurious : Bool} {pc : Pc V} {c : Call} {x : Post V}

/-- The call of a task that has its ticket, and the ticket. -/
def Pc.ticket : Pc V → Option (Put V × Nat)
  | loadClosed w idx | spinReady w idx | loadClosedAt w idx => some (w, idx)
  | pc => pc.accepted

/-- How many items of its call a task has published. -/
def Pc.published : Pc V → Nat
  | emplace _ _ k _ | publish _ _ k _ | nextBlock _ _ k _ => k
  | resumeConsumer _ _ k _ _ => k + 1
  | _ => 0

/-- A call with a ticket before `idx` has not published the item at `read_offset`. -/
def State.Stalled (s : State V) (idx : Nat) : Prop :=
  ∃ p w i, (s.task p).ticket = some (w, i) ∧ i + (s.task p).published ≤ s.readOffset ∧
    s.readOffset < i + w.count ∧ i + w.count ≤ idx

/-- The items of a call with their indices, in order. -/
def Post.row (x : Post V) : List (Nat × V) :=
  (List.range x.put.count).map fun i => (x.ticket + i, x.put.item i)

/-- The values of a call that have been handed out, with their indices, in order. -/
def State.handedOf (s : State V) (x : Post V) : List (Nat × V) :=
  ((handed s.pulls).drop x.ticket).take x.put.count

/-! ## EMPTY -/

/-- What the ledger says of a task says where its call is. -/
theorem Knows.ticket_of_role (h : Knows cfg s m (.put w idx k acc) pc) :
    pc.ticket = some (w, idx) ∧ pc.published = k := by
  cases pc with
  | idle | closeCas | closeTicket => cases h
  | fetchTicket | storeClosedAt => cases h.1
  | storeReady | exchangeClosed | elemNull | closeResume => cases h.1.1
  | loadClosed =>
    cases h
    exact ⟨rfl, rfl⟩
  | spinReady | loadClosedAt =>
    cases h.1
    exact ⟨rfl, rfl⟩
  | loadHint j i | loadWriteBlock j i =>
    cases j <;> cases h.1
    exact ⟨rfl, rfl⟩
  | hintOffset j i b | assertWriteBlock j i b | find j i b f =>
    cases j <;> cases h.1.1
    exact ⟨rfl, rfl⟩
  | _ =>
    cases h.1.1
    exact ⟨rfl, rfl⟩

/-- An index that has been given out and is not ready, with an accepted call behind it,
belongs to a call in progress. -/
theorem Inv.stalled (h : Inv cfg s m) (hx : x ∈ s.posts) (hok : x.ok = true)
    (hlt : s.readOffset < x.ticket + x.put.count) (hne : ∀ v, m.stage s.readOffset ≠ .ready v) :
    s.Stalled x.ticket := by
  have hpost := h.ledger.post x hx
  have hready := hpost.accepted hok
  have hbefore : s.readOffset < x.ticket := by
    by_contra hge
    have hst := hready.1 (s.readOffset - x.ticket) (by omega)
    rw [Nat.add_sub_cancel' (Nat.not_lt.mp hge)] at hst
    exact hne _ hst
  have hcut : ∀ c, m.cut = some c → s.readOffset < c := fun c hc => by
    have hle := hready.2 c hc
    omega
  have htop : x.ticket + x.put.count ≤ s.writeOffset := hpost.top
  rcases h.ledger.cover s.readOffset (by change _ < s.writeOffset; omega) with
    ⟨y, hy, hle, hn⟩ | ⟨p, hp⟩ | hc
  · change s.readOffset < y.ticket + y.put.count at hn
    replace hle : y.ticket ≤ s.readOffset := hle
    cases hyok : y.ok with
    | true =>
      have hst := ((h.ledger.post y hy).accepted hyok).1 (s.readOffset - y.ticket) (by omega)
      rw [Nat.add_sub_cancel' hle] at hst
      exact absurd hst (hne _)
    | false =>
      obtain ⟨-, c, hc, hgt⟩ := (h.ledger.post y hy).rejected hyok
      have hclt := hcut c hc
      omega
  · have hp : (m.role p).Covers s.readOffset := hp
    cases hr : m.role p with
    | put w i k acc =>
      have hput := h.ledger.put p w i k acc hr
      rw [hr] at hp
      obtain ⟨hle, hn⟩ := hp
      have hk : k ≤ s.readOffset - i := by
        by_contra hgt
        have hst := hput.done (s.readOffset - i) (by omega)
        rw [Nat.add_sub_cancel' hle] at hst
        exact hne _ hst
      have hknows := h.task p
      rw [hr] at hknows
      obtain ⟨ht, hpub⟩ := hknows.ticket_of_role
      refine ⟨p, w, i, ht, by omega, hn, ?_⟩
      -- the two calls have no index in common
      by_contra hover
      refine h.ledger.posted x hx x.ticket ⟨le_rfl, by have := hpost.pos; omega⟩ p ?_
      change (m.role p).Covers x.ticket
      rw [hr]
      exact ⟨by omega, by omega⟩
    | closer c =>
      rw [hr] at hp
      have hp : s.readOffset = c := hp
      exact absurd (hcut c (h.ledger.closer p c hr)) (by omega)
    | out | winner =>
      rw [hr] at hp
      exact hp.elim
  · exact absurd (hcut _ hc) (Nat.lt_irrefl _)

/-- What a poll that does not see a value says about a call that has returned true. -/
theorem Inv.poll (h : Inv cfg s m) (hpc : s.consumer = .poll c idx b)
    (hne : (s.elem cfg b idx).flags ≠ .data) (hx : x ∈ s.posts) (hok : x.ok = true) :
    (∀ n v, x.put.At x.ticket n v → (n, v) ∈ MpscUnbounded.handed s.pulls) ∨
      s.Stalled x.ticket := by
  have hk := h.consumer
  rw [hpc] at hk
  obtain ⟨-, hclear, ⟨rfl, hb⟩, -⟩ := hk
  have hstage : ∀ v, m.stage s.readOffset ≠ .ready v := fun v hv => by
    refine hne ?_
    rw [hb.elem, hclear, hv]
    rfl
  rcases Nat.lt_or_ge s.readOffset (x.ticket + x.put.count) with hlt | hge
  · exact .inr (h.stalled hx hok hlt hstage)
  · refine .inl fun n v hv => (State.Accepted.post hx hok).handed h hv ?_
    obtain ⟨i, hi, rfl, -⟩ := hv
    omega

theorem Pc.ticket_wrap {L : Layout} : (pc.wrap L).ticket =
    pc.ticket.map fun x => (x.1, word L.bits x.2) := by
  cases pc with
  | loadHint j i | loadWriteBlock j i | hintOffset j i b | assertWriteBlock j i b | find j i b f =>
    cases j <;> rfl
  | _ => rfl

theorem Pc.published_wrap {L : Layout} : (pc.wrap L).published = pc.published := by
  cases pc <;> rfl

/-- The ticket of a task is in the ledger. -/
theorem Knows.role_of_ticket {r : Role V} (h : Knows cfg s m r pc)
    (hp : pc.ticket = some (w, idx)) : ∃ k acc, r = .put w idx k acc := by
  cases pc with
  | loadClosed w i =>
    cases hp
    exact ⟨0, false, h⟩
  | spinReady w i | loadClosedAt w i =>
    cases hp
    exact ⟨0, false, h.1⟩
  | _ =>
    obtain ⟨k, hr⟩ := h.role_of_accepted hp
    exact ⟨k, true, hr⟩

theorem Unwrapped.stalled (h : Unwrapped cfg s m) (hs : s.Stalled idx) :
    (s.wrap cfg.toLayout).Stalled idx := by
  obtain ⟨p, w, i, ht, hle, hlt, htop⟩ := hs
  obtain ⟨k, acc, hr⟩ := (h.inv.task p).role_of_ticket ht
  have hwrite : i + w.count ≤ s.writeOffset := (h.inv.ledger.put p w i k acc hr).top
  have hi : word cfg.bits i = i := h.word_eq (by omega)
  have hread : word cfg.bits s.readOffset = s.readOffset := h.word_eq (by omega)
  refine ⟨p, w, i, ?_, ?_, ?_, htop⟩
  · rw [State.task_wrap, Pc.ticket_wrap, ht]
    exact congrArg (fun j => some (w, j)) hi
  · change i + ((s.task p).wrap cfg.toLayout).published ≤ word cfg.bits s.readOffset
    rw [Pc.published_wrap, hread]
    exact hle
  · change word cfg.bits s.readOffset < i + w.count
    rwa [hread]

/-- A poll that answers EMPTY has not seen a value. -/
theorem State.poll_empty (hpc : s.consumer = .poll c idx b)
    (hs : s.consumerStep o cfg spurious = some s') (he : s'.pulls = s.pulls ++ [.empty k]) :
    (s.elem cfg b idx).flags ≠ .data := by
  intro hflags
  have hhand : s.consumerStep o cfg spurious = some (s.handOut cfg idx b) := by
    rw [State.consumerStep, hpc]
    dsimp only
    rw [hflags]
  cases hhand.symm.trans hs
  rw [State.handOut] at he
  split at he
  · have hlast := List.append_cancel_left he
    cases hlast
  · have hlen := congrArg List.length he
    change s.pulls.length = _ at hlen
    rw [List.length_append, List.length_singleton] at hlen
    omega

/-- **EMPTY.**  When `try_pull()` answers EMPTY, every value of a call that has returned
true has been handed out by then, unless a call with an earlier ticket has not yet
published the item that the consumer is at. -/
theorem empty_answer {y : State V × Nat} (hB : 1 < cfg.blockSize)
    (hr : (counted V .wrapping cfg).Reachable y) (hy : y.2 < 2 ^ (cfg.bits - 1))
    (hpc : y.1.consumer = .poll .tryPull idx b)
    (hs : step .wrapping cfg y.1 (.consumer spurious) = some s')
    (he : s'.pulls = y.1.pulls ++ [.empty k]) {x : Post V} (hx : x ∈ y.1.posts)
    (hok : x.ok = true) :
    (∀ n v, x.put.At x.ticket n v → (n, v) ∈ handed y.1.pulls) ∨ y.1.Stalled x.ticket := by
  obtain ⟨s, hsr, rfl⟩ := counted_wrapping hB hr hy
  obtain ⟨⟨m, hm⟩, -⟩ := reachable_closing hsr
  have hu : Unwrapped cfg s m := ⟨hm, half_lt hy⟩
  have hne := State.poll_empty hpc hs he
  rw [State.consumer_wrap] at hpc
  cases hc : s.consumer <;> rw [hc] at hpc <;> cases hpc
  rename_i i
  rw [show word cfg.toLayout.bits i = word cfg.bits i from rfl, State.elem_wrap] at hne
  rw [hu.posts] at hx
  rw [hu.pulls]
  exact (hm.poll hc hne hx hok).imp_right hu.stalled

/-- A task has taken ticket 0 and goes no further.  7 is posted behind it, and `try_pull()`
polls. -/
def behindStalled : List (Act Nat) := List.flatten
  [[.post 1 5, .task 1 false, .post 0 7], taskSteps 0 10, [.pull .tryPull], consumerSteps 2]

/-- The answer is EMPTY though 7 is there. -/
theorem empty_answer_behindStalled :
    ∃ y s', behindStalled.foldlM (countedStep .wrapping eightBits) (.init, 0) = some y ∧
      step .wrapping eightBits y.1 (.consumer false) = some s' ∧ s'.pulls = [.empty 1] ∧
      y.1.posts = [⟨0, 1, .post 7, true⟩] ∧ handed y.1.pulls = [] ∧
      ((∀ n v, (Put.post 7).At 1 n v → (n, v) ∈ handed y.1.pulls) ∨ y.1.Stalled 1) := by
  obtain ⟨y, s', hy, hpc, hs, he, hp, hh, hlt⟩ : ∃ y s',
      behindStalled.foldlM (countedStep .wrapping eightBits) (.init, 0) = some y ∧
      y.1.consumer = .poll .tryPull 0 0 ∧
      step .wrapping eightBits y.1 (.consumer false) = some s' ∧
      s'.pulls = y.1.pulls ++ [.empty 1] ∧ y.1.posts = [⟨0, 1, .post 7, true⟩] ∧
      y.1.pulls = [] ∧ y.2 < 2 ^ (eightBits.bits - 1) :=
    ⟨_, _, rfl, rfl, rfl, rfl, rfl, rfl, by decide⟩
  refine ⟨y, s', hy, hs, by rw [he, hh]; rfl, hp, by rw [hh]; rfl, ?_⟩
  exact empty_answer (x := ⟨0, 1, .post 7, true⟩) (by decide)
    (System.ofStep_reachable behindStalled hy) hlt hpc hs he (by simp [hp]) rfl

/-! ## Bulk calls -/

theorem handed_getElem (h : TicketOrder o cfg s) {i : Nat} (hi : i < (handed s.pulls).length) :
    ∃ v, (handed s.pulls)[i] = (i, v) := by
  have hi' : i < ((handed s.pulls).map Prod.fst).length := by rwa [List.length_map]
  have hmap : ((handed s.pulls).map Prod.fst)[i] = i := by
    rw [List.getElem_of_eq h.order, List.getElem_range]
  rw [List.getElem_map] at hmap
  exact ⟨_, Prod.ext hmap rfl⟩

/-- What has been handed out of an accepted call is a beginning of its row of items. -/
theorem TicketOrder.row (h : TicketOrder o cfg s) (hx : x ∈ s.posts) (hok : x.ok = true) :
    s.handedOf x <+: x.row := by
  have hlen : (s.handedOf x).length = min x.put.count ((handed s.pulls).length - x.ticket) := by
    rw [State.handedOf, List.length_take, List.length_drop]
  rw [List.prefix_iff_eq_take]
  refine List.ext_getElem ?_ fun i hi hi' => ?_
  · rw [List.length_take, Post.row, List.length_map, List.length_range, hlen]
    omega
  · rw [hlen] at hi
    have hlt : x.ticket + i < (handed s.pulls).length := by omega
    obtain ⟨v, hv⟩ := handed_getElem h hlt
    have hmem : (x.ticket + i, v) ∈ handed s.pulls := hv ▸ List.getElem_mem hlt
    obtain ⟨w, idx, ha, hat⟩ := h.value _ v hmem
    have hitem : x.put.At x.ticket (x.ticket + i) (x.put.item i) := ⟨i, by omega, rfl, rfl⟩
    obtain ⟨-, -, rfl⟩ := h.unique _ _ _ _ (.post hx hok) hitem _ _ _ ha hat
    have hrow : (x.row.take (s.handedOf x).length)[i] = (x.ticket + i, x.put.item i) := by
      rw [List.getElem_take]
      exact (List.getElem_map ..).trans (by rw [List.getElem_range])
    rw [hrow]
    exact (List.getElem_take ..).trans ((List.getElem_drop ..).trans hv)

/-- Nothing is constructed at an index of a call that has been rejected. -/
theorem TicketOrder.nothing (h : TicketOrder o cfg s) (hx : x ∈ s.posts) (hok : x.ok = false)
    (hn : x.Covers n) {v : V} : (n, v) ∉ s.constructed := by
  intro hc
  obtain ⟨w, idx, ha, i, hi, hni, -⟩ := h.constructed n v hc
  have hno : ¬∀ c, s.Sentinel c → x.ticket < c := fun hall => by
    cases hok.symm.trans ((h.cutoff x hx).mpr hall)
  push Not at hno
  obtain ⟨c, hs, hle⟩ := hno
  have hbelow := h.below w idx ha c hs
  have hge := hn.1
  omega

/-- **All or nothing.**  The items of a `post_bulk()` that returns true are delivered in
one row, in the order of the iterator; one that returns false constructs nothing. -/
theorem bulk_answer {y : State V × Nat} (hB : 1 < cfg.blockSize)
    (hr : (counted V .wrapping cfg).Reachable y) (hy : y.2 < 2 ^ (cfg.bits - 1)) {x : Post V}
    (hx : x ∈ y.1.posts) :
    (x.ok = true → y.1.handedOf x <+: x.row) ∧
      (x.ok = false → ∀ n v, x.Covers n → (n, v) ∉ y.1.constructed) := by
  have h := ticket_order hB hr hy
  exact ⟨h.row hx, fun hok _ _ hn => h.nothing hx hok hn⟩

/-- Three items are put, the queue is closed, two more are rejected, and one is pulled. -/
def bulkThenClose : List (Act Nat) := List.flatten
  [[.bulk 0 id 3], taskSteps 0 20, [.close 0], taskSteps 0 8, [.bulk 1 id 2], taskSteps 1 4,
   [.pull .tryPull], consumerSteps 3]

theorem bulk_answer_bulkThenClose :
    ∃ y, bulkThenClose.foldlM (countedStep .wrapping eightBits) (.init, 0) = some y ∧
      handed y.1.pulls = [(0, 0)] ∧ ∃ x x', y.1.posts = [x, x'] ∧ x.ok = true ∧ x'.ok = false ∧
      y.1.handedOf x <+: x.row ∧ ∀ n v, x'.Covers n → (n, v) ∉ y.1.constructed := by
  obtain ⟨y, hy, hh, x, x', hp, hx, hx', hlt⟩ : ∃ y,
      bulkThenClose.foldlM (countedStep .wrapping eightBits) (.init, 0) = some y ∧
      handed y.1.pulls = [(0, 0)] ∧ ∃ x x', y.1.posts = [x, x'] ∧ x.ok = true ∧ x'.ok = false ∧
      y.2 < 2 ^ (eightBits.bits - 1) := ⟨_, rfl, rfl, _, _, rfl, rfl, rfl, by decide⟩
  have hr := System.ofStep_reachable bulkThenClose hy
  exact ⟨y, hy, hh, x, x', hp, hx, hx', (bulk_answer (by decide) hr hlt (by simp [hp])).1 hx,
    (bulk_answer (by decide) hr hlt (by simp [hp])).2 hx'⟩

end CoroUtil.MpscUnbounded
