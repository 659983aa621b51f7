import Orderbook.Linked

/-! # Which orders the book admits

    `modify_order` refuses a price that is not positive and a quantity that
    is used up; `add_order` takes every order it is given.  When no such
    order is added, every resting order has a positive price and something
    left to fill, and `-1` stands for an empty side.

    In the middle of the loop a partially filled order may have traded
    nothing yet: a filled order that has come to the front again trades the
    quantity zero.  The other order then stays at the front of its level, the
    levels still cross, and the loop goes on until it has traded. -/

namespace Orderbook
namespace OrderBook
variable {P : Type} [LinearOrder P] [Zero P]

/-- What `validate_modify_order` asks of the orders, the law of the statuses,
    and the meaning of the best prices. -/
structure Admitted [One P] [Neg P] (book : OrderBook P) : Prop where
  resting : ∀ i, book.Accepted i → (book.slot i).Live →
    0 < (book.slot i).price ∧ (book.slot i).quantityFilled < (book.slot i).quantity
  partly : ∀ i, book.Accepted i → (book.slot i).status = .partiallyFilled →
    0 < (book.slot i).quantityFilled ∧ (book.slot i).quantityFilled < (book.slot i).quantity
  bestBid : book.getBestBid = -1 ↔ book.bids.isEmpty = true
  bestAsk : book.getBestAsk = -1 ↔ book.asks.isEmpty = true

/-- Every live order has a positive price and something left to fill. -/
def Opened (book : OrderBook P) : Prop :=
  ∀ i, book.Accepted i → (book.slot i).Live →
    0 < (book.slot i).price ∧ (book.slot i).quantityFilled < (book.slot i).quantity

/-- Every partially filled order has traded, but for those that meet `Q`. -/
def TradedBut (Q : ℕ → Prop) (book : OrderBook P) : Prop :=
  ∀ i, book.Accepted i → (book.slot i).status = .partiallyFilled →
    0 < (book.slot i).quantityFilled ∨ Q i

/-- The order `i` is the next to trade. -/
def Next (book : OrderBook P) (i : ℕ) : Prop :=
  book.Crossing ∧ ∃ it e, (book.levels (book.slot i).side).front? = some it ∧
    it.2.orderEntries[it.2.queueHeadIndex]? = some e ∧ e.order.slot = i

/-- Between two calls. -/
structure Proper (book : OrderBook P) : Prop where
  linked : book.Linked
  opened : book.Opened
  traded : book.TradedBut fun _ => False

/-- Between two iterations of the loop. -/
structure Halfway (book : OrderBook P) : Prop where
  linked : book.Linked
  opened : book.Opened
  traded : book.TradedBut book.Next

theorem Proper.halfway {book : OrderBook P} (h : book.Proper) : book.Halfway where
  linked := h.linked
  opened := h.opened
  traded i hi hst := Or.inl ((h.traded i hi hst).resolve_right not_false)

omit [Zero P] in
theorem Uncrossed.not_crossing {book : OrderBook P} (h : book.Uncrossed) : ¬ book.Crossing := by
  rintro ⟨bidIt, askIt, hb, ha, hle⟩
  rcases h with hnone | hnone | ⟨bidIt', askIt', hb', ha', hlt⟩
  · rw [hb] at hnone
    cases hnone
  · rw [ha] at hnone
    cases hnone
  · rw [hb, Option.some.injEq] at hb'
    rw [ha, Option.some.injEq] at ha'
    rw [← hb', ← ha'] at hlt
    exact absurd hle (not_le.mpr hlt)

/-- When the loop has ended, nobody is left waiting. -/
theorem Halfway.proper {book : OrderBook P} (h : book.Halfway) (hun : book.Uncrossed) :
    book.Proper where
  linked := h.linked
  opened := h.opened
  traded i hi hst :=
    Or.inl ((h.traded i hi hst).resolve_right fun hnext => hun.not_crossing hnext.1)

/-! ### The queries -/

/-- The prices of a side are positive. -/
theorem Proper.price_pos {book : OrderBook P} (h : book.Proper) (hs : book.Sound)
    {side : OrderSide} {price : P} {lvl : PriceLevel P}
    (hlvl : (book.levels side).find? price = some lvl) : 0 < price := by
  have hsound := hs.level _ _ _ hlvl
  obtain ⟨id, j, hj⟩ := PriceLevel.empty_eq_false_iff.mp hsound.not_empty
  obtain ⟨p, hp, -, hprice, hlive⟩ := (h.linked.level _ _ _ hlvl).keys.of_key hsound.wf hj
  rw [← hprice]
  exact (h.opened _ (hsound.entries _ (List.mem_of_getElem? hp)).1 hlive).1

/-- The sign for an empty side is no price of a stored level. -/
theorem Proper.best_ne [One P] [Neg P] (hneg : (-1 : P) ≤ 0) {book : OrderBook P}
    (h : book.Proper) (hs : book.Sound) {side : OrderSide} {it : P × PriceLevel P}
    (hfront : (book.levels side).front? = some it) : it.1 ≠ -1 := by
  have hpos := h.price_pos hs (SortedMap.front?_eq_some_iff.mp hfront).1
  intro heq
  rw [heq] at hpos
  exact absurd hpos (not_lt.mpr hneg)

theorem Proper.admitted [One P] [Neg P] (hneg : (-1 : P) ≤ 0) {book : OrderBook P}
    (h : book.Proper) (hs : book.Sound) : book.Admitted where
  resting := h.opened
  partly i hi hst :=
    ⟨(h.traded i hi hst).resolve_right not_false, (h.opened i hi (Or.inr hst)).2⟩
  bestBid := by
    rw [SortedMap.isEmpty_iff, ← SortedMap.front?_eq_none_iff, getBestBid]
    cases hfront : book.bids.front? with
    | none => simp
    | some it => exact iff_of_false (h.best_ne hneg hs hfront) (by simp)
  bestAsk := by
    rw [SortedMap.isEmpty_iff, ← SortedMap.front?_eq_none_iff, getBestAsk]
    cases hfront : book.asks.front? with
    | none => simp
    | some it => exact iff_of_false (h.best_ne hneg hs hfront) (by simp)

/-! ### Adding, cancelling and modifying -/

theorem Enqueued.proper {book queued : OrderBook P} {client : Order P} {id : OrderId}
    {p : OrderPtr} (hq : Enqueued book client id p queued) (hs : book.Sound)
    (hfresh : book.orderRegistry.find? id = none) (hprice : 0 < client.price)
    (hqty : 0 < client.quantity) (h : book.Proper) : queued.Proper := by
  have hcases : ∀ i, queued.Accepted i →
      i = p.slot ∨ (book.Accepted i ∧ queued.slot i = book.slot i) := by
    intro i hi
    rcases (hq.accepted i).mp hi with hi | rfl
    · exact Or.inr ⟨hi, hq.kept i hi⟩
    · exact Or.inl rfl
  refine ⟨hq.linked hs hfresh h.linked, ?_, ?_⟩
  · intro i hi hlive
    rcases hcases i hi with rfl | ⟨hold, hsame⟩
    · show 0 < (queued.order p).price ∧ (queued.order p).quantityFilled < (queued.order p).quantity
      rw [hq.price, hq.unfilled, hq.quantity]
      exact ⟨hprice, hqty⟩
    · rw [hsame] at hlive ⊢
      exact h.opened i hold hlive
  · intro i hi hst
    rcases hcases i hi with rfl | ⟨hold, hsame⟩
    · rw [show (queued.slot p.slot).status = .new from hq.status] at hst
      cases hst
    · rw [hsame] at hst ⊢
      exact h.traded i hold hst

/-- Writing one order back. -/
theorem Proper.amend {book : OrderBook P} (h : book.Proper) {p : OrderPtr} {o : Order P}
    {book' : OrderBook P} (hlinked : book'.Linked)
    (hslot : ∀ i, book'.slot i = if i = p.slot then o else book.slot i)
    (hacc : ∀ i, book'.Accepted i → book.Accepted i)
    (hopen : o.Live → 0 < o.price ∧ o.quantityFilled < o.quantity)
    (hpart : o.status = .partiallyFilled → 0 < o.quantityFilled) : book'.Proper := by
  refine ⟨hlinked, ?_, ?_⟩
  · intro i hi hlive
    rw [hslot] at hlive ⊢
    split at hlive
    · next heq =>
      rw [if_pos heq]
      exact hopen hlive
    · next hne =>
      rw [if_neg hne]
      exact h.opened i (hacc i hi) hlive
  · intro i hi hst
    rw [hslot] at hst ⊢
    split at hst
    · next heq =>
      rw [if_pos heq]
      exact Or.inl (hpart hst)
    · next hne =>
      rw [if_neg hne]
      exact h.traded i (hacc i hi) hst

theorem CancelOutcome.proper {book book' : OrderBook P} {id : OrderId} {b : Bool}
    (ho : CancelOutcome book id b book') (hs : book.Sound) (h : book.Proper) : book'.Proper := by
  have hlinked := ho.linked hs h.linked
  cases ho with
  | unknown _ => exact h
  | dead _ _ _ => exact h
  | cancelled p lvl lvl' now hreg hlive hlvl hrem hwf =>
    exact h.amend (o := (book.order p).cancelledAt now) hlinked (setOrder_slot _ _ _)
      (fun _ hi => hi)
      (fun hl => by simp [Order.cancelledAt, Order.Live] at hl)
      fun hst => by simp [Order.cancelledAt] at hst

theorem ModifyOutcome.proper {book book' : OrderBook P} {id : OrderId} {price : P}
    {qty : Quantity} {b : Bool} (ho : ModifyOutcome book id price qty b book') (hs : book.Sound)
    (h : book.Proper) : book'.Proper := by
  have hlinked := ho.linked hs h.linked
  -- An accepted amendment has been validated, and leaves fill and status.
  have hamend : ∀ (p : OrderPtr) (o : Order P), book.orderRegistry.find? id = some p →
      (∀ i, book'.slot i = if i = p.slot then o else book.slot i) →
      (∀ i, book'.Accepted i → book.Accepted i) → 0 < price → (book.order p).quantityFilled < qty →
      o.price = price → o.quantity = qty → o.quantityFilled = (book.order p).quantityFilled →
      o.status = (book.order p).status → book'.Proper := by
    intro p o hreg hslot hacc hpos hqty hop hoq hof host
    refine h.amend hlinked hslot hacc ?_ ?_
    · intro _
      rw [hop, hoq, hof]
      exact ⟨hpos, hqty⟩
    · intro hst
      rw [hof]
      rw [host] at hst
      exact (h.traded p.slot (hs.registered id p hreg).1 hst).resolve_right not_false
  cases ho with
  | unknown _ => exact h
  | dead _ _ _ => exact h
  | invalid _ _ _ _ => exact h
  | same _ _ _ _ _ _ _ => exact h
  | reduced p hreg hlive hpos hqty hprice hlt =>
    exact hamend p ((book.order p).setQuantity qty) hreg (setOrder_slot _ _ _) (fun _ hi => hi) hpos
      hqty hprice.symm rfl rfl rfl
  | requeued p lvl lvl' hreg hlive hpos hqty hprice hgt hlvl hrem hwf =>
    exact hamend p ((book.order p).setQuantity qty) hreg (setOrder_slot _ _ _) (fun _ hi => hi) hpos
      hqty hprice.symm rfl rfl rfl
  | moved p lvl lvl' now hreg hlive hpos hqty hprice hlvl hrem hwf =>
    exact hamend p (((book.order p).setPrice price now).setQuantity qty) hreg (setOrder_slot _ _ _)
      (fun _ hi => hi) hpos hqty rfl rfl rfl rfl

/-! ### Matching -/

namespace Iteration
variable {book book' : OrderBook P}

omit [Zero P] in
/-- A level that is not used up stays the best of its side. -/
theorem front_after (x : Iteration book book') {side : OrderSide}
    (hne : (x.lvl' side).empty = false) :
    (book'.levels side).front? = some ((x.it side).1, x.lvl' side) := by
  obtain ⟨-, hmin⟩ := SortedMap.front?_eq_some_iff.mp (x.front side)
  refine SortedMap.front?_eq_some_iff.mpr ⟨?_, fun k w hw => ?_⟩
  · rw [x.find?, if_pos rfl, hne]
    rfl
  · rw [x.find?] at hw
    split at hw
    · next hk => exact Or.inl hk
    · exact hmin k w hw

/-- Where nothing is traded, one of the two orders was filled before, and its
    level still holds others. -/
theorem exists_filled_before (x : Iteration book book') (hs : book.Sound) (h : book.Halfway)
    (hzero : x.qty = 0) : ∃ side, (book.order (x.ptr side)).status = .fullyFilled := by
  obtain ⟨side, hq⟩ := x.exists_filled
  refine ⟨side, ?_⟩
  rcases (x.front_order hs h.linked side).2 with ⟨hlive, -⟩ | hst
  · have hopen := (h.opened _ (x.accepted hs side).1 hlive).2
    have havail := Order.available_toNat (hs.filled_le _ (x.accepted hs side).1)
    rw [UInt64.lt_iff_toNat_lt] at hopen
    have hnat : (book.slot (x.ptr side).slot).available.toNat = 0 := by
      show (book.order (x.ptr side)).available.toNat = 0
      rw [← hq, hzero]
      rfl
    omega
  · exact hst

omit [Zero P] in
theorem not_empty_of_filled_before (x : Iteration book book') (hs : book.Sound)
    (h : book.Linked) {side : OrderSide}
    (hst : (book.order (x.ptr side)).status = .fullyFilled) : (x.lvl' side).empty = false := by
  have hsound := hs.level _ _ _ (x.find side)
  obtain ⟨id, j, hj⟩ := PriceLevel.empty_eq_false_iff.mp hsound.not_empty
  obtain ⟨p, hp, hid, -, hlive⟩ := (h.level _ _ _ (x.find side)).keys.of_key hsound.wf hj
  -- The key belongs to a live order, so it is not the one that is erased.
  have hne : id ≠ (book'.order (x.ptr side)).id := by
    intro heq
    rw [show (book'.order (x.ptr side)).id = _ from (x.slot_same _).1, ← hid] at heq
    have hsame := h.order_eq (hsound.entries _ (List.mem_of_getElem? hp)).1
      (x.accepted hs side).1 heq
    rw [show book.orderPool.get p = _ from hsame] at hlive
    exact hlive.not_filled hst
  refine PriceLevel.empty_eq_false_iff.mpr ⟨id, j, ?_⟩
  rw [(x.popped side).find?_ne fun _ => hne]
  exact hj

/-- An order that has not traded yet is next. -/
theorem next_of_zero (x : Iteration book book') (hs : book.Sound) (h : book.Halfway)
    (hcross : (x.it .sell).1 ≤ (x.it .buy).1) (hzero : x.qty = 0) {side : OrderSide}
    (hst : (book'.order (x.ptr side)).status = .partiallyFilled) :
    book'.Next (x.ptr side).slot := by
  have hkept : x.lvl' side = (x.it side).2 := by
    have hpop := x.popped side
    revert hpop
    generalize x.lvl' side = lvl'
    intro hpop
    cases hpop with
    | kept _ => rfl
    | popped n hfilled _ _ =>
      rw [show (book'.orderPool.get (x.entry side).order).status = _ from hst] at hfilled
      cases hfilled
  have hself : (x.lvl' side).empty = false := by
    rw [hkept]
    exact (hs.level _ _ _ (x.find side)).not_empty
  -- The other order is the one that was filled before.
  have hall : ∀ side', (x.lvl' side').empty = false := by
    intro side'
    by_cases hside : side' = side
    · rw [hside]
      exact hself
    · obtain ⟨side'', hfilled⟩ := x.exists_filled_before hs h hzero
      have heq : side'' = side' := by
        by_contra hne
        have hsame : side'' = side := by
          cases side <;> cases side' <;> cases side'' <;> simp_all
        rw [hsame] at hfilled
        -- It would still be filled after the trade.
        have hstatus := x.status_ptr side
        have hnone := (x.qty_of_filled hs h.linked hfilled).2
        rw [hst, if_pos (hzero.trans hnone.symm)] at hstatus
        cases hstatus
      rw [heq] at hfilled
      exact x.not_empty_of_filled_before hs h.linked hfilled
  refine ⟨⟨_, _, x.front_after (hall .buy), x.front_after (hall .sell), hcross⟩,
    ((x.it side).1, x.lvl' side), x.entry side, ?_, ?_, rfl⟩
  · rw [(x.slot_same _).2.1, show (book.slot (x.ptr side).slot).side = side from
      (x.accepted hs side).2]
    exact x.front_after hself
  · rw [hkept]
    exact x.head side

/-- **What an iteration preserves.** -/
theorem halfway (x : Iteration book book') (hs : book.Sound)
    (hcross : (x.it .sell).1 ≤ (x.it .buy).1) (h : book.Halfway) : book'.Halfway := by
  refine ⟨x.linked hs h.linked, ?_, ?_⟩
  · intro i hi hlive
    have hi := (x.accepted_iff i).mp hi
    rcases x.slot_cases i with ⟨-, hsame⟩ | ⟨side, now, rfl, -⟩
    · rw [hsame] at hlive ⊢
      exact h.opened i hi hlive
    · have hlive₀ := (x.live_of_unfilled hs h.linked hlive.not_filled).1
      refine ⟨?_, x.filled_lt hs hlive.not_filled⟩
      rw [(x.slot_same _).2.2.1]
      exact (h.opened _ hi hlive₀).1
  · intro i hi hst
    have hi := (x.accepted_iff i).mp hi
    rcases x.slot_cases i with ⟨hother, hsame⟩ | ⟨side, now, rfl, hnow⟩
    · -- The next to trade were the two that have traded.
      have hst₀ : (book.slot i).status = .partiallyFilled := by rwa [hsame] at hst
      rw [hsame]
      left
      refine (h.traded i hi hst₀).resolve_right ?_
      intro hnext
      obtain ⟨-, it, e, hfront, hhead, hslot⟩ := hnext
      have hit := x.front (book.slot i).side
      rw [hfront, Option.some.injEq] at hit
      have he := x.head (book.slot i).side
      rw [← hit, hhead, Option.some.injEq] at he
      rw [he] at hslot
      exact hother _ hslot.symm
    · by_cases hzero : x.qty = 0
      · exact Or.inr (x.next_of_zero hs h hcross hzero hst)
      · left
        have hsum := Order.filled_add_toNat (hs.filled_le _ hi) (x.qty_le side)
        have hpos : 0 < x.qty.toNat := by
          apply Nat.pos_of_ne_zero
          intro h0
          exact hzero (UInt64.toNat_inj.mp h0)
        rw [hnow, UInt64.lt_iff_toNat_lt]
        show 0 < ((book.slot (x.ptr side).slot).quantityFilled + x.qty).toNat
        omega

end Iteration
end OrderBook

/-! ### Over runs -/

namespace Session
open OrderBook
variable {P : Type} [LinearOrder P] [Zero P]

/-- An `add_order` of an order that `modify_order` would accept, with a new
    id, or one of the other events. -/
def AddsValid (s : Session P) (l : Label P) : Prop :=
  match l with
  | (.addOrder client _, .orderId id) =>
    s.book.orderRegistry.find? id = none ∧ 0 < client.price ∧ 0 < client.quantity
  | _ => True

theorem proper_step {s s' : Session P} {l : Label P} (hG : AddsValid s l) (hs : Step s l s')
    (h : s.book.Sound) (hp : s.book.Proper) : s'.book.Proper := by
  cases hs.outcome h with
  | added client clock id p queued last book' alloc' hq hsteps hun hsame hor =>
    have hqueued := hq.proper h hG.1 hG.2.1 hG.2.2 hp
    have hlast : last.Proper := by
      cases hflag : queued.tryMatchFlag with
      | true =>
        have hhalf := (loop_invariant (I := Halfway)
          (fun _ _ x hs hcross hx => x.halfway hs hcross hx)
          hsteps (hq.sound h) hqueued.halfway).2
        exact hhalf.proper (hun hflag)
      | false => exact hsame hflag ▸ hqueued
    rcases hor with rfl | rfl
    · exact hlast
    · exact ⟨hlast.linked.setFlag false, hlast.opened, hlast.traded⟩
  | cancelled id clock b book' ho => exact ho.proper h hp
  | modified id price qty clock b book' ho => exact ho.proper h hp
  | drew => exact hp

/-- **When the book admits only valid orders.**  In a run with distinct ids
    that adds no order without a positive price and quantity, every resting
    order passes the checks of `modify_order`, partially filled orders are
    just that, and the best price of a side is `-1` exactly when the side is
    empty. -/
theorem admitted_of_adds_valid [One P] [Neg P] (hneg : (-1 : P) ≤ 0) {s s' : Session P}
    {ls : List (Label P)} (hf : Fresh s) (hr : Path (Guarded AddsValid Step) s ls s') :
    s'.book.Admitted := by
  have hstart : s.book.Proper :=
    ⟨hf.linked, fun i hi => absurd hi (hf.not_accepted i),
      fun i hi => absurd hi (hf.not_accepted i)⟩
  obtain ⟨hs', hp⟩ := hr.invariant (I := fun s => s.book.Sound ∧ s.book.Proper)
    (fun s l s' h hs => ⟨hs.2.sound h.1, proper_step hs.1 hs.2 h.1 h.2⟩) ⟨hf.sound, hstart⟩
  exact hp.admitted hneg hs'

/-- A seller at 100 takes half of a buyer. -/
def halfABuyer : List (Label ℤ) :=
  [(limit .buy 100 10, .orderId 1), (limit .sell 100 5, .orderId 2)]

theorem admitted_of_adds_valid_halfABuyer : ∃ s : Session ℤ,
    Path Step (opening 1000) halfABuyer s ∧ (s.book.slot 0).status = .partiallyFilled ∧
      s.book.Admitted := by
  obtain ⟨s, hs, hf⟩ := exists_path (opening 1000) halfABuyer
    (fun s => (s.book.slot 0).status == .partiallyFilled) (by
      simp only [opening, OrderBook.new, OrderPool.new_eq]
      decide +kernel)
  have hfresh := (opening_fresh 1000).freshId_path hs (by decide)
  have hr : Path (Guarded AddsValid Step) (opening 1000) halfABuyer s := by
    apply hfresh.mono_of_mem
    intro l hl s s' hguarded
    obtain ⟨hG, hstep⟩ := hguarded
    refine ⟨?_, hstep⟩
    simp only [halfABuyer, List.mem_cons, List.not_mem_nil, or_false] at hl
    rcases hl with rfl | rfl <;> exact ⟨hG _ rfl, by decide, by decide⟩
  exact ⟨s, hs, eq_of_beq hf, admitted_of_adds_valid (by decide) (opening_fresh 1000) hr⟩

/-- A buyer at `-1`. -/
def buyerBelowZero : List (Label ℤ) := [(limit .buy (-1) 10, .orderId 1)]

/-- The order rests, and the best bid is the sentinel of an empty side. -/
theorem buyerBelowZero_rests : Fresh (opening 1000) ∧ ∃ s : Session ℤ,
    Path Step (opening 1000) buyerBelowZero s ∧ s.book.getBestBid = -1 ∧
      s.book.bids.isEmpty = false ∧ ¬ s.book.Admitted := by
  obtain ⟨s, hs, hf⟩ := exists_path (opening 1000) buyerBelowZero
    (fun s => decide (s.book.getBestBid = -1 ∧ s.book.bids.isEmpty = false)) (by
      simp only [opening, OrderBook.new, OrderPool.new_eq]
      decide +kernel)
  obtain ⟨hbid, hne⟩ := of_decide_eq_true hf
  refine ⟨opening_fresh 1000, s, hs, hbid, hne, ?_⟩
  intro h
  rw [h.bestBid.mp hbid] at hne
  cases hne

end Session
end Orderbook
