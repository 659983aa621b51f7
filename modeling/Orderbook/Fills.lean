import Orderbook.Runs

/-! # No order is filled beyond its quantity

    `quantityFilled ≤ quantity` is part of `OrderBook.Sound` and so holds of
    every accepted order at every iteration of the matching loop.  It is what
    the 64-bit arithmetic of the matching code rests on: no difference and
    no sum wraps, and `Order::match` never throws. -/

namespace Orderbook
namespace OrderBook
variable {P : Type} [LinearOrder P]

/-- No accepted order is filled beyond its quantity. -/
def NotOverfilled (book : OrderBook P) : Prop :=
  ∀ i, book.Accepted i → (book.slot i).quantityFilled ≤ (book.slot i).quantity

theorem NotOverfilled.fill {book : OrderBook P} (h : book.NotOverfilled) {p : OrderPtr}
    (hp : book.Accepted p.slot) {q : Quantity} (hq : q ≤ (book.order p).available)
    (now : TimePoint) : (book.setOrder p ((book.order p).filled q now)).NotOverfilled := by
  intro i hi
  rw [setOrder_slot]
  split
  · exact Order.filled_add_le (h p.slot hp) hq
  · exact h i hi

/-- The orders `b` and `a` trade without a wrap and without an exception. -/
structure TradesSafely (book : OrderBook P) (b a : OrderPtr) : Prop where
  bidOpen : ((book.order b).quantity - (book.order b).quantityFilled).toNat +
    (book.order b).quantityFilled.toNat = (book.order b).quantity.toNat
  askOpen : ((book.order a).quantity - (book.order a).quantityFilled).toNat +
    (book.order a).quantityFilled.toNat = (book.order a).quantity.toNat
  bidSum : ((book.order b).quantityFilled + tradeQty (book.order b) (book.order a)).toNat =
    (book.order b).quantityFilled.toNat + (tradeQty (book.order b) (book.order a)).toNat
  askSum : ((book.order a).quantityFilled + tradeQty (book.order b) (book.order a)).toNat =
    (book.order a).quantityFilled.toNat + (tradeQty (book.order b) (book.order a)).toNat
  /-- Both calls of `Order::match` return, and neither the book after the
      first of them nor the one after both has an overfilled order. -/
  booked : ∀ clock, ∃ bid ask,
    (book.order b).matchFill (tradeQty (book.order b) (book.order a)) (clock 0) = .ok bid ∧
    (book.order a).matchFill (tradeQty (book.order b) (book.order a)) (clock 1) = .ok ask ∧
    book.matchOrders b a clock = .ok ((book.setOrder b bid).setOrder a ask) ∧
    (book.setOrder b bid).NotOverfilled ∧
    ((book.setOrder b bid).setOrder a ask).NotOverfilled

omit [LinearOrder P] in
theorem available_add_filled {o : Order P} (h : o.quantityFilled ≤ o.quantity) :
    o.available.toNat + o.quantityFilled.toNat = o.quantity.toNat := by
  rw [Order.available_toNat h]
  rw [UInt64.le_iff_toNat_le] at h
  omega

/-- The order that `front` returns for a stored level is an accepted one of
    the level's side. -/
theorem Sound.front {book : OrderBook P} (h : book.Sound) {side : OrderSide}
    {it : P × PriceLevel P} (hit : (book.levels side).front? = some it) {p : OrderPtr}
    (hp : it.2.front = .ok p) : book.Accepted p.slot ∧ (book.order p).side = side := by
  have hlvl := h.level _ _ _ (SortedMap.front?_eq_some_iff.mp hit).1
  unfold PriceLevel.front at hp
  split at hp
  · cases hp
  · next e he =>
    cases hp
    exact hlvl.entries e (List.mem_of_getElem? he)

theorem Sound.tradesSafely {book : OrderBook P} (h : book.Sound) {b a : OrderPtr}
    (hb : book.Accepted b.slot) (ha : book.Accepted a.slot)
    (hbside : (book.order b).side = .buy) (haside : (book.order a).side = .sell) :
    book.TradesSafely b a := by
  have hble := h.filled_le _ hb
  have hale := h.filled_le _ ha
  have hqb := tradeQty_le_bid (book.order b) (book.order a)
  have hqa := tradeQty_le_ask (book.order b) (book.order a)
  have hne : b.slot ≠ a.slot := by
    intro heq
    have hsame : (book.order b).side = (book.order a).side :=
      congrArg (fun i => (book.slot i).side) heq
    rw [hbside, haside] at hsame
    cases hsame
  refine ⟨available_add_filled hble, available_add_filled hale, Order.filled_add_toNat hble hqb,
    Order.filled_add_toNat hale hqa, fun clock => ⟨_, _, Order.matchFill_of_le _ hble hqb,
      Order.matchFill_of_le _ hale hqa, matchOrders_eq hne hble hale clock, ?_, ?_⟩⟩
  · exact NotOverfilled.fill h.filled_le hb hqb _
  · have hkeep : ∀ o, (book.setOrder b o).order a = book.order a :=
      fun o => OrderPool.get_set_ne _ (Ne.symm hne) o
    have hfirst : (book.setOrder b ((book.order b).filled
        (tradeQty (book.order b) (book.order a)) (clock 0))).NotOverfilled :=
      NotOverfilled.fill h.filled_le hb hqb _
    have := hfirst.fill (p := a) ha (by rw [hkeep]; exact hqa) (clock 1)
    rwa [hkeep] at this

end OrderBook

/-! ### Over runs -/

namespace Session
open OrderBook
variable {P : Type} [LinearOrder P] [Zero P]

/-- **No order is ever overfilled.**  In every reachable state and at the
    start of every iteration of the loop inside a further `add_order`, no
    accepted order is filled beyond its quantity; the open quantities that
    `total_qty` adds up do not wrap, the two front orders trade without a
    wrap and without an exception, every `add_order` returns, and no event
    ends in the exception of `Order::match`. -/
theorem never_overfilled {s s' : Session P} {ls : List (Label P)} (hf : Fresh s)
    (hr : Path Step s ls s') :
    s'.book.NotOverfilled ∧
    (∀ side k lvl, (s'.book.levels side).find? k = some lvl → ∀ e ∈ lvl.orderEntries,
      (s'.book.order e.order).available.toNat + (s'.book.order e.order).quantityFilled.toNat =
        (s'.book.order e.order).quantity.toNat) ∧
    (∀ e, s'.step e ≠ .error .runtimeError) ∧
    ∀ client clock, (∃ r, s'.book.addOrder s'.alloc client clock = .ok r) ∧
      ∀ book, LoopHead s' client clock book → book.NotOverfilled ∧
        ∀ bidIt askIt b a, book.bids.front? = some bidIt → book.asks.front? = some askIt →
          bidIt.2.front = .ok b → askIt.2.front = .ok a → book.TradesSafely b a := by
  have hs := sound_of_path hf hr
  refine ⟨hs.filled_le, ?_, ?_, ?_⟩
  · intro side k lvl hlvl e he
    exact available_add_filled (hs.filled_le _ ((hs.level side k lvl hlvl).entries e he).1)
  · intro e herr
    rcases step_ok hs e with ⟨s'', r, hok⟩ | ⟨hend, -⟩
    · rw [hok] at herr
      cases herr
    · rw [hend] at herr
      cases herr
  · intro client clock
    obtain ⟨id, p, queued, last, book', alloc', -, hok, -⟩ := addOrder_ok hs s'.alloc client clock
    refine ⟨⟨_, hok⟩, ?_⟩
    intro book hb
    have hbook := (preserved_sound.loopHead hs trivial trivial hb).1
    refine ⟨hbook.filled_le, ?_⟩
    intro bidIt askIt b a hbid hask hbf haf
    obtain ⟨hbacc, hbside⟩ := hbook.front hbid hbf
    obtain ⟨haacc, haside⟩ := hbook.front hask haf
    exact hbook.tradesSafely hbacc haacc hbside haside

/-- A buyer of the largest quantity there is, filled in part, who then asks
    for just more than has been filled. -/
def largestBuyer : List (Label ℤ) :=
  [(limit .buy 100 18446744073709551615, .orderId 1), (limit .sell 100 10, .orderId 2),
    (amend 1 100 11, .done true)]

theorem never_overfilled_largestBuyer : ∃ s : Session ℤ, Path Step (opening 1000) largestBuyer s ∧
    s.book.NotOverfilled := by
  obtain ⟨s, hs, -⟩ := exists_path (opening 1000) largestBuyer (fun _ => true) (by
      simp only [opening, OrderBook.new, OrderPool.new_eq]
      decide +kernel)
  exact ⟨s, hs, (never_overfilled (opening_fresh 1000) hs).1⟩

end Session
end Orderbook
