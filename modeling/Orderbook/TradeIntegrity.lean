import Orderbook.Linked
import Mathlib.Algebra.BigOperators.Group.Finset.Basic

/-! # What a trade does

    Every iteration of the matching loop credits the front orders of the two
    best levels with one quantity and touches no other order, so what the
    buyers got is what the sellers gave.  The crossing test compares the keys
    of the levels; with distinct ids these are the orders' own prices. -/

namespace Orderbook
namespace OrderBook
variable {P : Type} [LinearOrder P]

/-- From `book` to `book'` the buy order `b` and the sell order `a`, the fronts
    of the two best levels, traded the quantity `q`. -/
structure Trade (book book' : OrderBook P) (b a : OrderPtr) (q : Quantity) : Prop where
  bidFront : ∃ it, book.bids.front? = some it ∧ it.2.front = .ok b
  askFront : ∃ it, book.asks.front? = some it ∧ it.2.front = .ok a
  accepted : book.Accepted b.slot ∧ book.Accepted a.slot
  sides : (book.order b).side = .buy ∧ (book.order a).side = .sell
  bidFilled : (book'.order b).quantityFilled.toNat =
    (book.order b).quantityFilled.toNat + q.toNat
  askFilled : (book'.order a).quantityFilled.toNat =
    (book.order a).quantityFilled.toNat + q.toNat
  others : ∀ i, i ≠ b.slot → i ≠ a.slot → book'.slot i = book.slot i
  counted : book'.tradesCompleted = book.tradesCompleted + 1

/-- What the accepted orders of a side have been filled with, all together. -/
def filledTotal (book : OrderBook P) (side : OrderSide) : ℕ :=
  ∑ i ∈ Finset.range book.orderPool.nextFreeIndex,
    if (book.slot i).side = side then (book.slot i).quantityFilled.toNat else 0

/-- The buyers got what the sellers gave. -/
def FillsBalance (book : OrderBook P) : Prop := book.filledTotal .buy = book.filledTotal .sell

/-! ### One iteration -/

theorem Iteration.filled_toNat {book book' : OrderBook P} (x : Iteration book book')
    (hs : book.Sound) (side : OrderSide) : (book'.order (x.ptr side)).quantityFilled.toNat =
      (book.order (x.ptr side)).quantityFilled.toNat + x.qty.toNat := by
  obtain ⟨now, hnow⟩ := x.slot_ptr side
  rw [hnow]
  exact Order.filled_add_toNat (hs.filled_le _ (x.accepted hs side).1) (x.qty_le side)

theorem Iteration.front_ok {book book' : OrderBook P} (x : Iteration book book')
    (side : OrderSide) : (x.it side).2.front = .ok (x.ptr side) := by
  rw [PriceLevel.front, x.head side]

theorem Iteration.trade {book book' : OrderBook P} (x : Iteration book book') (hs : book.Sound) :
    Trade book book' (x.ptr .buy) (x.ptr .sell) x.qty where
  bidFront := ⟨_, x.front .buy, x.front_ok .buy⟩
  askFront := ⟨_, x.front .sell, x.front_ok .sell⟩
  accepted := ⟨(x.accepted hs .buy).1, (x.accepted hs .sell).1⟩
  sides := ⟨(x.accepted hs .buy).2, (x.accepted hs .sell).2⟩
  bidFilled := x.filled_toNat hs .buy
  askFilled := x.filled_toNat hs .sell
  others i hb ha := x.slot_other fun side => by cases side <;> assumption
  counted := x.trades_eq

/-- Neither side trades through its limit. -/
theorem Iteration.price_le {book book' : OrderBook P} (x : Iteration book book') (hs : book.Sound)
    (h : book.Linked) (hcross : (x.it .sell).1 ≤ (x.it .buy).1) :
    (book.order (x.ptr .sell)).price ≤ (book.order (x.ptr .buy)).price := by
  rw [(x.front_order hs h .sell).1, (x.front_order hs h .buy).1]
  exact hcross

/-! ### Conservation -/

theorem filledTotal_congr {book book' : OrderBook P}
    (hnext : book'.orderPool.nextFreeIndex = book.orderPool.nextFreeIndex)
    (h : ∀ i, (book'.slot i).side = (book.slot i).side ∧
      (book'.slot i).quantityFilled = (book.slot i).quantityFilled) (side : OrderSide) :
    book'.filledTotal side = book.filledTotal side := by
  unfold filledTotal
  rw [hnext]
  refine Finset.sum_congr rfl ?_
  intro i _
  rw [(h i).1, (h i).2]

/-- A trade adds its quantity to both totals. -/
theorem Iteration.filledTotal_eq {book book' : OrderBook P} (x : Iteration book book')
    (hs : book.Sound) (side : OrderSide) :
    book'.filledTotal side = book.filledTotal side + x.qty.toNat := by
  obtain ⟨hacc, hside⟩ := x.accepted hs side
  have hterm : ∀ i,
      (if (book'.slot i).side = side then (book'.slot i).quantityFilled.toNat else 0) =
      (if (book.slot i).side = side then (book.slot i).quantityFilled.toNat else 0) +
        (if i = (x.ptr side).slot then x.qty.toNat else 0) := by
    intro i
    rw [(x.slot_same i).2.1]
    by_cases hi : i = (x.ptr side).slot
    · subst hi
      have hside' : (book.slot (x.ptr side).slot).side = side := hside
      rw [if_pos hside', if_pos hside', if_pos rfl]
      exact x.filled_toNat hs side
    · rw [if_neg hi, Nat.add_zero]
      rcases x.slot_cases i with ⟨-, hsame⟩ | ⟨side', now, rfl, -⟩
      · rw [hsame]
      · have hside' : (book.slot (x.ptr side').slot).side = side' := (x.accepted hs side').2
        have hne : ¬ (book.slot (x.ptr side').slot).side = side := fun heq => hi (by
          rw [← heq, hside'])
        rw [if_neg hne, if_neg hne]
  unfold filledTotal
  rw [x.nextFreeIndex_eq, Finset.sum_congr rfl fun i _ => hterm i, Finset.sum_add_distrib,
    Finset.sum_ite_eq', if_pos (Finset.mem_range.mpr hacc)]

theorem Iteration.balanced {book book' : OrderBook P} (x : Iteration book book') (hs : book.Sound)
    (h : book.FillsBalance) : book'.FillsBalance := by
  unfold FillsBalance at h ⊢
  rw [x.filledTotal_eq hs, x.filledTotal_eq hs, h]

theorem Enqueued.filledTotal_eq {book queued : OrderBook P} {client : Order P} {id : OrderId}
    {p : OrderPtr} (hq : Enqueued book client id p queued) (side : OrderSide) :
    queued.filledTotal side = book.filledTotal side := by
  unfold filledTotal
  rw [hq.next_eq, Finset.sum_range_succ]
  have hnew : (queued.slot book.orderPool.nextFreeIndex).quantityFilled = 0 := by
    rw [← hq.slot_eq]
    exact hq.unfilled
  rw [hnew]
  simp only [UInt64.toNat_zero, ite_self, Nat.add_zero]
  refine Finset.sum_congr rfl ?_
  intro i hi
  rw [hq.kept i (Finset.mem_range.mp hi)]

/-- Overwriting an order without touching its side and its fill. -/
theorem filledTotal_setOrder (book : OrderBook P) {p : OrderPtr} {o : Order P}
    (hside : o.side = (book.order p).side)
    (hfilled : o.quantityFilled = (book.order p).quantityFilled) (side : OrderSide) :
    (book.setOrder p o).filledTotal side = book.filledTotal side := by
  have hsame : ∀ i, ((book.setOrder p o).slot i).side = (book.slot i).side ∧
      ((book.setOrder p o).slot i).quantityFilled = (book.slot i).quantityFilled := by
    intro i
    rw [setOrder_slot]
    split
    · next heq =>
      subst heq
      exact ⟨hside, hfilled⟩
    · exact ⟨rfl, rfl⟩
  apply filledTotal_congr
  · rfl
  · exact hsame

theorem CancelOutcome.filledTotal_eq {book book' : OrderBook P} {id : OrderId} {b : Bool}
    (ho : CancelOutcome book id b book') (side : OrderSide) :
    book'.filledTotal side = book.filledTotal side := by
  cases ho with
  | unknown _ => rfl
  | dead _ _ _ => rfl
  | cancelled p lvl lvl' now _ _ _ _ _ =>
    exact filledTotal_setOrder book (p := p) (o := (book.order p).cancelledAt now) rfl rfl side

variable [Zero P]

theorem ModifyOutcome.filledTotal_eq {book book' : OrderBook P} {id : OrderId} {price : P}
    {qty : Quantity} {b : Bool} (ho : ModifyOutcome book id price qty b book') (side : OrderSide) :
    book'.filledTotal side = book.filledTotal side := by
  cases ho with
  | unknown _ => rfl
  | dead _ _ _ => rfl
  | invalid _ _ _ _ => rfl
  | same _ _ _ _ _ _ _ => rfl
  | reduced p _ _ _ _ _ _ =>
    exact filledTotal_setOrder book (p := p) (o := (book.order p).setQuantity qty) rfl rfl side
  | requeued p lvl lvl' _ _ _ _ _ _ _ _ _ =>
    exact filledTotal_setOrder book (p := p) (o := (book.order p).setQuantity qty) rfl rfl side
  | moved p lvl lvl' now _ _ _ _ _ _ _ _ =>
    exact filledTotal_setOrder book (p := p)
      (o := ((book.order p).setPrice price now).setQuantity qty) rfl rfl side

end OrderBook

/-! ### Over runs -/

namespace Session
open OrderBook
variable {P : Type} [LinearOrder P] [Zero P]

theorem preserved_balanced : Preserved (P := P) (fun _ _ => True) FillsBalance where
  enqueue _ _ _ _ _ _ _ _ hq h := by
    unfold FillsBalance at h ⊢
    rw [hq.filledTotal_eq, hq.filledTotal_eq, h]
  iterate _ _ x hs _ h := x.balanced hs h
  setFlag _ h := h
  cancel _ _ _ _ _ _ _ ho h := by
    unfold FillsBalance at h ⊢
    rw [ho.filledTotal_eq, ho.filledTotal_eq, h]
  modify _ _ _ _ _ _ _ _ _ ho h := by
    unfold FillsBalance at h ⊢
    rw [ho.filledTotal_eq, ho.filledTotal_eq, h]

/-- The id that an `add_order` would return. -/
def nextId (s : Session P) (client : Order P) (clock : Clock) : OrderId :=
  (s.book.enqueueOrder s.alloc client clock).1

/-- **Trade integrity.**  In every reachable state the buyers got what the
    sellers gave.  Every iteration of the loop inside a further `add_order`
    is a `Trade` of the two front orders, and as long as the ids drawn are
    distinct their own prices cross. -/
theorem trade_integrity {s s' : Session P} {ls : List (Label P)} (hf : Fresh s)
    (hr : Path Step s ls s') :
    s'.book.FillsBalance ∧ ∀ client clock book book', LoopHead s' client clock book →
      LoopStep book book' →
        book.FillsBalance ∧ book'.FillsBalance ∧ ∃ b a q, Trade book book' b a q ∧
        ((addedIds ls ++ [s'.nextId client clock]).Nodup →
          (book.order a).price ≤ (book.order b).price) := by
  have hs' := sound_of_path hf hr
  have hstart : s.book.FillsBalance := by
    unfold FillsBalance filledTotal
    rw [hf.book_eq.2.2.1]
    rfl
  have hbal : s'.book.FillsBalance :=
    (preserved_balanced.path (hr.mono fun _ _ _ h => ⟨trivial, h⟩) hf.sound hstart).2
  refine ⟨hbal, ?_⟩
  intro client clock book book' hhead hstep
  obtain ⟨hs, hbook⟩ := preserved_balanced.loopHead hs' hbal trivial hhead
  obtain ⟨x, hcross⟩ := hstep.iteration hs
  refine ⟨hbook, x.balanced hs hbook, _, _, _, x.trade hs, ?_⟩
  intro hids
  obtain ⟨hold, -, hnew⟩ := List.nodup_append.mp hids
  have hlinked := linked_of_path hf hr hold
  have hfresh : FreshId s' (.addOrder client clock, .orderId (s'.nextId client clock)) := by
    intro id hid
    cases hid
    by_contra hne
    exact hnew _ ((hf.registered_iff hr _).mp hne) _ (List.mem_singleton_self _) rfl
  exact x.price_le hs (preserved_linked.loopHead hs' hlinked hfresh hhead).2 hcross

/-- A seller who sweeps a buyer and half of the next. -/
def sweepTwo : List (Label ℤ) :=
  [(limit .buy 101 10, .orderId 1), (limit .buy 100 10, .orderId 2),
    (limit .sell 100 15, .orderId 3)]

theorem trade_integrity_sweepTwo : ∃ s : Session ℤ, Path Step (opening 1000) sweepTwo s ∧
    s.book.FillsBalance ∧ s.book.filledTotal .buy = 15 := by
  obtain ⟨s, hs, hf⟩ := exists_path (opening 1000) sweepTwo
    (fun s => s.book.filledTotal .buy == 15) (by
      simp only [opening, OrderBook.new, OrderPool.new_eq]
      decide +kernel)
  exact ⟨s, hs, (trade_integrity (opening_fresh 1000) hs).1, by simpa using hf⟩

/-! ### With repeated ids -/

/-- The front orders of the best levels do not cross, though the levels do. -/
def throughLimit (book : OrderBook P) : Bool :=
  match book.bids.front?, book.asks.front? with
  | some bidIt, some askIt =>
    match bidIt.2.front, askIt.2.front with
    | .ok b, .ok a => askIt.1 ≤ bidIt.1 ∧ (book.order b).price < (book.order a).price
    | _, _ => false
  | _, _ => false

omit [Zero P] in
theorem throughLimit_trade {book : OrderBook P} (hs : book.Sound) (h : throughLimit book = true) :
    ∃ book', LoopStep book book' ∧
      ¬ ∃ b a q, Trade book book' b a q ∧ (book.order a).price ≤ (book.order b).price := by
  unfold throughLimit at h
  split at h
  · next bidIt askIt hbid hask =>
    split at h
    · next b a hb ha =>
      obtain ⟨hcross, hlt⟩ := of_decide_eq_true h
      obtain ⟨book', hok, -⟩ := matchBest_ok hs hbid hask fun _ => 0
      refine ⟨book', ⟨bidIt, askIt, _, hbid, hask, hcross, hok⟩, ?_⟩
      rintro ⟨b', a', q, ht, hle⟩
      obtain ⟨it, hit, hb'⟩ := ht.bidFront
      obtain ⟨it', hit', ha'⟩ := ht.askFront
      rw [hbid, Option.some.injEq] at hit
      rw [hask, Option.some.injEq] at hit'
      rw [← hit, hb, Except.ok.injEq] at hb'
      rw [← hit', ha, Except.ok.injEq] at ha'
      rw [← hb', ← ha'] at hle
      exact absurd hlt (not_lt.mpr hle)
    · cases h
  · cases h

/-- On an allocator with blocks of one id, a buyer gets the id 1; the other
    books draw until the counter has wrapped; a second buyer gets the id 1
    again, and queues behind the first.  A seller fills the first buyer, and
    the key 1 is gone from the level.  Moving the second buyer to 80 leaves
    its entry at 100. -/
def idsWrap : List (Label ℤ) :=
  [(limit .buy 100 10, .orderId 1)] ++ draws (2 ^ 64 - 1) ++
    [(limit .buy 100 10, .orderId 1), (.otherDraws, .silent), (limit .buy 100 10, .orderId 3),
      (limit .sell 100 10, .orderId 4), (amend 1 80 10, .done true)]

/-- The next seller at 100 trades with that buyer, through its limit of 80. -/
theorem idsWrap_trades_through : Fresh (opening 1) ∧
    ∃ (s : Session ℤ) (book book' : OrderBook ℤ), Path Step (opening 1) idsWrap s ∧
      LoopHead s (ticket .sell 100 10) (fun _ => 0) book ∧ LoopStep book book' ∧
      ¬ ∃ b a q, Trade book book' b a q ∧ (book.order a).price ≤ (book.order b).price := by
  obtain ⟨s, hs, hf⟩ := exists_path_draws (opening 1) [(limit .buy 100 10, .orderId 1)]
    (2 ^ 64 - 1) [(limit .buy 100 10, .orderId 1), (.otherDraws, .silent),
      (limit .buy 100 10, .orderId 3), (limit .sell 100 10, .orderId 4),
      (amend 1 80 10, .done true)]
    (fun s => (s.book.enqueueOrder s.alloc (ticket .sell 100 10) fun _ => 0).2.1.tryMatchFlag &&
      throughLimit (s.book.enqueueOrder s.alloc (ticket .sell 100 10) fun _ => 0).2.1) (by
      simp only [opening, OrderBook.new, OrderPool.new_eq]
      decide +kernel)
  rw [Bool.and_eq_true] at hf
  have hsound := sound_of_path (opening_fresh 1) hs
  have hhead : LoopHead s (ticket .sell 100 10) (fun _ => 0)
      (s.book.enqueueOrder s.alloc (ticket .sell 100 10) fun _ => 0).2.1 := ⟨hf.1, .refl⟩
  obtain ⟨book', hstep, hnot⟩ :=
    throughLimit_trade (preserved_sound.loopHead hsound trivial trivial hhead).1 hf.2
  exact ⟨opening_fresh 1, s, _, book', hs, hhead, hstep, hnot⟩

end Session
end Orderbook
