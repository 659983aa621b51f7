import Orderbook.TradeIntegrity

/-! # When the front of every level is a live order

    `remove_order` leaves the head of the queue alone when it empties the
    map, and `modify_order_dispatcher` then queues the same order again.  So
    a quantity increase of the only order of a level leaves the head on that
    order's tombstone; when the order is filled later with another one
    behind it, its second entry is still valid and the filled order becomes
    the front.  Without such an increase the levels stay tidy, and the front
    of each is its live order of longest standing. -/

namespace Orderbook
namespace OrderBook
variable {P : Type} [LinearOrder P]

/-- The front of every level is a live order, and its id the key of the level
    with the smallest index. -/
def FrontsLive (book : OrderBook P) : Prop :=
  ∀ side price lvl, (book.levels side).find? price = some lvl → lvl.empty = false ∧
    ∃ p i, lvl.front = .ok p ∧ (book.order p).Live ∧
      lvl.ordersMap.find? (book.order p).id = some i ∧
      ∀ id j, lvl.ordersMap.find? id = some j → i ≤ j

/-- An accepted call of `modify_order` that raises the quantity of the only
    order of its level and leaves its price. -/
def RaisesAlone [Zero P] (book : OrderBook P) (id : OrderId) (price : P) (qty : Quantity) : Prop :=
  ∃ p lvl, book.orderRegistry.find? id = some p ∧ (book.order p).Live ∧
    book.validateModifyOrder p price qty = true ∧ price = (book.order p).price ∧
    (book.order p).quantity < qty ∧ (book.levels (book.order p).side).find? price = some lvl ∧
    lvl.size = 1

/-- Linked, with tidy levels and something left to fill on every live order. -/
structure Tidy (book : OrderBook P) : Prop where
  linked : book.Linked
  level : ∀ side price lvl, (book.levels side).find? price = some lvl →
    lvl.Tidy book.orderPool.get
  opened : ∀ i, book.Accepted i → (book.slot i).Live →
    (book.slot i).quantityFilled < (book.slot i).quantity

theorem Tidy.frontsLive {book : OrderBook P} (h : book.Tidy) (hs : book.Sound) :
    book.FrontsLive := by
  intro side price lvl hlvl
  have hsound := hs.level side price lvl hlvl
  obtain ⟨p, hp, hlive, hmap, hmin⟩ :=
    (h.level side price lvl hlvl).front (h.linked.level side price lvl hlvl).keys hsound.wf
  exact ⟨hsound.not_empty, p, _, hp, hlive, hmap, hmin⟩

/-! ### What keeps the levels tidy -/

/-- A level that an order joins is tidy if it was, or was not there. -/
theorem tidy_levelOrNew {book : OrderBook P} {heap : OrderPtr → Order P} {side : OrderSide}
    {price : P} (h : ∀ lvl, (book.levels side).find? price = some lvl → lvl.Tidy heap)
    (p : OrderPtr) : ((book.levelOrNew side price).addOrder heap p).Tidy heap := by
  unfold OrderBook.levelOrNew
  cases hf : (book.levels side).find? price with
  | none => exact PriceLevel.tidy_addOrder_new _ _ _
  | some lvl => exact (h lvl hf).addOrder p

theorem Enqueued.tidy {book queued : OrderBook P} {client : Order P} {id : OrderId}
    {p : OrderPtr} (hq : Enqueued book client id p queued) (hs : book.Sound)
    (hfresh : book.orderRegistry.find? id = none) (hqty : 0 < client.quantity)
    (h : book.Tidy) : queued.Tidy := by
  have hlevel : ∀ side price lvl, (book.levels side).find? price = some lvl →
      lvl.Tidy queued.orderPool.get := fun side price lvl hlvl =>
    (h.level side price lvl hlvl).congr fun e he =>
      congrArg Order.id (hq.kept _ ((hs.level side price lvl hlvl).entries e he).1)
  refine ⟨hq.linked hs hfresh h.linked, ?_, ?_⟩
  · intro side price lvl hlvl
    rw [hq.find?] at hlvl
    split at hlvl
    · cases hlvl
      exact tidy_levelOrNew (hlevel side price) p
    · exact hlevel side price lvl hlvl
  · intro i hi hlive
    rcases (hq.accepted i).mp hi with hi | rfl
    · rw [hq.kept i hi] at hlive ⊢
      exact h.opened i hi hlive
    · show (queued.order p).quantityFilled < (queued.order p).quantity
      rw [hq.unfilled, hq.quantity]
      exact hqty

/-- Writing one order back, and the levels of its side. -/
theorem Tidy.amend {book : OrderBook P} (h : book.Tidy) {p : OrderPtr} {o : Order P}
    {m : SideLevels P (book.order p).side}
    (hlinked : ((book.setOrder p o).setLevels (book.order p).side m).Linked)
    (hid : o.id = (book.order p).id) (hopen : o.Live → o.quantityFilled < o.quantity)
    (hlvs : ∀ price lvl, m.find? price = some lvl → lvl.Tidy book.orderPool.get) :
    ((book.setOrder p o).setLevels (book.order p).side m).Tidy := by
  refine ⟨hlinked, ?_, ?_⟩
  · intro side price lvl hlvl
    have htidy : lvl.Tidy book.orderPool.get := by
      rw [find?_setLevels] at hlvl
      split at hlvl
      · next heq =>
        subst heq
        exact hlvs price lvl hlvl
      · exact h.level side price lvl hlvl
    exact htidy.congr fun e _ => setOrder_id hid e.order
  · intro i hi hlive
    have hslot : ((book.setOrder p o).setLevels (book.order p).side m).slot i =
        if i = p.slot then o else book.slot i := setOrder_slot _ _ _ _
    rw [hslot] at hlive ⊢
    split at hlive
    · next heq =>
      rw [if_pos heq]
      exact hopen hlive
    · next hne =>
      rw [if_neg hne]
      exact h.opened i hi hlive

theorem Withdrawn.tidy {book : OrderBook P} {p : OrderPtr} {lvl lvl' : PriceLevel P}
    (w : Withdrawn book p lvl lvl') (h : book.Tidy) (hs : book.Sound)
    (hne : lvl'.empty = false) : lvl'.Tidy book.orderPool.get :=
  (h.level _ _ _ w.find).removed (h.linked.level _ _ _ w.find).keys w.rem
    (w.queued_live h.linked hs) hne

theorem Withdrawn.tidy_putLevel {book : OrderBook P} {p : OrderPtr} {lvl lvl' : PriceLevel P}
    (w : Withdrawn book p lvl lvl') (h : book.Tidy) (hs : book.Sound) (price : P)
    (l : PriceLevel P) (hl : (putLevel (book.levels (book.order p).side) (book.order p).price
      lvl').find? price = some l) : l.Tidy book.orderPool.get := by
  rw [find?_putLevel] at hl
  split at hl
  · split at hl
    · cases hl
    · next hne =>
      cases hl
      exact w.tidy h hs ((Bool.not_eq_true _).mp hne)
  · exact h.level _ price l hl

/-- A level with other orders is not empty after one of them was removed. -/
theorem Withdrawn.not_empty {book : OrderBook P} {p : OrderPtr} {lvl lvl' : PriceLevel P}
    (w : Withdrawn book p lvl lvl') (h : book.Linked) (hsize : lvl.size ≠ 1) :
    lvl'.empty = false := by
  obtain ⟨lvl₀, j, hlvl₀, hj⟩ := h.placed p.slot w.acc w.live
  rw [show (book.levels (book.slot p.slot).side).find? (book.slot p.slot).price = some lvl
    from w.find, Option.some.injEq] at hlvl₀
  subst hlvl₀
  -- The level of the order has its key, so another key is there too.
  obtain ⟨id', j', hne, hj'⟩ := SortedMap.exists_ne_of_size_ne_one hj hsize
  refine PriceLevel.empty_eq_false_iff.mpr ⟨id', j', ?_⟩
  rw [w.rem.find?_ne hne]
  exact hj'

theorem CancelOutcome.tidy {book book' : OrderBook P} {id : OrderId} {b : Bool}
    (ho : CancelOutcome book id b book') (hs : book.Sound) (h : book.Tidy) : book'.Tidy := by
  have hlinked := ho.linked hs h.linked
  cases ho with
  | unknown _ => exact h
  | dead _ _ _ => exact h
  | cancelled p lvl lvl' now hreg hlive hlvl hrem hwf =>
    have w : Withdrawn book p lvl lvl' := ⟨(hs.registered id p hreg).1, hlive, hlvl, hrem, hwf⟩
    exact h.amend hlinked rfl (fun hl => by simp [Order.cancelledAt, Order.Live] at hl)
      (w.tidy_putLevel h hs)

theorem ModifyOutcome.tidy [Zero P] {book book' : OrderBook P} {id : OrderId} {price : P}
    {qty : Quantity} {b : Bool} (ho : ModifyOutcome book id price qty b book') (hs : book.Sound)
    (hnot : ¬ book.RaisesAlone id price qty) (h : book.Tidy) : book'.Tidy := by
  have hlinked := ho.linked hs h.linked
  cases ho with
  | unknown _ => exact h
  | dead _ _ _ => exact h
  | invalid _ _ _ _ => exact h
  | same _ _ _ _ _ _ _ => exact h
  | reduced p hreg hlive hpos hqty hprice hlt =>
    have htidy := h.amend (o := (book.order p).setQuantity qty)
      (m := book.levels (book.order p).side)
      (by rwa [← setOrder_levels book p ((book.order p).setQuantity qty), setLevels_self]) rfl
      (fun _ => hqty) (h.level _)
    rwa [← setOrder_levels book p ((book.order p).setQuantity qty), setLevels_self] at htidy
  | requeued p lvl lvl' hreg hlive hpos hqty hprice hgt hlvl hrem hwf =>
    subst hprice
    have w : Withdrawn book p lvl lvl' := ⟨(hs.registered id p hreg).1, hlive, hlvl, hrem, hwf⟩
    -- The order is not alone, so the head was moved to a valid entry.
    have hsize : lvl.size ≠ 1 := by
      intro hsize
      exact hnot ⟨p, lvl, hreg, hlive, validateModifyOrder_iff.mpr ⟨hpos, hqty⟩, rfl, hgt, hlvl,
        hsize⟩
    refine h.amend hlinked rfl (fun _ => hqty) ?_
    intro k l hl
    rw [SortedMap.find?_insert] at hl
    split at hl
    · cases hl
      exact (w.tidy h hs (w.not_empty h.linked hsize)).addOrder p
    · exact h.level _ k l hl
  | moved p lvl lvl' now hreg hlive hpos hqty hprice hlvl hrem hwf =>
    have w : Withdrawn book p lvl lvl' := ⟨(hs.registered id p hreg).1, hlive, hlvl, hrem, hwf⟩
    have hlvs : ∀ k l, ((putLevel (book.levels (book.order p).side) (book.order p).price
        lvl').insert price ((book.levelOrNew (book.order p).side price).addOrder
          book.orderPool.get p)).find? k = some l → l.Tidy book.orderPool.get := by
      intro k l hl
      rw [SortedMap.find?_insert] at hl
      split at hl
      · cases hl
        exact tidy_levelOrNew (h.level (book.order p).side price) p
      · exact w.tidy_putLevel h hs k l hl
    -- The flag is of no importance here.
    have htidy := h.amend (p := p) (o := ((book.order p).setPrice price now).setQuantity qty)
      ⟨hlinked.owned, hlinked.placed, hlinked.filledUp, hlinked.level⟩ rfl (fun _ => hqty) hlvs
    exact ⟨hlinked, htidy.level, htidy.opened⟩

theorem Iteration.tidy {book book' : OrderBook P} (x : Iteration book book') (hs : book.Sound)
    (h : book.Tidy) : book'.Tidy := by
  have hids : ∀ e : OrderEntry,
      (book'.orderPool.get e.order).id = (book.orderPool.get e.order).id :=
    fun e => (x.slot_same e.order.slot).1
  refine ⟨x.linked hs h.linked, ?_, ?_⟩
  · intro side k l hl
    rw [x.find?] at hl
    split at hl
    · split at hl
      · cases hl
      · next hne =>
        cases hl
        exact (h.level _ _ _ (x.find side)).popped (h.linked.level _ _ _ (x.find side)).keys
          (x.head side) (x.popped side) (fun e _ => hids e) ((Bool.not_eq_true _).mp hne)
    · exact (h.level side k l hl).congr fun e _ => hids e
  · intro i hi hlive
    have hi := (x.accepted_iff i).mp hi
    rcases x.slot_cases i with ⟨-, hsame⟩ | ⟨side, now, rfl, -⟩
    · rw [hsame] at hlive ⊢
      exact h.opened i hi hlive
    · exact x.filled_lt hs hlive.not_filled

/-- On a tidy book the two orders of an iteration are live and trade. -/
theorem Iteration.pairs_live {book book' : OrderBook P} (x : Iteration book book')
    (hs : book.Sound) (h : book.Tidy) (side : OrderSide) :
    (book.order (x.ptr side)).Live ∧ 0 < x.qty ∧
      (x.it side).2.ordersMap.find? (book'.order (x.ptr side)).id ≠ none := by
  have hfront : ∀ side, (book.order (x.ptr side)).Live ∧
      (x.it side).2.ordersMap.find? (book.order (x.ptr side)).id ≠ none := by
    intro side
    obtain ⟨-, p, i, hp, hlive, hmap, -⟩ := h.frontsLive hs side _ _ (x.find side)
    rw [x.front_ok side, Except.ok.injEq] at hp
    subst hp
    exact ⟨hlive, by rw [hmap]; simp⟩
  -- A live order has something left, and one of the two trades all of it.
  have havail : ∀ side, 0 < (book.order (x.ptr side)).available := by
    intro side
    have hopen := h.opened _ (x.accepted hs side).1 (hfront side).1
    have hnat := Order.available_toNat (hs.filled_le _ (x.accepted hs side).1)
    rw [UInt64.lt_iff_toNat_lt] at hopen ⊢
    rw [UInt64.toNat_zero]
    show 0 < (book.slot (x.ptr side).slot).available.toNat
    omega
  refine ⟨(hfront side).1, ?_, ?_⟩
  · obtain ⟨side', hq⟩ := x.exists_filled
    rw [hq]
    exact havail side'
  · rw [show (book'.order (x.ptr side)).id = _ from (x.slot_same _).1]
    exact (hfront side).2

end OrderBook

/-! ### Over runs -/

namespace Session
open OrderBook
variable {P : Type} [LinearOrder P] [Zero P]

/-- An `add_order` that draws a new id for an order of positive quantity, a
    `modify_order` that does not raise the only order of a level, or one of
    the other events. -/
def KeepsTidy (s : Session P) (l : Label P) : Prop :=
  match l with
  | (.addOrder client _, .orderId id) =>
    s.book.orderRegistry.find? id = none ∧ 1 ≤ client.quantity
  | (.modifyOrder id price qty _, _) => ¬ s.book.RaisesAlone id price qty
  | _ => True

theorem preserved_tidy : Preserved (P := P) KeepsTidy Tidy where
  enqueue _ _ _ _ _ _ hs hG hq h :=
    hq.tidy hs hG.1 (UInt64.lt_of_lt_of_le (by decide) hG.2) h
  iterate _ _ x hs _ h := x.tidy hs h
  setFlag _ h := ⟨h.linked.setFlag false, h.level, h.opened⟩
  cancel _ _ _ _ _ hs _ ho h := ho.tidy hs h
  modify _ _ _ _ _ _ _ hs hG ho h := ho.tidy hs hG h

theorem Fresh.tidy {s : Session P} (h : Fresh s) : s.book.Tidy := by
  constructor
  case linked => exact h.linked
  case level => exact fun side k lvl hlvl => absurd hlvl (h.no_level side k lvl)
  case opened => exact fun i hi => absurd hi (h.not_accepted i)

/-- **When the fronts are live.**  In a run that never raises the only order
    of a level, with distinct ids and positive quantities, the front of every
    level is the live order that was queued there longest, in every state and
    at every iteration of the loop; every iteration pairs two live orders,
    moves a positive quantity, and finds what it erases. -/
theorem fronts_live_of_never_raises_alone {s s' : Session P} {ls : List (Label P)} (hf : Fresh s)
    (hr : Path (Guarded KeepsTidy Step) s ls s') :
    s'.book.FrontsLive ∧ ∀ client clock,
      KeepsTidy s' (.addOrder client clock, .orderId (s'.nextId client clock)) →
      ∀ book, LoopHead s' client clock book → book.FrontsLive ∧
        ∀ book', LoopStep book book' → ∃ b a q, Trade book book' b a q ∧
          (book.order b).Live ∧ (book.order a).Live ∧ 0 < q ∧
          (∀ it, book.bids.front? = some it →
            it.2.ordersMap.find? (book'.order b).id ≠ none) ∧
          (∀ it, book.asks.front? = some it →
            it.2.ordersMap.find? (book'.order a).id ≠ none) := by
  obtain ⟨hs, h⟩ := preserved_tidy.path hr hf.sound hf.tidy
  refine ⟨h.frontsLive hs, ?_⟩
  intro client clock hG book hhead
  -- The same holds where an iteration of the next call starts.
  obtain ⟨hbs, hb⟩ := preserved_tidy.loopHead hs h hG hhead
  refine ⟨hb.frontsLive hbs, ?_⟩
  intro book' hstep
  obtain ⟨x, -⟩ := hstep.iteration hbs
  refine ⟨_, _, _, x.trade hbs, (x.pairs_live hbs hb .buy).1, (x.pairs_live hbs hb .sell).1,
    (x.pairs_live hbs hb .buy).2.1, ?_, ?_⟩
  · intro it hit
    rw [← Option.some.inj ((x.front .buy).symm.trans hit)]
    exact (x.pairs_live hbs hb .buy).2.2
  · intro it hit
    rw [← Option.some.inj ((x.front .sell).symm.trans hit)]
    exact (x.pairs_live hbs hb .sell).2.2

/-- Two buyers at one price, one of whom cancels, and a seller. -/
def frontCancels : List (Label ℤ) :=
  [(limit .buy 100 10, .orderId 1), (limit .buy 100 5, .orderId 2), (cancel 1, .done true),
    (limit .sell 100 3, .orderId 3)]

theorem fronts_live_frontCancels : ∃ s : Session ℤ,
    Path (Guarded KeepsTidy Step) (opening 1000) frontCancels s ∧ s.book.FrontsLive := by
  obtain ⟨s, hs, -⟩ := exists_path (opening 1000) frontCancels (fun _ => true) (by
      simp only [opening, OrderBook.new, OrderPool.new_eq]
      decide +kernel)
  have hfresh := (opening_fresh 1000).freshId_path hs (by decide)
  have hr : Path (Guarded KeepsTidy Step) (opening 1000) frontCancels s := by
    apply hfresh.mono_of_mem
    intro l hl s s' hguarded
    obtain ⟨hG, hstep⟩ := hguarded
    refine ⟨?_, hstep⟩
    simp only [frontCancels, List.mem_cons, List.not_mem_nil, or_false] at hl
    rcases hl with rfl | rfl | rfl | rfl
    · exact ⟨hG _ rfl, by decide⟩
    · exact ⟨hG _ rfl, by decide⟩
    · exact trivial
    · exact ⟨hG _ rfl, by decide⟩
  exact ⟨s, hr, (fronts_live_of_never_raises_alone (opening_fresh 1000) hr).1⟩

/-! ### With the only order of a level raised -/

/-- One iteration of the loop, if the best levels cross, leads to a book that
    passes the test `f`. -/
def afterOne (book : OrderBook P) (f : OrderBook P → Bool) : Bool :=
  match book.bids.front?, book.asks.front? with
  | some bidIt, some askIt =>
    if askIt.1 ≤ bidIt.1 then
      match book.matchBest bidIt askIt fun _ => 0 with
      | .ok book' => f book'
      | .error _ => false
    else false
  | _, _ => false

omit [Zero P] in
theorem afterOne_loopStep {book : OrderBook P} {f : OrderBook P → Bool}
    (h : afterOne book f = true) : ∃ book', LoopStep book book' ∧ f book' = true := by
  unfold afterOne at h
  split at h
  · next bidIt askIt hb ha =>
    split at h
    · next hle =>
      split at h
      · next book' hok => exact ⟨book', ⟨bidIt, askIt, _, hb, ha, hle, hok⟩, h⟩
      · cases h
    · cases h
  · cases h

/-- The front of the best bid level is a filled order. -/
def filledFront (book : OrderBook P) : Bool :=
  match book.bids.front? with
  | some it =>
    match it.2.front with
    | .ok p => (book.order p).status = .fullyFilled
    | .error _ => false
  | none => false

omit [Zero P] in
theorem filledFront_not_frontsLive {book : OrderBook P} (h : filledFront book = true) :
    ¬ book.FrontsLive := by
  intro hlive
  unfold filledFront at h
  split at h
  · next it hit =>
    split at h
    · next p hp =>
      obtain ⟨-, q, i, hq, hl, -⟩ :=
        hlive .buy it.1 it.2 (SortedMap.front?_eq_some_iff.mp hit).1
      rw [hp, Except.ok.injEq] at hq
      subst hq
      exact hl.not_filled (of_decide_eq_true h)
    · cases h
  · cases h

/-- The only buyer at 100 raises its quantity, and a second buyer joins. -/
def buyerRaises : List (Label ℤ) :=
  [(limit .buy 100 10, .orderId 1), (amend 1 100 20, .done true), (limit .buy 100 5, .orderId 2)]

/-- A seller of 25 fills the first buyer, and the loop goes on with the filled
    order at the front. -/
theorem buyerRaises_front_filled : Fresh (opening 1000) ∧
    ∃ (s : Session ℤ) (book : OrderBook ℤ), Path Step (opening 1000) buyerRaises s ∧
      LoopHead s (ticket .sell 100 25) (fun _ => 0) book ∧ ¬ book.FrontsLive := by
  obtain ⟨s, hs, hf⟩ := exists_path (opening 1000) buyerRaises
    (fun s => (s.book.enqueueOrder s.alloc (ticket .sell 100 25) fun _ => 0).2.1.tryMatchFlag &&
      afterOne (s.book.enqueueOrder s.alloc (ticket .sell 100 25) fun _ => 0).2.1 filledFront) (by
      simp only [opening, OrderBook.new, OrderPool.new_eq]
      decide +kernel)
  rw [Bool.and_eq_true] at hf
  obtain ⟨book, hstep, hfilled⟩ := afterOne_loopStep hf.2
  exact ⟨opening_fresh 1000, s, book, hs, ⟨hf.1, .single hstep⟩,
    filledFront_not_frontsLive hfilled⟩

end Session
end Orderbook
