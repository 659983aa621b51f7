import Orderbook.BookSteps

/-! # Cancelling and modifying

    The outcomes of `cancel_order` and `modify_order` on a sound book, one
    constructor for each way the call can go. -/

namespace Orderbook
namespace OrderBook
variable {P : Type} [LinearOrder P]

/-- What can have become of a book in `cancel_order`. -/
inductive CancelOutcome (book : OrderBook P) (id : OrderId) : Bool → OrderBook P → Prop where
  | unknown : book.orderRegistry.find? id = none → CancelOutcome book id false book
  | dead (p : OrderPtr) : book.orderRegistry.find? id = some p → ¬ (book.order p).Live →
      CancelOutcome book id false book
  | cancelled (p : OrderPtr) (lvl lvl' : PriceLevel P) (now : TimePoint) :
      book.orderRegistry.find? id = some p → (book.order p).Live →
      (book.levels (book.order p).side).find? (book.order p).price = some lvl →
      PriceLevel.Removed book.orderPool.get lvl (book.order p).id lvl' →
      lvl'.WF book.orderPool.get →
      CancelOutcome book id true
        ((book.setOrder p ((book.order p).cancelledAt now)).setLevels (book.order p).side
          (putLevel (book.levels (book.order p).side) (book.order p).price lvl'))

/-- What can have become of a book in `modify_order`. -/
inductive ModifyOutcome [Zero P] (book : OrderBook P) (id : OrderId) (price : P) (qty : Quantity) :
    Bool → OrderBook P → Prop where
  | unknown : book.orderRegistry.find? id = none → ModifyOutcome book id price qty false book
  | dead (p : OrderPtr) : book.orderRegistry.find? id = some p → ¬ (book.order p).Live →
      ModifyOutcome book id price qty false book
  | invalid (p : OrderPtr) : book.orderRegistry.find? id = some p → (book.order p).Live →
      (price ≤ 0 ∨ qty ≤ (book.order p).quantityFilled) → ModifyOutcome book id price qty false book
  | same (p : OrderPtr) : book.orderRegistry.find? id = some p → (book.order p).Live →
      0 < price → (book.order p).quantityFilled < qty →
      price = (book.order p).price → qty = (book.order p).quantity →
      ModifyOutcome book id price qty false book
  /-- A lower quantity at the same price: the order keeps its place. -/
  | reduced (p : OrderPtr) : book.orderRegistry.find? id = some p → (book.order p).Live →
      0 < price → (book.order p).quantityFilled < qty →
      price = (book.order p).price → qty < (book.order p).quantity →
      ModifyOutcome book id price qty true (book.setOrder p ((book.order p).setQuantity qty))
  /-- A higher quantity at the same price: out of the queue and in again. -/
  | requeued (p : OrderPtr) (lvl lvl' : PriceLevel P) :
      book.orderRegistry.find? id = some p → (book.order p).Live →
      0 < price → (book.order p).quantityFilled < qty →
      price = (book.order p).price → (book.order p).quantity < qty →
      (book.levels (book.order p).side).find? price = some lvl →
      PriceLevel.Removed book.orderPool.get lvl (book.order p).id lvl' →
      lvl'.WF book.orderPool.get →
      ModifyOutcome book id price qty true
        ((book.setOrder p ((book.order p).setQuantity qty)).setLevels (book.order p).side
          ((book.levels (book.order p).side).insert price (lvl'.addOrder book.orderPool.get p)))
  /-- Another price: out of the old level and into the new one. -/
  | moved (p : OrderPtr) (lvl lvl' : PriceLevel P) (now : TimePoint) :
      book.orderRegistry.find? id = some p → (book.order p).Live →
      0 < price → (book.order p).quantityFilled < qty → price ≠ (book.order p).price →
      (book.levels (book.order p).side).find? (book.order p).price = some lvl →
      PriceLevel.Removed book.orderPool.get lvl (book.order p).id lvl' →
      lvl'.WF book.orderPool.get →
      ModifyOutcome book id price qty true
        { (book.setOrder p (((book.order p).setPrice price now).setQuantity qty)).setLevels
            (book.order p).side
            ((putLevel (book.levels (book.order p).side) (book.order p).price lvl').insert price
              ((book.levelOrNew (book.order p).side price).addOrder book.orderPool.get p)) with
          tryMatchFlag := ((book.levels (book.order p).side).find? price).isNone }

/-- A registered live order is where its side and price say. -/
def Findable (book : OrderBook P) : Prop :=
  ∀ id p, book.orderRegistry.find? id = some p → (book.order p).Live →
    ∃ lvl, (book.levels (book.order p).side).find? (book.order p).price = some lvl

/-! ### `cancel_order` -/

theorem cancelOrderDispatcher_ok {book : OrderBook P} {side : OrderSide} {p : OrderPtr}
    {lvl lvl' : PriceLevel P} {b : Bool}
    (hlvl : (book.levels side).find? (book.order p).price = some lvl)
    (hrem : lvl.removeOrder (book.order p).id = .ok (b, lvl')) :
    book.cancelOrderDispatcher side p =
      .ok (book.setLevels side (putLevel (book.levels side) (book.order p).price lvl')) := by
  simp only [cancelOrderDispatcher, hlvl, hrem, bind, Except.bind]
  rfl

/-- The order is marked first.  The level is then looked up by the side and
    price of the cancelled order, which are the old ones. -/
theorem cancelOrder_live {book : OrderBook P} {id : OrderId} {p : OrderPtr} {clock : Clock}
    (hreg : book.orderRegistry.find? id = some p) (hlive : (book.order p).Live) :
    book.cancelOrder id clock =
      ((book.setOrder p ((book.order p).cancelledAt (clock 0))).cancelOrderDispatcher
        (book.order p).side p).bind fun b => .ok (true, b) := by
  have hst := mt Order.not_live_iff.mpr (not_not.mpr hlive)
  have hcancel :
      (book.order p).cancel (clock 0) = (true, (book.order p).cancelledAt (clock 0)) := by
    rw [Order.cancel, if_neg hst]
    rfl
  have horder : (book.setOrder p ((book.order p).cancelledAt (clock 0))).order p =
      (book.order p).cancelledAt (clock 0) := OrderPool.get_set_self _ _ _
  simp only [cancelOrder, hreg, hcancel, if_true, horder]
  rfl

/-- `cancel_order` returns, unless it looks for a level that is not there. -/
theorem cancelOrder_cases {book : OrderBook P} (h : book.Sound) (id : OrderId) (clock : Clock) :
    (∃ b book', book.cancelOrder id clock = .ok (b, book') ∧ CancelOutcome book id b book') ∨
      (book.cancelOrder id clock = .error .endIterator ∧ ¬ book.Findable) := by
  cases hreg : book.orderRegistry.find? id with
  | none => exact Or.inl ⟨false, book, by simp [cancelOrder, hreg], .unknown hreg⟩
  | some p =>
    by_cases hlive : (book.order p).Live
    · obtain ⟨o, ho⟩ : ∃ o, o = (book.order p).cancelledAt (clock 0) := ⟨_, rfl⟩
      have hrun : book.cancelOrder id clock = _ := cancelOrder_live hreg hlive
      rw [← ho] at hrun
      have horder : (book.setOrder p o).order p = o := OrderPool.get_set_self _ _ _
      have hprice : o.price = (book.order p).price := by
        rw [ho]
        rfl
      cases hlvl : (book.levels (book.order p).side).find? (book.order p).price with
      | none =>
        refine Or.inr ⟨?_, ?_⟩
        · have hnone : ((book.setOrder p o).levels (book.order p).side).find?
              ((book.setOrder p o).order p).price = none := by
            rw [horder, hprice]
            exact hlvl
          rw [hrun]
          simp only [cancelOrderDispatcher, hnone]
          rfl
        · intro hf
          obtain ⟨lvl, hlvl'⟩ := hf id p hreg hlive
          rw [hlvl] at hlvl'
          cases hlvl'
      | some lvl =>
        have hsound := h.level _ _ _ hlvl
        obtain ⟨b, lvl', hrem, hremoved, hwf⟩ :=
          PriceLevel.removeOrder_ok hsound.wf (book.order p).id
        refine Or.inl ⟨true, _, ?_, .cancelled p lvl lvl' (clock 0) hreg hlive hlvl hremoved hwf⟩
        have hlvl' : ((book.setOrder p o).levels (book.order p).side).find?
            ((book.setOrder p o).order p).price = some lvl := by
          rw [horder, hprice]
          exact hlvl
        have hrem' : lvl.removeOrder ((book.setOrder p o).order p).id = .ok (b, lvl') := by
          rw [horder, ho]
          exact hrem
        rw [hrun, cancelOrderDispatcher_ok hlvl' hrem', horder, hprice, ho]
        rfl
    · have hcancel : (book.order p).cancel (clock 0) = (false, book.order p) := by
        rw [Order.cancel, if_pos (Order.not_live_iff.mp hlive)]
      exact Or.inl ⟨false, book, by simp [cancelOrder, hreg, hcancel], .dead p hreg hlive⟩

/-! ### `modify_order` -/

theorem changePrice_ok {book : OrderBook P} {side : OrderSide} {p : OrderPtr} {price : P}
    {lvl lvl' : PriceLevel P} {b : Bool} (clock : Clock) (hprice : price ≠ (book.order p).price)
    (hlvl : (book.levels side).find? (book.order p).price = some lvl)
    (hrem : lvl.removeOrder (book.order p).id = .ok (b, lvl')) :
    book.changePrice side p price clock = .ok
      { (book.setOrder p ((book.order p).setPrice price (clock 0))).setLevels side
          (((book.levels side).insert (book.order p).price lvl').insert price
            ((book.levelOrNew side price).addOrder book.orderPool.get p)) with
        tryMatchFlag := ((book.levels side).find? price).isNone } := by
  -- The order is queued after its price was written, but a level only looks at its id.
  have hid : ∀ lvl : PriceLevel P,
      lvl.addOrder (book.orderPool.set p ((book.order p).setPrice price (clock 0))).get p =
        lvl.addOrder book.orderPool.get p := by
    intro lvl
    apply PriceLevel.addOrder_congr
    rw [OrderPool.get_set_self]
    rfl
  have hfind : ((book.levels side).insert (book.order p).price lvl').find? price =
      (book.levels side).find? price := SortedMap.find?_insert_ne _ hprice _
  simp only [changePrice, hlvl, hrem, bind, Except.bind, setOrder_levels, setLevels_levels_self]
  cases hnew : (book.levels side).find? price with
  | none =>
    rw [SortedMap.tryEmplace_of_none (hfind.trans hnew)]
    simp only [SortedMap.insert_insert, levelOrNew, hnew, Option.getD_none, Option.isNone_none]
    simp only [setOrder, setLevels, hid, Function.update_idem]
  | some lvl₂ =>
    rw [SortedMap.tryEmplace_of_find? (hfind.trans hnew)]
    simp only [levelOrNew, hnew, Option.getD_some, Option.isNone_some]
    simp only [setOrder, setLevels, hid, Function.update_idem]

/-- Pruning the old level after the new one was filled, or before: the same. -/
theorem prune_insert_comm {side : OrderSide} (lvs : SideLevels P side) {old price : P}
    (hne : price ≠ old) (lvl' lvl₂ : PriceLevel P) :
    removePriceLevelIfEmpty ((lvs.insert old lvl').insert price lvl₂) old =
      (putLevel lvs old lvl').insert price lvl₂ := by
  have hold : ((lvs.insert old lvl').insert price lvl₂).find? old = some lvl' := by
    rw [SortedMap.find?_insert_ne _ (Ne.symm hne), SortedMap.find?_insert_self]
  -- Price by price: the old one, the new one, and the others.
  apply SortedMap.ext_find?
  intro k
  simp only [removePriceLevelIfEmpty, hold, SortedMap.find?_insert, find?_putLevel]
  split
  · next hempty =>
    by_cases hk : k = old
    · subst hk
      simp [Ne.symm hne]
    · simp [SortedMap.find?_erase, SortedMap.find?_insert, hk]
  · next hempty =>
    by_cases hk : k = old
    · subst hk
      simp [SortedMap.find?_insert, Ne.symm hne]
    · simp [SortedMap.find?_insert, hk]

variable [Zero P]

theorem validateModifyOrder_iff {book : OrderBook P} {p : OrderPtr} {price : P} {qty : Quantity} :
    book.validateModifyOrder p price qty = true ↔
      0 < price ∧ (book.order p).quantityFilled < qty := by
  unfold validateModifyOrder
  split
  · next h =>
    simp only [Bool.false_eq_true, false_iff, not_and]
    rintro hpos
    exact UInt64.not_lt.mpr (h.resolve_left (not_le.mpr hpos))
  · next h =>
    push Not at h
    exact ⟨fun _ => ⟨h.1, UInt64.not_le.mp (by simpa using h.2)⟩, fun _ => rfl⟩

omit [Zero P] in
/-- The level of a sound book is not pruned as long as nothing is taken out. -/
theorem Sound.prune_self {book : OrderBook P} (h : book.Sound) (side : OrderSide) (key : P) :
    removePriceLevelIfEmpty (book.levels side) key = book.levels side := by
  apply removePriceLevelIfEmpty_of_not_empty
  intro lvl hlvl
  exact (h.level _ _ _ hlvl).not_empty

theorem dispatch_same {book : OrderBook P} (h : book.Sound) {p : OrderPtr} {lvl : PriceLevel P}
    (hvalid : book.validateModifyOrder p (book.order p).price (book.order p).quantity = true)
    (hlvl : (book.levels (book.order p).side).find? (book.order p).price = some lvl)
    (clock : Clock) :
    book.modifyOrderDispatcher (book.order p).side p (book.order p).price (book.order p).quantity
      clock = .ok (false, book) := by
  simp [modifyOrderDispatcher, hvalid, hlvl, bind, Except.bind, h.prune_self]

theorem dispatch_reduced {book : OrderBook P} (h : book.Sound) {p : OrderPtr} {qty : Quantity}
    {lvl : PriceLevel P}
    (hvalid : book.validateModifyOrder p (book.order p).price qty = true)
    (hlvl : (book.levels (book.order p).side).find? (book.order p).price = some lvl)
    (hlt : qty < (book.order p).quantity) (clock : Clock) :
    book.modifyOrderDispatcher (book.order p).side p (book.order p).price qty clock =
      .ok (true, book.setOrder p ((book.order p).setQuantity qty)) := by
  have hne : (book.order p).quantity ≠ qty := Ne.symm (UInt64.ne_of_lt hlt)
  have hnot : ¬ (book.order p).quantity < qty := fun hc => UInt64.lt_asymm hc hlt
  simp [modifyOrderDispatcher, hvalid, hlvl, hne, bind, Except.bind, changeQuantity, hnot,
    h.prune_self, setLevels, setOrder]

theorem dispatch_requeued {book : OrderBook P} {p : OrderPtr} {qty : Quantity}
    {lvl lvl' : PriceLevel P} {b : Bool}
    (hvalid : book.validateModifyOrder p (book.order p).price qty = true)
    (hlvl : (book.levels (book.order p).side).find? (book.order p).price = some lvl)
    (hrem : lvl.removeOrder (book.order p).id = .ok (b, lvl'))
    (hgt : (book.order p).quantity < qty) (clock : Clock) :
    book.modifyOrderDispatcher (book.order p).side p (book.order p).price qty clock =
      .ok (true, (book.setOrder p ((book.order p).setQuantity qty)).setLevels (book.order p).side
        ((book.levels (book.order p).side).insert (book.order p).price
          (lvl'.addOrder book.orderPool.get p))) := by
  have hne : (book.order p).quantity ≠ qty := UInt64.ne_of_lt hgt
  have hid : lvl'.addOrder (book.orderPool.set p ((book.order p).setQuantity qty)).get p =
      lvl'.addOrder book.orderPool.get p := by
    apply PriceLevel.addOrder_congr
    rw [OrderPool.get_set_self]
    rfl
  -- The order has just been put into the level, so it is not pruned.
  have hkeep : removePriceLevelIfEmpty ((book.levels (book.order p).side).insert
      (book.order p).price (lvl'.addOrder book.orderPool.get p)) (book.order p).price =
      (book.levels (book.order p).side).insert (book.order p).price
        (lvl'.addOrder book.orderPool.get p) := by
    apply removePriceLevelIfEmpty_of_not_empty
    intro l hl
    rw [SortedMap.find?_insert_self, Option.some.injEq] at hl
    rw [← hl]
    exact PriceLevel.addOrder_not_empty _ _ _
  simp [modifyOrderDispatcher, hvalid, hlvl, hne, bind, Except.bind, changeQuantity, hgt, hrem,
    setLevels, setOrder, hid, hkeep]

theorem dispatch_moved {book : OrderBook P} {p : OrderPtr} {price : P} {qty : Quantity}
    {lvl lvl' : PriceLevel P} {b : Bool}
    (hvalid : book.validateModifyOrder p price qty = true)
    (hprice : price ≠ (book.order p).price)
    (hlvl : (book.levels (book.order p).side).find? (book.order p).price = some lvl)
    (hrem : lvl.removeOrder (book.order p).id = .ok (b, lvl')) (clock : Clock) :
    book.modifyOrderDispatcher (book.order p).side p price qty clock = .ok (true,
      { (book.setOrder p (((book.order p).setPrice price (clock 0)).setQuantity qty)).setLevels
          (book.order p).side
          ((putLevel (book.levels (book.order p).side) (book.order p).price lvl').insert price
            ((book.levelOrNew (book.order p).side price).addOrder book.orderPool.get p)) with
        tryMatchFlag := ((book.levels (book.order p).side).find? price).isNone }) := by
  have hchange := changePrice_ok clock hprice hlvl hrem
  have hcomm := prune_insert_comm (book.levels (book.order p).side) hprice lvl'
    ((book.levelOrNew (book.order p).side price).addOrder book.orderPool.get p)
  by_cases hsame : qty = (book.order p).quantity
  · subst hsame
    simp [modifyOrderDispatcher, hvalid, hlvl, Ne.symm hprice, bind, Except.bind, hchange,
      hcomm, setLevels, setOrder, Order.setQuantity, Order.setPrice]
  · -- The quantity is written after the price, into the same slot.
    have hset : (book.orderPool.set p ((book.order p).setPrice price (clock 0))).set p
        (((book.order p).setPrice price (clock 0)).setQuantity qty) =
        book.orderPool.set p (((book.order p).setPrice price (clock 0)).setQuantity qty) := by
      simp [OrderPool.set, Buffer.write]
    simp [modifyOrderDispatcher, hvalid, hlvl, Ne.symm hprice, Ne.symm hsame, bind,
      Except.bind, hchange, changeQuantity, hcomm, setLevels, setOrder]
    show (book.orderPool.set p _).set p (((book.orderPool.set p _).get p).setQuantity qty) = _
    rw [OrderPool.get_set_self]
    exact hset

/-- A valid amendment of an order whose level is there. -/
theorem dispatch_cases {book : OrderBook P} (h : book.Sound) {id : OrderId} {p : OrderPtr}
    {price : P} {qty : Quantity} (hreg : book.orderRegistry.find? id = some p)
    (hlive : (book.order p).Live) (hpos : 0 < price) (hqty : (book.order p).quantityFilled < qty)
    {lvl : PriceLevel P}
    (hlvl : (book.levels (book.order p).side).find? (book.order p).price = some lvl)
    (clock : Clock) :
    ∃ b book', book.modifyOrderDispatcher (book.order p).side p price qty clock = .ok (b, book') ∧
      ModifyOutcome book id price qty b book' := by
  obtain ⟨b, lvl', hrem, hremoved, hwf⟩ :=
    PriceLevel.removeOrder_ok (h.level _ _ _ hlvl).wf (book.order p).id
  have hvalid := validateModifyOrder_iff.mpr ⟨hpos, hqty⟩
  by_cases hprice : price = (book.order p).price
  · subst hprice
    by_cases hsame : qty = (book.order p).quantity
    · subst hsame
      exact ⟨false, book, dispatch_same h hvalid hlvl clock, .same p hreg hlive hpos hqty rfl rfl⟩
    · rcases UInt64.lt_or_lt_of_ne hsame with hlt | hgt
      · exact ⟨true, _, dispatch_reduced h hvalid hlvl hlt clock,
          .reduced p hreg hlive hpos hqty rfl hlt⟩
      · exact ⟨true, _, dispatch_requeued hvalid hlvl hrem hgt clock,
          .requeued p lvl lvl' hreg hlive hpos hqty rfl hgt hlvl hremoved hwf⟩
  · exact ⟨true, _, dispatch_moved hvalid hprice hlvl hrem clock,
      .moved p lvl lvl' (clock 0) hreg hlive hpos hqty hprice hlvl hremoved hwf⟩

/-- `modify_order` returns, unless it looks for a level that is not there. -/
theorem modifyOrder_cases {book : OrderBook P} (h : book.Sound) (id : OrderId) (price : P)
    (qty : Quantity) (clock : Clock) :
    (∃ b book', book.modifyOrder id price qty clock = .ok (b, book') ∧
        ModifyOutcome book id price qty b book') ∨
      (book.modifyOrder id price qty clock = .error .endIterator ∧ ¬ book.Findable) := by
  cases hreg : book.orderRegistry.find? id with
  | none => exact Or.inl ⟨false, book, by simp [modifyOrder, hreg], .unknown hreg⟩
  | some p =>
    by_cases hlive : (book.order p).Live
    swap
    · have hst : (book.order p).status = .cancelled ∨ (book.order p).status = .fullyFilled :=
        (Order.not_live_iff.mp hlive).symm
      exact Or.inl ⟨false, book, by simp only [modifyOrder, hreg, if_pos hst], .dead p hreg hlive⟩
    have hst : ¬ ((book.order p).status = .cancelled ∨ (book.order p).status = .fullyFilled) :=
      fun hc => (not_not.mpr hlive) (Order.not_live_iff.mpr hc.symm)
    have hrun : book.modifyOrder id price qty clock =
        book.modifyOrderDispatcher (book.order p).side p price qty clock := by
      simp only [modifyOrder, hreg, if_neg hst]
    rw [hrun]
    by_cases hbad : price ≤ 0 ∨ qty ≤ (book.order p).quantityFilled
    · refine Or.inl ⟨false, book, ?_, .invalid p hreg hlive hbad⟩
      simp [modifyOrderDispatcher, validateModifyOrder, hbad]
    have hpos : 0 < price := not_le.mp fun hc => hbad (Or.inl hc)
    have hqty : (book.order p).quantityFilled < qty := UInt64.not_le.mp fun hc => hbad (Or.inr hc)
    cases hlvl : (book.levels (book.order p).side).find? (book.order p).price with
    | none =>
      have hvalid := validateModifyOrder_iff.mpr ⟨hpos, hqty⟩
      refine Or.inr ⟨by simp only [modifyOrderDispatcher, hvalid, if_true, hlvl], ?_⟩
      intro hfind
      obtain ⟨lvl, hlvl'⟩ := hfind id p hreg hlive
      rw [hlvl] at hlvl'
      cases hlvl'
    | some lvl => exact Or.inl (dispatch_cases h hreg hlive hpos hqty hlvl clock)

/-! ### Both keep the book sound -/

omit [Zero P] in
theorem putLevel_sound {book : OrderBook P} (h : book.Sound) {side : OrderSide} {key : P}
    {lvl lvl' : PriceLevel P} {id : OrderId} (hlvl : (book.levels side).find? key = some lvl)
    (hrem : PriceLevel.Removed book.orderPool.get lvl id lvl') (hwf : lvl'.WF book.orderPool.get)
    (k : P) (l : PriceLevel P) (hl : (putLevel (book.levels side) key lvl').find? k = some l) :
    book.LevelSound side l := by
  rw [find?_putLevel] at hl
  split at hl
  · split at hl
    · cases hl
    · next hne =>
      cases hl
      exact ⟨(Bool.not_eq_true _).mp hne, hwf,
        EntriesSound.mono (h.level _ _ _ hlvl).entries hrem.entries⟩
  · exact h.level _ _ _ hl

omit [Zero P] in
theorem CancelOutcome.sound {book book' : OrderBook P} {id : OrderId} {b : Bool}
    (ho : CancelOutcome book id b book') (h : book.Sound) : book'.Sound := by
  cases ho with
  | unknown _ => exact h
  | dead _ _ _ => exact h
  | cancelled p lvl lvl' now hreg hlive hlvl hrem hwf =>
    have hacc := (h.registered id p hreg).1
    exact h.amend (o := (book.order p).cancelledAt now) rfl rfl hacc (h.filled_le _ hacc)
      (putLevel_sound h hlvl hrem hwf)

theorem ModifyOutcome.sound {book book' : OrderBook P} {id : OrderId} {price : P}
    {qty : Quantity} {b : Bool} (ho : ModifyOutcome book id price qty b book') (h : book.Sound) :
    book'.Sound := by
  cases ho with
  | unknown _ => exact h
  | dead _ _ _ => exact h
  | invalid _ _ _ _ => exact h
  | same _ _ _ _ _ _ _ => exact h
  | reduced p hreg hlive hpos hqty hprice hlt =>
    have hacc := (h.registered id p hreg).1
    have := h.amend (o := (book.order p).setQuantity qty) rfl rfl hacc (UInt64.le_of_lt hqty)
      (h.level (book.order p).side)
    rwa [← setOrder_levels book p ((book.order p).setQuantity qty), setLevels_self] at this
  | requeued p lvl lvl' hreg hlive hpos hqty hprice hgt hlvl hrem hwf =>
    have hacc := (h.registered id p hreg).1
    refine h.amend (o := (book.order p).setQuantity qty) rfl rfl hacc (UInt64.le_of_lt hqty)
      ?_
    intro k l hl
    rw [SortedMap.find?_insert] at hl
    split at hl
    · cases hl
      -- What is left of the level, with the order behind it.
      exact .addOrder hwf (EntriesSound.mono (h.level _ _ _ hlvl).entries hrem.entries) hacc rfl
    · exact h.level _ _ _ hl
  | moved p lvl lvl' now hreg hlive hpos hqty hprice hlvl hrem hwf =>
    have hacc := (h.registered id p hreg).1
    refine (h.amend (o := ((book.order p).setPrice price now).setQuantity qty) rfl rfl hacc
      (UInt64.le_of_lt hqty) ?_).setFlag _
    intro k l hl
    rw [SortedMap.find?_insert] at hl
    split at hl
    · cases hl
      obtain ⟨hnew, hentries⟩ := h.levelOrNew (book.order p).side price
      exact .addOrder hnew hentries hacc rfl
    · exact putLevel_sound h hlvl hrem hwf k l hl

end OrderBook
end Orderbook
