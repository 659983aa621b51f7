import Orderbook.OrderPool
import Orderbook.IdAllocator
import Orderbook.PriceLevel
import Orderbook.Lib.Path

/-! # The order book

    `orderbook.h`: the two price maps, the registry of every order accepted,
    the pool the orders live in, and the three operations.  The id allocator
    is shared with other books, so the calls that draw from it take it and
    give it back.

    `_bids` is `levels .buy` and `_asks` is `levels .sell`; the templates over
    `MapType` become definitions with the side as a parameter. -/

namespace Orderbook

/-- The comparator of a side's map: `std::greater` for the bids and
    `std::less` for the asks.  The best price comes first. -/
def OrderSide.before {P : Type} [LT P] (side : OrderSide) (p q : P) : Prop :=
  match side with
  | .buy => q < p
  | .sell => p < q

section Before
variable {P : Type} [LinearOrder P]

instance (side : OrderSide) : DecidableRel (side.before : P → P → Prop) := fun p q =>
  match side with
  | .buy => inferInstanceAs (Decidable (q < p))
  | .sell => inferInstanceAs (Decidable (p < q))

instance (side : OrderSide) : IsStrictTotalOrder P side.before where
  trichotomous p q h h' := by
    cases side
    · exact le_antisymm (not_lt.mp h) (not_lt.mp h')
    · exact le_antisymm (not_lt.mp h') (not_lt.mp h)
  irrefl p h := by cases side <;> exact lt_irrefl p h
  trans p q r h h' := by
    cases side
    · exact lt_trans h' h
    · exact lt_trans h h'

end Before

/-- The price levels of one side. -/
abbrev SideLevels (P : Type) [LT P] (side : OrderSide) : Type :=
  SortedMap (side.before : P → P → Prop) (PriceLevel P)

structure OrderBook (P : Type) [LT P] where
  instrument           : Instrument
  levels               : (side : OrderSide) → SideLevels P side
  orderRegistry        : SortedMap (· < · : OrderId → OrderId → Prop) OrderPtr
  orderPool            : OrderPool P
  orderIdBlock         : OrderIdBlock
  nextAvailableOrderId : OrderId
  tradesCompleted      : UInt64
  tryMatchFlag         : Bool

namespace OrderBook
variable {P : Type} [LinearOrder P] [Zero P]

abbrev bids (book : OrderBook P) : SideLevels P .buy := book.levels .buy
abbrev asks (book : OrderBook P) : SideLevels P .sell := book.levels .sell

/-- `*p`. -/
abbrev order (book : OrderBook P) (p : OrderPtr) : Order P := book.orderPool.get p

/-- Write the levels of one side back. -/
def setLevels (book : OrderBook P) (side : OrderSide) (lvs : SideLevels P side) : OrderBook P :=
  { book with levels := Function.update book.levels side lvs }

/-- Write an order back. -/
def setOrder (book : OrderBook P) (p : OrderPtr) (o : Order P) : OrderBook P :=
  { book with orderPool := book.orderPool.set p o }

/-- The constructor.  It draws the first id block, and builds the pool with
    `SPACE_RESERVE` slots whatever space the caller asks for. -/
def new (instrument : Instrument) (alloc : IdAllocator) (clock : Clock) :
    OrderBook P × IdAllocator :=
  let (block, alloc) := alloc.getNextIdBlock
  ({ instrument           := instrument
     levels               := fun _ => .empty
     orderRegistry        := .empty
     orderPool            := OrderPool.new SPACE_RESERVE clock
     orderIdBlock         := block
     nextAvailableOrderId := block.start
     tradesCompleted      := 0
     tryMatchFlag         := false }, alloc)

/-- `get_order_id`: the next id of the block, after drawing a new block if
    the cursor stands exactly at the end of the present one. -/
def getOrderId (book : OrderBook P) (alloc : IdAllocator) :
    OrderId × OrderBook P × IdAllocator :=
  if book.nextAvailableOrderId = book.orderIdBlock.stop then
    let (block, alloc) := alloc.getNextIdBlock
    (block.start,
      { book with orderIdBlock := block, nextAvailableOrderId := block.start + 1 }, alloc)
  else
    (book.nextAvailableOrderId,
      { book with nextAvailableOrderId := book.nextAvailableOrderId + 1 }, alloc)

/-- `remove_price_level_if_empty`, the iterator given by its key. -/
def removePriceLevelIfEmpty {side : OrderSide} (lvs : SideLevels P side) (key : P) :
    SideLevels P side :=
  match lvs.find? key with
  | some lvl => if lvl.empty then lvs.erase key else lvs
  | none => lvs

/-! ### Adding -/

def addOrderDispatcher (book : OrderBook P) (side : OrderSide) (order : OrderPtr) : OrderBook P :=
  let o := book.order order
  -- `try_emplace` makes a level only if there is none.
  let (lvs, pLevel, inserted) := (book.levels side).tryEmplace o.price (.new o.price)
  { book.setLevels side (lvs.insert o.price (pLevel.addOrder book.orderPool.get order)) with
    tryMatchFlag  := inserted
    orderRegistry := book.orderRegistry.insert o.id order }

/-- `match_orders`: the bid is credited first, then the ask. -/
def matchOrders (book : OrderBook P) (bidOrder askOrder : OrderPtr) (clock : Clock) :
    Except Fault (OrderBook P) :=
  let bidAvailable := (book.order bidOrder).quantity - (book.order bidOrder).quantityFilled
  let askAvailable := (book.order askOrder).quantity - (book.order askOrder).quantityFilled
  let matchQty := if askAvailable < bidAvailable then askAvailable else bidAvailable
  do
    let bid ← (book.order bidOrder).matchFill matchQty (clock 0)
    let book := book.setOrder bidOrder bid
    let ask ← (book.order askOrder).matchFill matchQty (clock 1)
    .ok (book.setOrder askOrder ask)

/-- The body of the loop of `try_match`, the two levels being the first of
    their sides and their prices crossing. -/
def matchBest (book : OrderBook P) (bidIt askIt : P × PriceLevel P) (clock : Clock) :
    Except Fault (OrderBook P) := do
  let book := { book with tradesCompleted := book.tradesCompleted + 1 }
  let bidOrder ← bidIt.2.front
  let askOrder ← askIt.2.front
  let book ← book.matchOrders bidOrder askOrder clock
  -- Both levels are popped before either of them is pruned.
  let bestBid ← bidIt.2.popFrontOrderIfFilled book.orderPool.get
  let bestAsk ← askIt.2.popFrontOrderIfFilled book.orderPool.get
  let book := book.setLevels .buy
    (removePriceLevelIfEmpty (book.bids.insert bidIt.1 bestBid) bidIt.1)
  .ok (book.setLevels .sell
    (removePriceLevelIfEmpty (book.asks.insert askIt.1 bestAsk) askIt.1))

/-- The `while (true)` of `try_match` and its three exits; `matched` is the
    local `order_matched`.  The fuel bounds the number of iterations. -/
def tryMatchLoop (fuel : ℕ) (clock : Clock) (matched : Bool) (book : OrderBook P) :
    Except Fault (Bool × OrderBook P) :=
  match fuel with
  | 0 => .error .outOfFuel
  | fuel + 1 =>
    match book.bids.front?, book.asks.front? with
    | some bidIt, some askIt =>
      if askIt.1 ≤ bidIt.1 then do
        let book ← book.matchBest bidIt askIt clock
        tryMatchLoop fuel (clock.skip 2) true book
      -- The exit by a side that ran empty leaves the flag set.
      else .ok (matched, { book with tryMatchFlag := false })
    | _, _ => .ok (matched, book)

/-- How many entries the queues of a side still have from their heads on. -/
def pendingEntries {side : OrderSide} (lvs : SideLevels P side) : ℕ :=
  (lvs.entries.map fun e => e.2.orderEntries.length - e.2.queueHeadIndex).sum

/-- More iterations than the loop can take: each one uses up an entry. -/
def matchFuel (book : OrderBook P) : ℕ :=
  pendingEntries book.bids + pendingEntries book.asks + 1

def tryMatch (book : OrderBook P) (clock : Clock) : Except Fault (Bool × OrderBook P) :=
  if book.tryMatchFlag then tryMatchLoop book.matchFuel clock false book
  else .ok (false, book)

/-- `add_order` up to the call of `try_match`: allocate, copy, queue and
    register.  Returns the id, the book, the allocator and the clock readings
    left. -/
def enqueueOrder (book : OrderBook P) (alloc : IdAllocator) (client : Order P) (clock : Clock) :
    OrderId × OrderBook P × IdAllocator × Clock :=
  let (order, pool, clock) := book.orderPool.allocate clock
  let book := { book with orderPool := pool }
  let (orderId, book, alloc) := book.getOrderId alloc
  let book := book.setOrder order ((book.order order).copyFromClient client orderId)
  (orderId, book.addOrderDispatcher (book.order order).side order, alloc, clock)

def addOrder (book : OrderBook P) (alloc : IdAllocator) (client : Order P) (clock : Clock) :
    Except Fault (OrderId × OrderBook P × IdAllocator) :=
  let (orderId, book, alloc, clock) := book.enqueueOrder alloc client clock
  do
    let (_, book) ← book.tryMatch clock
    .ok (orderId, book, alloc)

/-! ### Cancelling -/

def cancelOrderDispatcher (book : OrderBook P) (side : OrderSide) (order : OrderPtr) :
    Except Fault (OrderBook P) :=
  let o := book.order order
  match (book.levels side).find? o.price with
  | none => .error .endIterator
  | some priceLevel => do
    let (_, priceLevel) ← priceLevel.removeOrder o.id
    .ok (book.setLevels side
      (removePriceLevelIfEmpty ((book.levels side).insert o.price priceLevel) o.price))

/-- `cancel_order`.  Nothing that its `try` block calls throws, so the
    handlers, which only print, are not reached. -/
def cancelOrder (book : OrderBook P) (orderId : OrderId) (clock : Clock) :
    Except Fault (Bool × OrderBook P) :=
  match book.orderRegistry.find? orderId with
  | none => .ok (false, book)
  | some order =>
    let (cancelSuccess, o) := (book.order order).cancel (clock 0)
    if cancelSuccess then do
      -- The order is cancelled by the time its level is looked up.
      let book := book.setOrder order o
      let book ← book.cancelOrderDispatcher (book.order order).side order
      .ok (true, book)
    else .ok (false, book)

/-! ### Modifying -/

def validateModifyOrder (book : OrderBook P) (order : OrderPtr) (newPrice : P)
    (newQty : Quantity) : Bool :=
  if newPrice ≤ 0 ∨ newQty ≤ (book.order order).quantityFilled then false else true

/-- The block under `if (price_changed)`: out of the old level, into the
    level of the new price, which is created if need be. -/
def changePrice (book : OrderBook P) (side : OrderSide) (order : OrderPtr) (newPrice : P)
    (clock : Clock) : Except Fault (OrderBook P) :=
  let o := book.order order
  match (book.levels side).find? o.price with
  | none => .error .endIterator
  | some oldPriceLevel => do
    let (_, oldPriceLevel) ← oldPriceLevel.removeOrder o.id
    let book := book.setLevels side ((book.levels side).insert o.price oldPriceLevel)
    let book := book.setOrder order (o.setPrice newPrice (clock 0))
    -- Only a level that was not there asks for a match.
    let (lvs, newPriceLevel, inserted) :=
      (book.levels side).tryEmplace newPrice (.new newPrice)
    .ok { book.setLevels side
            (lvs.insert newPrice (newPriceLevel.addOrder book.orderPool.get order)) with
          tryMatchFlag := inserted }

/-- The block under `if (quantity_changed)`; `oldPrice` is the key of
    `old_price_level`. -/
def changeQuantity (book : OrderBook P) (side : OrderSide) (order : OrderPtr) (oldPrice : P)
    (newQty : Quantity) (priceChanged : Bool) : Except Fault (OrderBook P) :=
  let o := book.order order
  let quantityIncreased := decide (o.quantity < newQty)
  let book := book.setOrder order (o.setQuantity newQty)
  -- A lower quantity keeps its place, and an order that was moved is last already.
  if quantityIncreased && !priceChanged then
    match (book.levels side).find? oldPrice with
    | none => .error .endIterator
    | some oldPriceLevel => do
      let (_, oldPriceLevel) ← oldPriceLevel.removeOrder o.id
      .ok (book.setLevels side ((book.levels side).insert oldPrice
        (oldPriceLevel.addOrder book.orderPool.get order)))
  else .ok book

def modifyOrderDispatcher (book : OrderBook P) (side : OrderSide) (order : OrderPtr)
    (newPrice : P) (newQty : Quantity) (clock : Clock) : Except Fault (Bool × OrderBook P) :=
  if book.validateModifyOrder order newPrice newQty then
    let oldPrice := (book.order order).price
    match (book.levels side).find? oldPrice with
    | none => .error .endIterator
    | some _ =>
      let priceChanged := decide ((book.order order).price ≠ newPrice)
      let quantityChanged := decide ((book.order order).quantity ≠ newQty)
      do
        let book ← if priceChanged then book.changePrice side order newPrice clock else .ok book
        let book ←
          if quantityChanged then book.changeQuantity side order oldPrice newQty priceChanged
          else .ok book
        -- The old level is pruned last, if it is empty by now.
        .ok (priceChanged || quantityChanged,
          book.setLevels side (removePriceLevelIfEmpty (book.levels side) oldPrice))
  else .ok (false, book)

/-- `modify_order`.  Both cases of the `switch` return from inside the `try`
    block, and nothing there throws: the handlers, the `try_match()` behind
    them and the last `return false` are not reached. -/
def modifyOrder (book : OrderBook P) (orderId : OrderId) (price : P) (quantity : Quantity)
    (clock : Clock) : Except Fault (Bool × OrderBook P) :=
  match book.orderRegistry.find? orderId with
  | none => .ok (false, book)
  | some order =>
    if (book.order order).status = .cancelled ∨ (book.order order).status = .fullyFilled then
      .ok (false, book)
    else book.modifyOrderDispatcher (book.order order).side order price quantity clock

/-! ### Queries -/

def getBestBid [One P] [Neg P] (book : OrderBook P) : P :=
  match book.bids.front? with
  | some e => e.1
  | none => -1

def getBestAsk [One P] [Neg P] (book : OrderBook P) : P :=
  match book.asks.front? with
  | some e => e.1
  | none => -1

/-- `get_total_bid_orders` and `get_total_ask_orders`. -/
def getTotalOrders (book : OrderBook P) (side : OrderSide) : ℕ :=
  ((book.levels side).entries.map fun e => e.2.size).sum

end OrderBook
end Orderbook
