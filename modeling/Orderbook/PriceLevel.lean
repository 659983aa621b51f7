import Orderbook.Order
import Orderbook.Lib.SortedMap

/-! # Price levels

    `price_level_v2.h`: the orders of one price, as a vector that is only
    ever appended to, a validity bit for each of its entries, the index of
    the head of the queue, and a map from the ids that are queued to the
    index of their entry.

    The operations look at orders through their pointers; `heap` is the
    memory they see.  Where the source indexes the vector without a check,
    an index past its end is the fault `outOfRange`. -/

namespace Orderbook

structure OrderEntry where
  isValid : Bool
  order   : OrderPtr
  deriving DecidableEq, Repr

structure PriceLevel (P : Type) where
  price          : P
  orderEntries   : List OrderEntry
  queueHeadIndex : ℕ
  ordersMap      : SortedMap (· < · : OrderId → OrderId → Prop) ℕ
  deriving DecidableEq

namespace PriceLevel
variable {P : Type}

def new (price : P) : PriceLevel P where
  price          := price
  orderEntries   := []
  queueHeadIndex := 0
  ordersMap      := .empty

def size (lvl : PriceLevel P) : ℕ := lvl.ordersMap.size

def empty (lvl : PriceLevel P) : Bool := lvl.ordersMap.isEmpty

/-- Queue an order behind all others. -/
def addOrder (lvl : PriceLevel P) (heap : OrderPtr → Order P) (order : OrderPtr) : PriceLevel P :=
  { lvl with
    orderEntries := lvl.orderEntries ++ [⟨true, order⟩]
    ordersMap    := lvl.ordersMap.insert (heap order).id lvl.orderEntries.length }

/-- The `while` loop of `increment_to_valid`, started at index `i` of a
    vector whose entries from `i` on are given.  The loop has no bound of its
    own: running past the last entry is a fault. -/
def nextValid : List OrderEntry → ℕ → Except Fault ℕ
  | [], _ => .error .outOfRange
  | e :: es, i => if e.isValid then .ok i else nextValid es (i + 1)

def incrementToValid (lvl : PriceLevel P) : Except Fault (PriceLevel P) :=
  if lvl.empty then .ok lvl
  else do
    let i ← nextValid (lvl.orderEntries.drop lvl.queueHeadIndex) lvl.queueHeadIndex
    .ok { lvl with queueHeadIndex := i }

/-- `_order_entries[i].is_valid = false`. -/
def invalidate (lvl : PriceLevel P) (i : ℕ) : Except Fault (PriceLevel P) :=
  match lvl.orderEntries[i]? with
  | none => .error .outOfRange
  | some e => .ok { lvl with orderEntries := lvl.orderEntries.set i { e with isValid := false } }

def removeOrder (lvl : PriceLevel P) (orderId : OrderId) : Except Fault (Bool × PriceLevel P) :=
  match lvl.ordersMap.find? orderId with
  | none => .ok (false, lvl)
  | some orderEntryIndex => do
    let lvl ← lvl.invalidate orderEntryIndex
    -- The id is gone by the time the head is moved.
    let lvl ← incrementToValid { lvl with ordersMap := lvl.ordersMap.erase orderId }
    .ok (true, lvl)

def front (lvl : PriceLevel P) : Except Fault OrderPtr :=
  match lvl.orderEntries[lvl.queueHeadIndex]? with
  | none => .error .outOfRange
  | some e => .ok e.order

/-- `pop_front_order_if_filled`.  Erasing at the result of a failed `find` is
    taken as leaving the map unchanged. -/
def popFrontOrderIfFilled (lvl : PriceLevel P) (heap : OrderPtr → Order P) :
    Except Fault (PriceLevel P) :=
  if lvl.empty then .ok lvl
  else do
    let order ← lvl.front
    if (heap order).status = .fullyFilled then
      -- The key is erased by id; it may lead to another entry than the one at the head.
      let lvl := { lvl with ordersMap := lvl.ordersMap.erase (heap order).id }
      let lvl ← lvl.invalidate lvl.queueHeadIndex
      lvl.incrementToValid
    else .ok lvl

/-- `total_qty`: the 64-bit sum over the valid entries. -/
def totalQty (lvl : PriceLevel P) (heap : OrderPtr → Order P) : Quantity :=
  lvl.orderEntries.foldl
    (fun qty e => if e.isValid then qty + (heap e.order).available else qty) 0

end PriceLevel
end Orderbook
