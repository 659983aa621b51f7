import Orderbook.Order
import Orderbook.Lib.SortedMap

/-! # Price levels, the first version

    `price_level.h`: the orders of one price as a linked list, and a map from
    their ids to iterators into it.

    An iterator is the number of the node that it points to.  Nodes are
    numbered as they are allocated and no number is used twice, so an
    iterator is dangling when its number is not in the list; what the source
    does with a dangling iterator, or with the front of an empty list, is not
    defined, and is `none` here. -/

namespace Orderbook

structure OrderNode where
  node  : ℕ
  order : OrderPtr
  deriving DecidableEq, Repr

structure PriceLevelV1 (P : Type) where
  price      : P
  ordersList : List OrderNode
  nextNode   : ℕ
  ordersMap  : SortedMap (· < · : OrderId → OrderId → Prop) ℕ

namespace PriceLevelV1
variable {P : Type}

def new (price : P) : PriceLevelV1 P where
  price      := price
  ordersList := []
  nextNode   := 0
  ordersMap  := .empty

def addOrder (lvl : PriceLevelV1 P) (heap : OrderPtr → Order P) (order : OrderPtr) :
    PriceLevelV1 P :=
  { lvl with
    ordersList := lvl.ordersList ++ [⟨lvl.nextNode, order⟩]
    nextNode   := lvl.nextNode + 1
    ordersMap  := lvl.ordersMap.insert (heap order).id lvl.nextNode }

/-- `_orders_list.erase(it)`. -/
def eraseNode (lvl : PriceLevelV1 P) (it : ℕ) : Option (PriceLevelV1 P) :=
  if lvl.ordersList.any fun n => n.node == it then
    some { lvl with ordersList := lvl.ordersList.filter fun n => n.node != it }
  else none

def removeOrder (lvl : PriceLevelV1 P) (orderId : OrderId) : Option (Bool × PriceLevelV1 P) :=
  match lvl.ordersMap.find? orderId with
  | none => some (false, lvl)
  | some itList => do
    let lvl ← lvl.eraseNode itList
    some (true, { lvl with ordersMap := lvl.ordersMap.erase orderId })

def size (lvl : PriceLevelV1 P) : ℕ := lvl.ordersList.length

def empty (lvl : PriceLevelV1 P) : Bool := lvl.ordersList.isEmpty

def totalQty (lvl : PriceLevelV1 P) (heap : OrderPtr → Order P) : Quantity :=
  lvl.ordersList.foldl (fun qty n => qty + (heap n.order).available) 0

def front (lvl : PriceLevelV1 P) : Option OrderPtr := lvl.ordersList.head?.map OrderNode.order

/-- `pop_front_order_if_filled`.  It leaves the map as it is. -/
def popFrontOrderIfFilled (lvl : PriceLevelV1 P) (heap : OrderPtr → Order P) :
    Option (PriceLevelV1 P) :=
  if lvl.empty then some lvl
  else do
    let order ← lvl.front
    if (heap order).status = .fullyFilled then
      some { lvl with ordersList := lvl.ordersList.tail }
    else some lvl

end PriceLevelV1
end Orderbook
