import Mathlib.Order.Defs.LinearOrder
import Mathlib.Tactic
import Orderbook.Lib.Buffer

/-! # Orders

    `core.h` and the `Order` of `order.h`.  Prices are taken from an
    arbitrary linear order with a zero: they are ordered numbers, and the
    value NaN of a `double` is not among them.  Quantities and ids are the
    64-bit words of the source.  Every reading of the system clock is an explicit
    input: a call receives the stream of the readings it will take. -/

namespace Orderbook

abbrev Instrument : Type := String
abbrev OrderId    : Type := UInt64
abbrev Quantity   : Type := UInt64

/-- A point in time, in clock ticks since the epoch. -/
abbrev TimePoint : Type := ℤ

/-- The readings of the system clock that are still to come. -/
abbrev Clock : Type := ℕ → TimePoint

/-- The readings after the first `n`. -/
def Clock.skip (clock : Clock) (n : ℕ) : Clock := fun i => clock (i + n)

def DEFAULT_ORDER_ID : OrderId := 0
def FIRST_ORDER_ID   : OrderId := 1
def INVALID_ORDER_ID : OrderId := 18446744073709551615

def SPACE_RESERVE : ℕ := 100000

instance strictTotalOrderUInt64 : IsStrictTotalOrder UInt64 (· < ·) where
  trichotomous _ _ h h' := UInt64.le_antisymm (UInt64.not_lt.mp h') (UInt64.not_lt.mp h)
  irrefl := UInt64.lt_irrefl
  trans _ _ _ := UInt64.lt_trans

inductive OrderSide where
  | buy
  | sell
  deriving DecidableEq, Repr

inductive OrderStatus where
  | new
  | partiallyFilled
  | fullyFilled
  | cancelled
  deriving DecidableEq, Repr

/-- What the calls can run into besides returning: the exception that
    `Order::match` throws, and the accesses that C++ leaves undefined. -/
inductive Fault where
  /-- `std::runtime_error` thrown by `Order::match`. -/
  | runtimeError
  /-- An index past the end of a vector. -/
  | outOfRange
  /-- A dereferenced `end()` iterator. -/
  | endIterator
  /-- The loop was cut off before it ended by itself. -/
  | outOfFuel
  deriving DecidableEq, Repr

structure Order (P : Type) where
  instrument     : Instrument
  side           : OrderSide
  price          : P
  quantity       : Quantity
  id             : OrderId
  quantityFilled : Quantity
  status         : OrderStatus
  timeSubmitted  : TimePoint
  updatedTime    : TimePoint
  deriving DecidableEq, Repr

/-- An `Order*`: a pointer into the order pool. -/
abbrev OrderPtr : Type := BufferPtr

namespace Order
variable {P : Type}

/-- The default constructor; one clock reading sets both times. -/
def blank [Zero P] (now : TimePoint) : Order P where
  instrument     := ""
  side           := .buy
  price          := 0
  quantity       := 0
  id             := DEFAULT_ORDER_ID
  quantityFilled := 0
  status         := .new
  timeSubmitted  := now
  updatedTime    := now

instance [Zero P] : Inhabited (Order P) := ⟨blank 0⟩

/-- The constructor for the information received from a client. -/
def ofClient (instrument : Instrument) (side : OrderSide) (price : P) (quantity : Quantity)
    (now : TimePoint) : Order P where
  instrument     := instrument
  side           := side
  price          := price
  quantity       := quantity
  id             := DEFAULT_ORDER_ID
  quantityFilled := 0
  status         := .new
  timeSubmitted  := now
  updatedTime    := now

/-- `copy_from_client`: five fields are overwritten, the other four are kept. -/
def copyFromClient (o client : Order P) (allocatedId : OrderId) : Order P :=
  { o with
    instrument := client.instrument
    side       := client.side
    price      := client.price
    quantity   := client.quantity
    id         := allocatedId }

/-- `Order::match`.  The sum in the test is the 64-bit one. -/
def matchFill (o : Order P) (fillQty : Quantity) (now : TimePoint) : Except Fault (Order P) :=
  if o.quantity < o.quantityFilled + fillQty then .error .runtimeError
  else .ok
    { o with
      quantityFilled := o.quantityFilled + fillQty
      updatedTime    := now
      status         :=
        if o.quantityFilled + fillQty = o.quantity then .fullyFilled else .partiallyFilled }

/-- `Order::cancel`: the returned flag and the order afterwards. -/
def cancel (o : Order P) (now : TimePoint) : Bool × Order P :=
  if o.status = .fullyFilled ∨ o.status = .cancelled then (false, o)
  else (true, { o with updatedTime := now, status := .cancelled })

/-- The order after a successful `cancel`. -/
def cancelledAt (o : Order P) (now : TimePoint) : Order P :=
  { o with updatedTime := now, status := .cancelled }

def setPrice (o : Order P) (newPrice : P) (now : TimePoint) : Order P :=
  { o with updatedTime := now, price := newPrice }

def setQuantity (o : Order P) (qty : Quantity) : Order P := { o with quantity := qty }

def getTimeSubmitted (o : Order P) : TimePoint := o.timeSubmitted

/-- `get_updated_time` returns the submission time. -/
def getUpdatedTime (o : Order P) : TimePoint := o.timeSubmitted

/-- What is left to fill; the 64-bit difference. -/
def available (o : Order P) : Quantity := o.quantity - o.quantityFilled

/-- The order can still trade: `NEW` or `PARTIALLY_FILLED`. -/
def Live (o : Order P) : Prop := o.status = .new ∨ o.status = .partiallyFilled

instance (o : Order P) : Decidable o.Live := inferInstanceAs (Decidable (_ ∨ _))

theorem not_live_iff {o : Order P} :
    ¬ o.Live ↔ o.status = .fullyFilled ∨ o.status = .cancelled := by
  unfold Live
  cases o.status <;> simp

/-! ### Filling within the open quantity -/

/-- The open quantity does not wrap while at most the quantity is filled. -/
theorem available_toNat {o : Order P} (hle : o.quantityFilled ≤ o.quantity) :
    o.available.toNat = o.quantity.toNat - o.quantityFilled.toNat :=
  UInt64.toNat_sub_of_le _ _ hle

/-- The addition in `Order::match` does not wrap for a fill within the open
    quantity. -/
theorem filled_add_toNat {o : Order P} {q : Quantity} (hle : o.quantityFilled ≤ o.quantity)
    (hq : q ≤ o.available) :
    (o.quantityFilled + q).toNat = o.quantityFilled.toNat + q.toNat := by
  have havail := available_toNat hle
  have hbound := o.quantity.toNat_lt
  rw [UInt64.le_iff_toNat_le] at hle hq
  rw [UInt64.toNat_add]
  omega

theorem filled_add_le {o : Order P} {q : Quantity} (hle : o.quantityFilled ≤ o.quantity)
    (hq : q ≤ o.available) : o.quantityFilled + q ≤ o.quantity := by
  have hsum := filled_add_toNat hle hq
  have havail := available_toNat hle
  rw [UInt64.le_iff_toNat_le] at hle hq ⊢
  omega

theorem filled_add_eq_iff {o : Order P} {q : Quantity} (hle : o.quantityFilled ≤ o.quantity)
    (hq : q ≤ o.available) : o.quantityFilled + q = o.quantity ↔ q = o.available := by
  have hsum := filled_add_toNat hle hq
  have havail := available_toNat hle
  rw [UInt64.le_iff_toNat_le] at hle hq
  rw [← UInt64.toNat_inj, ← UInt64.toNat_inj (a := q)]
  omega

/-- The order after a fill of `q`. -/
def filled (o : Order P) (q : Quantity) (now : TimePoint) : Order P :=
  { o with
    quantityFilled := o.quantityFilled + q
    updatedTime    := now
    status         := if q = o.available then .fullyFilled else .partiallyFilled }

/-- A fill of at most the open quantity does not throw, and makes the order
    `FULLY_FILLED` exactly when it takes all of it. -/
theorem matchFill_of_le {o : Order P} {q : Quantity} (now : TimePoint)
    (hle : o.quantityFilled ≤ o.quantity) (hq : q ≤ o.available) :
    o.matchFill q now = .ok (o.filled q now) := by
  simp only [matchFill, filled, if_neg (UInt64.not_lt.mpr (filled_add_le hle hq)),
    filled_add_eq_iff hle hq]

@[simp] theorem filled_side (o : Order P) (q : Quantity) (now : TimePoint) :
    (o.filled q now).side = o.side := rfl
@[simp] theorem filled_price (o : Order P) (q : Quantity) (now : TimePoint) :
    (o.filled q now).price = o.price := rfl
@[simp] theorem filled_id (o : Order P) (q : Quantity) (now : TimePoint) :
    (o.filled q now).id = o.id := rfl
@[simp] theorem filled_quantity (o : Order P) (q : Quantity) (now : TimePoint) :
    (o.filled q now).quantity = o.quantity := rfl

end Order
end Orderbook
