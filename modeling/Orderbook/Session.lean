import Orderbook.OrderBook

/-! # Runs of an order book

    A book together with the id allocator it shares with the other books of
    the process.  The events are the three operations of the book, with
    their arguments and the clock readings they take, and the moments at
    which some other book draws a block of ids. -/

namespace Orderbook

inductive Event (P : Type) where
  | addOrder (client : Order P) (clock : Clock)
  | cancelOrder (orderId : OrderId) (clock : Clock)
  | modifyOrder (orderId : OrderId) (price : P) (quantity : Quantity) (clock : Clock)
  | otherDraws

/-- What an event returns to its caller. -/
inductive Reply where
  | orderId (id : OrderId)
  | done (success : Bool)
  | silent
  deriving DecidableEq, Repr

structure Session (P : Type) [LT P] where
  book  : OrderBook P
  alloc : IdAllocator

namespace Session
variable {P : Type} [LinearOrder P] [Zero P]

def step (s : Session P) : Event P → Except Fault (Session P × Reply)
  | .addOrder client clock => do
    let (orderId, book, alloc) ← s.book.addOrder s.alloc client clock
    .ok (⟨book, alloc⟩, .orderId orderId)
  | .cancelOrder orderId clock => do
    let (success, book) ← s.book.cancelOrder orderId clock
    .ok (⟨book, s.alloc⟩, .done success)
  | .modifyOrder orderId price quantity clock => do
    let (success, book) ← s.book.modifyOrder orderId price quantity clock
    .ok (⟨book, s.alloc⟩, .done success)
  | .otherDraws => .ok (⟨s.book, s.alloc.getNextIdBlock.2⟩, .silent)

/-- One event, labelled with the event and its reply. -/
def Step (s : Session P) (l : Event P × Reply) (s' : Session P) : Prop :=
  s.step l.1 = .ok (s', l.2)

/-- A book that has just been constructed, with whatever allocator. -/
def Fresh (s : Session P) : Prop :=
  ∃ instrument alloc clock, OrderBook.new instrument alloc clock = (s.book, s.alloc)

/-- The ids returned by the `add_order` calls of a run. -/
def addedIds (ls : List (Event P × Reply)) : List OrderId :=
  ls.filterMap fun l => match l.2 with
    | .orderId id => some id
    | _ => none

/-- A list of events one after the other: the session at the end and the
    replies on the way. -/
def exec (s : Session P) : List (Event P) → Except Fault (Session P × List Reply)
  | [] => .ok (s, [])
  | e :: es => do
    let (s, r) ← s.step e
    let (s, rs) ← s.exec es
    .ok (s, r :: rs)

/-- The events run through with these replies, to a session that passes the
    test `f`. -/
def endsIn (s : Session P) (es : List (Event P)) (rs : List Reply) (f : Session P → Bool) : Bool :=
  match s.exec es with
  | .ok (s', rs') => rs' == rs && f s'
  | .error _ => false

end Session
end Orderbook
