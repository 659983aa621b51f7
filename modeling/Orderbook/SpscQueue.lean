import Orderbook.Lib.Path

/-! # The queue between two threads

    `spsc_queue.h`: a ring of `capacity` slots, the index of the next slot to
    write and that of the next slot to read.  One thread pushes and another
    one pops; each load and store of an index is one step, and so is each
    access to a slot, so between two steps of a call the other thread may do
    anything.

    `moved source destination` is what a move assignment leaves in its source. -/

namespace Orderbook

structure SPSCQueue (α : Type) where
  buffer : List α
  head   : ℕ
  tail   : ℕ

namespace SPSCQueue
variable {α : Type}

/-- The constructor; the slots are value-initialised. -/
def new (capacity : ℕ) (blank : α) : SPSCQueue α := ⟨List.replicate capacity blank, 0, 0⟩

/-- `(i + 1) % _buffer.size()`. -/
def next (q : SPSCQueue α) (i : ℕ) : ℕ := (i + 1) % q.buffer.length

/-- The two overloads: `push(const T&)` and `push(T&&)`. -/
inductive Overload where
  | constRef
  | rvalue
  deriving DecidableEq, Repr

/-- What the caller is left with after the slot, which held `old`, is assigned. -/
def Overload.left (moved : α → α → α) (overload : Overload) (item old : α) : α :=
  match overload with
  | .constRef => item
  | .rvalue => moved item old

/-- How far a call of `push` has come. -/
inductive Push (α : Type) where
  | idle
  | loadedHead (overload : Overload) (item : α) (head : ℕ)
  | loadedTail (overload : Overload) (item : α) (head tail : ℕ)
  /-- The slot is written, `_head` not yet stored. -/
  | written (item left : α) (next : ℕ)

/-- How far a call of `pop` has come; `out` is what its argument refers to. -/
inductive Pop (α : Type) where
  | idle
  | loadedTail (out : α) (tail : ℕ)
  | loadedHead (out : α) (tail head : ℕ)
  /-- The slot is read, `_tail` not yet stored. -/
  | read (item : α) (tail : ℕ)

structure State (α : Type) where
  queue : SPSCQueue α
  push  : Push α
  pop   : Pop α

def start (capacity : ℕ) (blank : α) : State α := ⟨.new capacity blank, .idle, .idle⟩

/-- The steps of both threads, with what they access and return. -/
inductive Event (α : Type) where
  | pushLoadHead (overload : Overload) (item : α)
  | pushLoadTail
  /-- `push` returns `false`; its caller still has `left`. -/
  | pushFail (left : α)
  | pushWrite (slot : ℕ) (item : α)
  /-- `push` stores `_head` and returns `true`. -/
  | pushStore (item left : α)
  | popLoadTail (out : α)
  | popLoadHead
  /-- `pop` returns `false`; its argument is still `out`. -/
  | popFail (out : α)
  | popRead (slot : ℕ) (item : α)
  /-- `pop` stores `_tail` and returns `true`. -/
  | popStore (item : α)

namespace Event

/-- The event is a step of the consumer. -/
def OfPop : Event α → Prop
  | .popLoadTail _ | .popLoadHead | .popFail _ | .popRead _ _ | .popStore _ => True
  | _ => False

/-- The event is a step of the producer. -/
def OfPush : Event α → Prop
  | .pushLoadHead _ _ | .pushLoadTail | .pushFail _ | .pushWrite _ _ | .pushStore _ _ => True
  | _ => False

end Event

inductive Step (moved : α → α → α) : State α → Event α → State α → Prop where
  | pushLoadHead (s : State α) (overload : Overload) (item : α) : s.push = .idle →
      Step moved s (.pushLoadHead overload item)
        { s with push := .loadedHead overload item s.queue.head }
  | pushLoadTail (s : State α) (overload : Overload) (item : α) (head : ℕ) :
      s.push = .loadedHead overload item head →
      Step moved s .pushLoadTail
        { s with push := .loadedTail overload item head s.queue.tail }
  | pushFail (s : State α) (overload : Overload) (item : α) (head tail : ℕ) :
      s.push = .loadedTail overload item head tail → s.queue.next head = tail →
      Step moved s (.pushFail item) { s with push := .idle }
  | pushWrite (s : State α) (overload : Overload) (item old : α) (head tail : ℕ) :
      s.push = .loadedTail overload item head tail → s.queue.next head ≠ tail →
      s.queue.buffer[head]? = some old →
      Step moved s (.pushWrite head item)
        { s with
          queue := { s.queue with buffer := s.queue.buffer.set head item }
          push  := .written item (overload.left moved item old) (s.queue.next head) }
  | pushStore (s : State α) (item left : α) (next : ℕ) : s.push = .written item left next →
      Step moved s (.pushStore item left)
        { s with queue := { s.queue with head := next }, push := .idle }
  | popLoadTail (s : State α) (out : α) : s.pop = .idle →
      Step moved s (.popLoadTail out) { s with pop := .loadedTail out s.queue.tail }
  | popLoadHead (s : State α) (out : α) (tail : ℕ) : s.pop = .loadedTail out tail →
      Step moved s .popLoadHead { s with pop := .loadedHead out tail s.queue.head }
  | popFail (s : State α) (out : α) (tail head : ℕ) : s.pop = .loadedHead out tail head →
      tail = head →
      Step moved s (.popFail out) { s with pop := .idle }
  | popRead (s : State α) (out item : α) (tail head : ℕ) : s.pop = .loadedHead out tail head →
      tail ≠ head → s.queue.buffer[tail]? = some item →
      Step moved s (.popRead tail item)
        { s with
          -- The move leaves something else in the slot.
          queue := { s.queue with buffer := s.queue.buffer.set tail (moved item out) }
          pop   := .read item tail }
  | popStore (s : State α) (item : α) (tail : ℕ) : s.pop = .read item tail →
      Step moved s (.popStore item)
        { s with queue := { s.queue with tail := s.queue.next tail }, pop := .idle }

/-! ### Reading a history -/

/-- The slots written and what was written to them. -/
def written (es : List (Event α)) : List (ℕ × α) :=
  es.filterMap fun e => match e with
    | .pushWrite slot item => some (slot, item)
    | _ => none

/-- The items of the calls of `push` that returned `true`. -/
def pushed (es : List (Event α)) : List α :=
  es.filterMap fun e => match e with
    | .pushStore item _ => some item
    | _ => none

/-- The slots read and what was read from them. -/
def taken (es : List (Event α)) : List (ℕ × α) :=
  es.filterMap fun e => match e with
    | .popRead slot item => some (slot, item)
    | _ => none

/-- The items of the calls of `pop` that returned `true`. -/
def popped (es : List (Event α)) : List α :=
  es.filterMap fun e => match e with
    | .popStore item => some item
    | _ => none

end SPSCQueue
end Orderbook
