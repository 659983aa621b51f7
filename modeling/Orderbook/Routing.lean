import Orderbook.Session
import Orderbook.Lib.Channel
import Mathlib.Data.String.Basic
import Mathlib.Data.Fintype.Card

/-! # Routing commands to workers

    `order_routing_system.h`, `producer.h` and `worker.h`: instruments are
    dealt out to the workers round-robin, one producer thread submits each
    command to the queue of its instrument's worker, and every worker applies
    the commands of its queue to its books until it meets a `SHUTDOWN`.

    A queue is a bounded FIFO channel.  The vectors with one element for each
    worker are functions on `Fin numWorkers`. -/

namespace Orderbook

inductive CommandType where
  | add
  | modify
  | cancel
  /-- The poison pill that stops a worker. -/
  | shutdown
  deriving DecidableEq, Repr

structure OrderCommand (P : Type) where
  type  : CommandType
  order : Order P
  deriving DecidableEq

/-- `std::unordered_map` and `boost::unordered_flat_map` keyed by instrument. -/
abbrev InstrumentMap (V : Type) : Type := SortedMap (· < · : Instrument → Instrument → Prop) V

/-! ### Building the system -/

structure WorkerContext (P : Type) [LT P] (bound : ℕ) where
  orderbooks                : List (OrderBook P)
  queue                     : Channel (OrderCommand P) bound
  reserveSpacePerInstrument : ℕ

structure OrderRoutingSystem (P : Type) [LT P] (numWorkers bound : ℕ) where
  workerContexts   : Fin numWorkers → WorkerContext P bound
  instrumentRouter : InstrumentMap (Fin numWorkers)

section Build
variable {P : Type} [LinearOrder P] [Zero P] {numWorkers bound : ℕ}

/-- The body of the first loop of `build_order_routing_system`. -/
def assignInstrument [NeZero numWorkers]
    (acc : (Fin numWorkers → List Instrument) × InstrumentMap (Fin numWorkers))
    (e : Instrument × ℕ) : (Fin numWorkers → List Instrument) × InstrumentMap (Fin numWorkers) :=
  let allocatedWorkerIdx := Fin.ofNat numWorkers e.2
  (Function.update acc.1 allocatedWorkerIdx (acc.1 allocatedWorkerIdx ++ [e.1]),
    (acc.2.tryEmplace e.1 allocatedWorkerIdx).1)

/-- The instruments of each worker, and the router. -/
def assignInstruments [NeZero numWorkers] (instruments : List Instrument) :
    (Fin numWorkers → List Instrument) × InstrumentMap (Fin numWorkers) :=
  instruments.zipIdx.foldl assignInstrument (fun _ => [], .empty)

/-- The loop of the `WorkerContext` constructor: one book for each instrument. -/
def buildOrderbooks (instruments : List Instrument) (alloc : IdAllocator) (clock : Clock) :
    List (OrderBook P) × IdAllocator × Clock :=
  match instruments with
  | [] => ([], alloc, clock)
  | instrument :: instruments =>
    let (book, alloc) := OrderBook.new instrument alloc clock
    let (books, alloc, clock) := buildOrderbooks instruments alloc (clock.skip SPACE_RESERVE)
    (book :: books, alloc, clock)

/-- The body of the second loop: the context of worker `w`. -/
def addWorkerContext (sets : Fin numWorkers → List Instrument) (reserveSpace : ℕ)
    (acc : (Fin numWorkers → WorkerContext P bound) × IdAllocator × Clock)
    (w : Fin numWorkers) : (Fin numWorkers → WorkerContext P bound) × IdAllocator × Clock :=
  let (books, alloc, clock) := buildOrderbooks (sets w) acc.2.1 acc.2.2
  (Function.update acc.1 w
    { orderbooks := books, queue := .empty, reserveSpacePerInstrument := reserveSpace },
    alloc, clock)

/-- `build_order_routing_system`; the queues have one slot more than the
    `bound` of their channels. -/
def buildOrderRoutingSystem [NeZero numWorkers] (instruments : List Instrument)
    (alloc : IdAllocator) (totalReserveSpace : ℕ) (clock : Clock) :
    OrderRoutingSystem P numWorkers bound × IdAllocator :=
  let reserveSpace := totalReserveSpace / instruments.length + 1
  let (sets, router) := assignInstruments instruments
  let (contexts, alloc, _) := (List.finRange numWorkers).foldl (addWorkerContext sets reserveSpace)
    (fun _ => ⟨[], .empty, 0⟩, alloc, clock)
  (⟨contexts, router⟩, alloc)

end Build

/-! ### Workers -/

structure Worker (P : Type) [LT P] where
  books : InstrumentMap (OrderBook P)

namespace Worker
variable {P : Type} [LinearOrder P] [Zero P]

/-- The constructor: of two books for one instrument the first one stays. -/
def ofBooks (orderbooks : List (OrderBook P)) : Worker P :=
  ⟨orderbooks.foldl (fun books book => (books.tryEmplace book.instrument book).1) .empty⟩

/-- The `switch` of `process_command`; it has no case for `SHUTDOWN`. -/
def applyCommand (book : OrderBook P) (alloc : IdAllocator) (cmd : OrderCommand P) (clock : Clock) :
    Except Fault (OrderBook P × IdAllocator) :=
  match cmd.type with
  | .add => do
    let (_, book, alloc) ← book.addOrder alloc cmd.order clock
    .ok (book, alloc)
  | .modify => do
    let (_, book) ← book.modifyOrder cmd.order.id cmd.order.price cmd.order.quantity clock
    .ok (book, alloc)
  | .cancel => do
    let (_, book) ← book.cancelOrder cmd.order.id clock
    .ok (book, alloc)
  | .shutdown => .ok (book, alloc)

/-- `process_command`: whether the book was found, the worker and the
    allocator afterwards. -/
def processCommand (worker : Worker P) (alloc : IdAllocator) (cmd : OrderCommand P)
    (clock : Clock) : Except Fault (Bool × Worker P × IdAllocator) :=
  match worker.books.find? cmd.order.instrument with
  | none => .ok (false, worker, alloc)
  | some book => do
    let (book, alloc) ← applyCommand book alloc cmd clock
    .ok (true, ⟨worker.books.insert cmd.order.instrument book⟩, alloc)

end Worker

/-! ### The threads together -/

/-- Where the producer thread stands: still calling `submit`, or inside
    `submit_all_shutdown_commands`, with its two local variables. -/
inductive ProducerState (numWorkers : ℕ) where
  | submitting
  /-- At the test of the `while`. -/
  | checking (submitted : Fin numWorkers → Bool) (count : ℕ)
  /-- At the test of the `for`. -/
  | visiting (submitted : Fin numWorkers → Bool) (count i : ℕ)
  | returned

/-- Where a worker thread stands in its `run`. -/
inductive WorkerState (P : Type) where
  | polling
  | popped (cmd : OrderCommand P)
  | stopped

structure System (P : Type) [LT P] (numWorkers bound : ℕ) where
  alloc        : IdAllocator
  router       : InstrumentMap (Fin numWorkers)
  queues       : Fin numWorkers → Channel (OrderCommand P) bound
  producer     : ProducerState numWorkers
  workers      : Fin numWorkers → Worker P
  workerStates : Fin numWorkers → WorkerState P

namespace System
variable {P : Type} [LinearOrder P] [Zero P] {numWorkers bound : ℕ}

/-- The system as built, its workers constructed and about to `run`. -/
def start [NeZero numWorkers] (instruments : List Instrument) (alloc : IdAllocator)
    (totalReserveSpace : ℕ) (clock : Clock) : System P numWorkers bound :=
  let (sys, alloc) := buildOrderRoutingSystem instruments alloc totalReserveSpace clock
  { alloc        := alloc
    router       := sys.instrumentRouter
    queues       := fun w => (sys.workerContexts w).queue
    producer     := .submitting
    workers      := fun w => .ofBooks (sys.workerContexts w).orderbooks
    workerStates := fun _ => .polling }

inductive Event (P : Type) (numWorkers : ℕ) where
  /-- A call of `submit`, of either overload, and what it returned. -/
  | submit (cmd : OrderCommand P) (accepted : Bool)
  /-- A local step of `submit_all_shutdown_commands`. -/
  | shutdownLoop
  | pushShutdown (w : Fin numWorkers) (cmd : OrderCommand P) (submitted : Bool)
  /-- A `pop` of worker `w`, and what it found. -/
  | pop (w : Fin numWorkers) (found : Option (OrderCommand P))
  /-- A call of `process_command` and what it returned. -/
  | process (w : Fin numWorkers) (cmd : OrderCommand P) (clock : Clock) (found : Bool)

/-- The command built by `submit_all_shutdown_commands`. -/
def shutdownCmd (now : TimePoint) : OrderCommand P := ⟨.shutdown, Order.blank now⟩

inductive Step : System P numWorkers bound → Event P numWorkers →
    System P numWorkers bound → Prop where
  | submitUnknown (x : System P numWorkers bound) (cmd : OrderCommand P) :
      x.producer = .submitting → x.router.find? cmd.order.instrument = none →
      Step x (.submit cmd false) x
  | submitFull (x : System P numWorkers bound) (cmd : OrderCommand P) (w : Fin numWorkers) :
      x.producer = .submitting → x.router.find? cmd.order.instrument = some w →
      (x.queues w).send cmd = none →
      Step x (.submit cmd false) x
  | submit (x : System P numWorkers bound) (cmd : OrderCommand P) (w : Fin numWorkers)
      (q : Channel (OrderCommand P) bound) :
      x.producer = .submitting → x.router.find? cmd.order.instrument = some w →
      (x.queues w).send cmd = some q →
      Step x (.submit cmd true) { x with queues := Function.update x.queues w q }
  | callShutdown (x : System P numWorkers bound) : x.producer = .submitting →
      Step x .shutdownLoop { x with producer := .checking (fun _ => false) 0 }
  | enterRound (x : System P numWorkers bound) (submitted : Fin numWorkers → Bool) (count : ℕ) :
      x.producer = .checking submitted count → count ≠ numWorkers →
      Step x .shutdownLoop { x with producer := .visiting submitted count 0 }
  | shutdownReturn (x : System P numWorkers bound) (submitted : Fin numWorkers → Bool) (count : ℕ) :
      x.producer = .checking submitted count → count = numWorkers →
      Step x .shutdownLoop { x with producer := .returned }
  | leaveRound (x : System P numWorkers bound) (submitted : Fin numWorkers → Bool) (count i : ℕ) :
      x.producer = .visiting submitted count i → ¬ i < numWorkers →
      Step x .shutdownLoop { x with producer := .checking submitted count }
  | skipWorker (x : System P numWorkers bound) (submitted : Fin numWorkers → Bool) (count : ℕ)
      (w : Fin numWorkers) : x.producer = .visiting submitted count w → submitted w = true →
      Step x .shutdownLoop { x with producer := .visiting submitted count (w + 1) }
  | shutdownFull (x : System P numWorkers bound) (submitted : Fin numWorkers → Bool) (count : ℕ)
      (w : Fin numWorkers) (now : TimePoint) : x.producer = .visiting submitted count w →
      submitted w = false → (x.queues w).send (shutdownCmd now) = none →
      Step x (.pushShutdown w (shutdownCmd now) false)
        { x with producer := .visiting submitted count (w + 1) }
  | pushShutdown (x : System P numWorkers bound) (submitted : Fin numWorkers → Bool) (count : ℕ)
      (w : Fin numWorkers) (now : TimePoint) (q : Channel (OrderCommand P) bound) :
      x.producer = .visiting submitted count w →
      submitted w = false → (x.queues w).send (shutdownCmd now) = some q →
      Step x (.pushShutdown w (shutdownCmd now) true)
        { x with
          queues := Function.update x.queues w q
          producer := .visiting (Function.update submitted w true) (count + 1) (w + 1) }
  | popEmpty (x : System P numWorkers bound) (w : Fin numWorkers) : x.workerStates w = .polling →
      (x.queues w).receive = none →
      Step x (.pop w none) x
  /-- A `SHUTDOWN` breaks the loop; anything else is processed next. -/
  | pop (x : System P numWorkers bound) (w : Fin numWorkers) (cmd : OrderCommand P)
      (q : Channel (OrderCommand P) bound) : x.workerStates w = .polling →
      (x.queues w).receive = some (cmd, q) →
      Step x (.pop w (some cmd))
        { x with
          queues := Function.update x.queues w q
          workerStates := Function.update x.workerStates w
            (if cmd.type = .shutdown then .stopped else .popped cmd) }
  | process (x : System P numWorkers bound) (w : Fin numWorkers) (cmd : OrderCommand P)
      (clock : Clock) (found : Bool) (worker : Worker P) (alloc : IdAllocator) :
      x.workerStates w = .popped cmd →
      (x.workers w).processCommand x.alloc cmd clock = .ok (found, worker, alloc) →
      Step x (.process w cmd clock found)
        { x with
          alloc := alloc
          workers := Function.update x.workers w worker
          workerStates := Function.update x.workerStates w .polling }

/-- `submit` is called with `ADD`, `MODIFY` and `CANCEL` commands. -/
def ClientCommand (_ : System P numWorkers bound) (e : Event P numWorkers) : Prop :=
  match e with
  | .submit cmd _ => cmd.type ≠ .shutdown
  | _ => True

/-! ### Reading a history -/

/-- The commands for which `submit` returned `true`. -/
def accepted (es : List (Event P numWorkers)) : List (OrderCommand P) :=
  es.filterMap fun e => match e with
    | .submit cmd true => some cmd
    | _ => none

/-- The accepted commands for one instrument. -/
def acceptedFor (instrument : Instrument) (es : List (Event P numWorkers)) :
    List (OrderCommand P) :=
  (accepted es).filter fun cmd => cmd.order.instrument = instrument

/-- What the queue of worker `w` has been sent. -/
def sentTo (router : InstrumentMap (Fin numWorkers)) (w : Fin numWorkers)
    (es : List (Event P numWorkers)) : List (OrderCommand P) :=
  es.filterMap fun e => match e with
    | .submit cmd true =>
      if router.find? cmd.order.instrument = some w then some cmd else none
    | .pushShutdown w' cmd true => if w' = w then some cmd else none
    | _ => none

/-- The commands that worker `w` has processed, with their clocks. -/
def processedBy (w : Fin numWorkers) (es : List (Event P numWorkers)) :
    List (OrderCommand P × Clock) :=
  es.filterMap fun e => match e with
    | .process w' cmd clock _ => if w' = w then some (cmd, clock) else none
    | _ => none

/-- The commands applied to the book that worker `w` keeps for an instrument. -/
def appliedTo (w : Fin numWorkers) (instrument : Instrument) (es : List (Event P numWorkers)) :
    List (OrderCommand P × Clock) :=
  (processedBy w es).filter fun e => e.1.order.instrument = instrument

end System

/-- The call of the book that a command stands for. -/
def OrderCommand.call {P : Type} (cmd : OrderCommand P) (clock : Clock) : Option (Event P) :=
  match cmd.type with
  | .add => some (.addOrder cmd.order clock)
  | .modify => some (.modifyOrder cmd.order.id cmd.order.price cmd.order.quantity clock)
  | .cancel => some (.cancelOrder cmd.order.id clock)
  | .shutdown => none

/-- The calls of a session, without the draws of other books. -/
def Session.calls {P : Type} (ls : List (Event P × Reply)) : List (Event P) :=
  ls.filterMap fun l => match l.1 with
    | .otherDraws => none
    | e => some e

end Orderbook
