import Orderbook.Routing
import Orderbook.SpscQueue

/-! # The threads, access by access

    `producer.h` and `worker.h` over the queues of `spsc_queue.h`: a call of
    `push` or `pop` is the steps of the queue, and between any two of them the
    other threads may do anything.  The rest of `submit`, of the shutdown loop
    and of `run` works on what only its own thread writes.  `process_command`
    is one step: all it shares with other threads is the allocator, and it
    accesses that at most once. -/

namespace Orderbook

/-- A step of `submit_all_shutdown_commands` that accesses no queue. -/
inductive ShutdownLoop {numWorkers : ℕ} :
    ProducerState numWorkers → ProducerState numWorkers → Prop where
  | call : ShutdownLoop .submitting (.checking (fun _ => false) 0)
  | enterRound (submitted : Fin numWorkers → Bool) (count : ℕ) : count ≠ numWorkers →
      ShutdownLoop (.checking submitted count) (.visiting submitted count 0)
  | leave (submitted : Fin numWorkers → Bool) (count : ℕ) : count = numWorkers →
      ShutdownLoop (.checking submitted count) .returned
  | leaveRound (submitted : Fin numWorkers → Bool) (count i : ℕ) : ¬ i < numWorkers →
      ShutdownLoop (.visiting submitted count i) (.checking submitted count)
  | skipWorker (submitted : Fin numWorkers → Bool) (count : ℕ) (w : Fin numWorkers) :
      submitted w = true →
      ShutdownLoop (.visiting submitted count w) (.visiting submitted count (w + 1))

namespace SPSCQueue.Event
variable {α : Type}

/-- The steps of `push` between its first load and its return. -/
def InsidePush : Event α → Prop
  | .pushLoadTail | .pushWrite _ _ => True
  | _ => False

/-- The steps of `pop` after its first load, but for the last one of a call
    that returns `true`. -/
def InsidePop : Event α → Prop
  | .popLoadHead | .popFail _ | .popRead _ _ => True
  | _ => False

end SPSCQueue.Event

structure Threads (P : Type) [LT P] (numWorkers : ℕ) where
  alloc        : IdAllocator
  router       : InstrumentMap (Fin numWorkers)
  queues       : Fin numWorkers → SPSCQueue.State (OrderCommand P)
  producer     : ProducerState numWorkers
  /-- The worker on whose queue a `push` of the producer is at work. -/
  pushing      : Option (Fin numWorkers)
  workers      : Fin numWorkers → Worker P
  workerStates : Fin numWorkers → WorkerState P
  /-- The variable `cmd` of every `run`. -/
  cmds         : Fin numWorkers → OrderCommand P

namespace Threads
variable {P : Type} [LinearOrder P] [Zero P] {numWorkers : ℕ}

/-- The system as built, with queues of `capacity` slots. -/
def start [NeZero numWorkers] (instruments : List Instrument) (alloc : IdAllocator)
    (capacity totalReserveSpace : ℕ) (clock : Clock) (blank : OrderCommand P) :
    Threads P numWorkers :=
  let x : System P numWorkers (capacity - 1) := .start instruments alloc totalReserveSpace clock
  { alloc        := x.alloc
    router       := x.router
    queues       := fun _ => SPSCQueue.start capacity blank
    producer     := x.producer
    pushing      := none
    workers      := x.workers
    workerStates := x.workerStates
    cmds         := fun _ => blank }

inductive Event (P : Type) (numWorkers : ℕ) where
  /-- A call of `submit` whose router does not know the instrument. -/
  | submitUnknown (cmd : OrderCommand P)
  /-- A step of the `push` that `submit` calls. -/
  | submit (w : Fin numWorkers) (e : SPSCQueue.Event (OrderCommand P))
  | shutdownLoop
  /-- A step of the `push` that `submit_all_shutdown_commands` calls. -/
  | pushShutdown (w : Fin numWorkers) (e : SPSCQueue.Event (OrderCommand P))
  /-- A step of the `pop` that the `run` of worker `w` calls. -/
  | pop (w : Fin numWorkers) (e : SPSCQueue.Event (OrderCommand P))
  | process (w : Fin numWorkers) (cmd : OrderCommand P) (clock : Clock) (found : Bool)

inductive Step (moved : OrderCommand P → OrderCommand P → OrderCommand P) :
    Threads P numWorkers → Event P numWorkers → Threads P numWorkers → Prop where
  | submitUnknown (t : Threads P numWorkers) (cmd : OrderCommand P) :
      t.producer = .submitting → t.pushing = none → t.router.find? cmd.order.instrument = none →
      Step moved t (.submitUnknown cmd) t
  | submitCall (t : Threads P numWorkers) (overload : SPSCQueue.Overload) (cmd : OrderCommand P)
      (w : Fin numWorkers) (q : SPSCQueue.State (OrderCommand P)) :
      t.producer = .submitting → t.pushing = none →
      t.router.find? cmd.order.instrument = some w →
      SPSCQueue.Step moved (t.queues w) (.pushLoadHead overload cmd) q →
      Step moved t (.submit w (.pushLoadHead overload cmd))
        { t with queues := Function.update t.queues w q, pushing := some w }
  | submitStep (t : Threads P numWorkers) (w : Fin numWorkers)
      (e : SPSCQueue.Event (OrderCommand P)) (q : SPSCQueue.State (OrderCommand P)) :
      t.producer = .submitting → t.pushing = some w → e.InsidePush →
      SPSCQueue.Step moved (t.queues w) e q →
      Step moved t (.submit w e) { t with queues := Function.update t.queues w q }
  | submitFalse (t : Threads P numWorkers) (w : Fin numWorkers) (left : OrderCommand P)
      (q : SPSCQueue.State (OrderCommand P)) : t.producer = .submitting → t.pushing = some w →
      SPSCQueue.Step moved (t.queues w) (.pushFail left) q →
      Step moved t (.submit w (.pushFail left))
        { t with queues := Function.update t.queues w q, pushing := none }
  | submitTrue (t : Threads P numWorkers) (w : Fin numWorkers) (cmd left : OrderCommand P)
      (q : SPSCQueue.State (OrderCommand P)) : t.producer = .submitting → t.pushing = some w →
      SPSCQueue.Step moved (t.queues w) (.pushStore cmd left) q →
      Step moved t (.submit w (.pushStore cmd left))
        { t with queues := Function.update t.queues w q, pushing := none }
  | shutdownLoop (t : Threads P numWorkers) (p : ProducerState numWorkers) :
      t.pushing = none → ShutdownLoop t.producer p →
      Step moved t .shutdownLoop { t with producer := p }
  /-- `shutdown_cmd` is pushed as an lvalue. -/
  | shutdownCall (t : Threads P numWorkers) (submitted : Fin numWorkers → Bool) (count : ℕ)
      (w : Fin numWorkers) (now : TimePoint) (q : SPSCQueue.State (OrderCommand P)) :
      t.producer = .visiting submitted count w → t.pushing = none → submitted w = false →
      SPSCQueue.Step moved (t.queues w) (.pushLoadHead .constRef (System.shutdownCmd now)) q →
      Step moved t (.pushShutdown w (.pushLoadHead .constRef (System.shutdownCmd now)))
        { t with queues := Function.update t.queues w q, pushing := some w }
  | shutdownStep (t : Threads P numWorkers) (submitted : Fin numWorkers → Bool) (count : ℕ)
      (w : Fin numWorkers) (e : SPSCQueue.Event (OrderCommand P))
      (q : SPSCQueue.State (OrderCommand P)) :
      t.producer = .visiting submitted count w → t.pushing = some w → e.InsidePush →
      SPSCQueue.Step moved (t.queues w) e q →
      Step moved t (.pushShutdown w e) { t with queues := Function.update t.queues w q }
  | shutdownFalse (t : Threads P numWorkers) (submitted : Fin numWorkers → Bool) (count : ℕ)
      (w : Fin numWorkers) (left : OrderCommand P) (q : SPSCQueue.State (OrderCommand P)) :
      t.producer = .visiting submitted count w → t.pushing = some w →
      SPSCQueue.Step moved (t.queues w) (.pushFail left) q →
      Step moved t (.pushShutdown w (.pushFail left))
        { t with
          queues := Function.update t.queues w q
          producer := .visiting submitted count (w + 1)
          pushing := none }
  | shutdownTrue (t : Threads P numWorkers) (submitted : Fin numWorkers → Bool) (count : ℕ)
      (w : Fin numWorkers) (cmd left : OrderCommand P) (q : SPSCQueue.State (OrderCommand P)) :
      t.producer = .visiting submitted count w → t.pushing = some w →
      SPSCQueue.Step moved (t.queues w) (.pushStore cmd left) q →
      Step moved t (.pushShutdown w (.pushStore cmd left))
        { t with
          queues := Function.update t.queues w q
          producer := .visiting (Function.update submitted w true) (count + 1) (w + 1)
          pushing := none }
  | popCall (t : Threads P numWorkers) (w : Fin numWorkers)
      (q : SPSCQueue.State (OrderCommand P)) : t.workerStates w = .polling →
      SPSCQueue.Step moved (t.queues w) (.popLoadTail (t.cmds w)) q →
      Step moved t (.pop w (.popLoadTail (t.cmds w)))
        { t with queues := Function.update t.queues w q }
  | popStep (t : Threads P numWorkers) (w : Fin numWorkers)
      (e : SPSCQueue.Event (OrderCommand P)) (q : SPSCQueue.State (OrderCommand P)) :
      t.workerStates w = .polling → e.InsidePop → SPSCQueue.Step moved (t.queues w) e q →
      Step moved t (.pop w e) { t with queues := Function.update t.queues w q }
  /-- `pop` returns `true`; a `SHUTDOWN` breaks the loop. -/
  | popTrue (t : Threads P numWorkers) (w : Fin numWorkers) (cmd : OrderCommand P)
      (q : SPSCQueue.State (OrderCommand P)) : t.workerStates w = .polling →
      SPSCQueue.Step moved (t.queues w) (.popStore cmd) q →
      Step moved t (.pop w (.popStore cmd))
        { t with
          queues := Function.update t.queues w q
          workerStates := Function.update t.workerStates w
            (if cmd.type = .shutdown then .stopped else .popped cmd)
          cmds := Function.update t.cmds w cmd }
  | process (t : Threads P numWorkers) (w : Fin numWorkers) (cmd : OrderCommand P)
      (clock : Clock) (found : Bool) (worker : Worker P) (alloc : IdAllocator) :
      t.workerStates w = .popped cmd →
      (t.workers w).processCommand t.alloc cmd clock = .ok (found, worker, alloc) →
      Step moved t (.process w cmd clock found)
        { t with
          alloc := alloc
          workers := Function.update t.workers w worker
          workerStates := Function.update t.workerStates w .polling }

/-- `submit` is called with `ADD`, `MODIFY` and `CANCEL` commands. -/
def ClientCommand (_ : Threads P numWorkers) (e : Event P numWorkers) : Prop :=
  match e with
  | .submitUnknown cmd => cmd.type ≠ .shutdown
  | .submit _ (.pushLoadHead _ cmd) => cmd.type ≠ .shutdown
  | _ => True

/-! ### Reading a history -/

/-- The calls of `submit` that have returned: the command, as the queue took
    it in or as it was left to the caller, and the result. -/
def returned (es : List (Event P numWorkers)) : List (OrderCommand P × Bool) :=
  es.filterMap fun e => match e with
    | .submitUnknown cmd => some (cmd, false)
    | .submit _ (.pushFail left) => some (left, false)
    | .submit _ (.pushStore cmd _) => some (cmd, true)
    | _ => none

/-- The commands that worker `w` has processed, with their clocks. -/
def processedBy (w : Fin numWorkers) (es : List (Event P numWorkers)) :
    List (OrderCommand P × Clock) :=
  es.filterMap fun e => match e with
    | .process w' cmd clock _ => if w' = w then some (cmd, clock) else none
    | _ => none

/-- The steps of the queue of worker `w`. -/
def queueEvents (w : Fin numWorkers) (es : List (Event P numWorkers)) :
    List (SPSCQueue.Event (OrderCommand P)) :=
  es.filterMap fun e => match e with
    | .submit w' e => if w' = w then some e else none
    | .pushShutdown w' e => if w' = w then some e else none
    | .pop w' e => if w' = w then some e else none
    | _ => none

end Threads
end Orderbook
