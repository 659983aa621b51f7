import Orderbook.Linearization
import Orderbook.SystemIds

/-! # No thread waits for another

    In every state that the threads reach, each of them that has not come to
    its end can take its next step, whatever the others have done: the slots
    are in bounds, and no command makes a worker fail.  A call of `push` or
    `pop` returns after at most three more steps of its own thread. -/

namespace Orderbook

/-! ### One queue -/

namespace SPSCQueue
variable {α : Type} {moved : α → α → α} {e : Event α} {s s' : State α}

/-- The most steps that the call of `push` still takes. -/
def Push.left : Push α → ℕ
  | .idle => 0
  | .loadedHead _ _ _ => 3
  | .loadedTail _ _ _ _ => 2
  | .written _ _ _ => 1

/-- The most steps that the call of `pop` still takes. -/
def Pop.left : Pop α → ℕ
  | .idle => 0
  | .loadedTail _ _ => 3
  | .loadedHead _ _ _ => 2
  | .read _ _ => 1

namespace Event

/-- The call returns. -/
def Returns : Event α → Prop
  | .pushFail _ | .pushStore _ _ | .popFail _ | .popStore _ => True
  | _ => False

end Event

theorem Push.left_le (p : Push α) : p.left ≤ 3 := by
  cases p <;> simp [Push.left]

theorem Pop.left_le (p : Pop α) : p.left ≤ 3 := by
  cases p <;> simp [Pop.left]

theorem push_kind (hs : Step moved s e s') (he : e.OfPush) (hp : s.push ≠ .idle) :
    e.InsidePush ∨ (∃ left, e = .pushFail left) ∨ ∃ item left, e = .pushStore item left := by
  cases hs with
  | pushLoadHead overload item hidle => exact absurd hidle hp
  | pushLoadTail overload item head hpush => exact Or.inl trivial
  | pushFail overload item head tail hpush heq => exact Or.inr (Or.inl ⟨item, rfl⟩)
  | pushWrite overload item old head tail hpush hne hcell => exact Or.inl trivial
  | pushStore item left next hpush => exact Or.inr (Or.inr ⟨item, left, rfl⟩)
  | _ => exact False.elim he

theorem pop_kind (hs : Step moved s e s') (he : e.OfPop) (hp : s.pop ≠ .idle) :
    e.InsidePop ∨ ∃ item, e = .popStore item := by
  cases hs with
  | popLoadTail out hidle => exact absurd hidle hp
  | popLoadHead out tail hpop => exact Or.inl trivial
  | popFail out tail head hpop heq => exact Or.inl trivial
  | popRead out item tail head hpop hne hcell => exact Or.inl trivial
  | popStore item tail hpop => exact Or.inr ⟨item, rfl⟩
  | _ => exact False.elim he

/-- A step of the producer inside a call brings it nearer to its end. -/
theorem push_left_of_inside (hs : Step moved s e s')
    (he : e.InsidePush) : 0 < s'.push.left ∧ s'.push.left + 1 = s.push.left := by
  cases hs with
  | pushLoadTail overload item head hp => simp [hp, Push.left]
  | pushWrite overload item old head tail hp hne hcell => simp [hp, Push.left]
  | _ => exact False.elim he

theorem pop_left_of_inside (hs : Step moved s e s')
    (he : e.InsidePop) : e.Returns ∨ 0 < s'.pop.left ∧ s'.pop.left + 1 = s.pop.left := by
  cases hs with
  | popLoadHead out tail hp => exact Or.inr (by simp [hp, Pop.left])
  | popFail out tail head hp heq => exact Or.inl trivial
  | popRead out item tail head hp hne hcell => exact Or.inr (by simp [hp, Pop.left])
  | _ => exact False.elim he

/-- The producer does not touch the call of the consumer. -/
theorem pop_of_push (hs : Step moved s e s') (he : e.OfPush) :
    s'.pop = s.pop := by
  cases hs with
  | pushLoadHead overload item hp => rfl
  | pushLoadTail overload item head hp => rfl
  | pushFail overload item head tail hp heq => rfl
  | pushWrite overload item old head tail hp hne hcell => rfl
  | pushStore item left next hp => rfl
  | _ => exact False.elim he

end SPSCQueue

namespace Threads
variable {P : Type} [LinearOrder P] {numWorkers : ℕ}
  {moved : OrderCommand P → OrderCommand P → OrderCommand P} {capacity : ℕ}
  {es : List (Event P numWorkers)} {t t' : Threads P numWorkers}
  {cs : List (System.Event P numWorkers)} {x : System P numWorkers (capacity - 1)}

/-! ### The steps of a thread -/

/-- The thread that takes the step: a worker, or the producer. -/
def Event.thread : Event P numWorkers → Option (Fin numWorkers)
  | .pop w _ => some w
  | .process w _ _ _ => some w
  | _ => none

/-- The call of `push` or `pop` that the thread is in returns. -/
def Event.Returns : Event P numWorkers → Prop
  | .submit _ e => e.Returns
  | .pushShutdown _ e => e.Returns
  | .pop _ e => e.Returns
  | _ => False

/-- The thread has nothing left to do. -/
def Finished (t : Threads P numWorkers) : Option (Fin numWorkers) → Prop
  | none => t.producer = .returned
  | some w => t.workerStates w = .stopped

/-- The most steps that the thread still takes in the call it is in. -/
def callLeft (t : Threads P numWorkers) : Option (Fin numWorkers) → ℕ
  | none =>
    match t.pushing with
    | some w => (t.queues w).push.left
    | none => 0
  | some w => (t.queues w).pop.left

/-! ### The calls of the other threads -/

omit [LinearOrder P] in
theorem ofPush_of_inside {e : SPSCQueue.Event (OrderCommand P)} (he : e.InsidePush) : e.OfPush := by
  cases e <;> first | exact False.elim he | trivial

theorem pop_update {w : Fin numWorkers} {e : SPSCQueue.Event (OrderCommand P)}
    {q : SPSCQueue.State (OrderCommand P)} (hq : SPSCQueue.Step moved (t.queues w) e q)
    (he : e.OfPush) (v : Fin numWorkers) :
    (Function.update t.queues w q v).pop = (t.queues v).pop := by
  by_cases hv : v = w
  · subst hv
    rw [Function.update_self, SPSCQueue.pop_of_push hq he]
  · rw [Function.update_of_ne hv]

/-- A call of `pop` is touched by its own worker only. -/
theorem pop_of_other [Zero P] {e : Event P numWorkers} (hs : Step moved t e t') {w : Fin numWorkers}
    (hne : e.thread ≠ some w) : (t'.queues w).pop = (t.queues w).pop := by
  -- Another worker has a queue of its own.
  have hother : ∀ {v : Fin numWorkers} {q : SPSCQueue.State (OrderCommand P)}, some v ≠ some w →
      (Function.update t.queues v q w).pop = (t.queues w).pop := by
    intro v q hv
    rw [Function.update_of_ne fun heq => hv (congrArg some heq.symm)]
  cases hs with
  | submitUnknown cmd hp hn hr => rfl
  | submitCall overload cmd v q hp hn hr hq => exact pop_update hq trivial w
  | submitStep v e q hp hn he hq => exact pop_update hq (ofPush_of_inside he) w
  | submitFalse v left q hp hn hq => exact pop_update hq trivial w
  | submitTrue v cmd left q hp hn hq => exact pop_update hq trivial w
  | shutdownLoop p hn hloop => rfl
  | shutdownCall submitted count v now q hp hn hflag hq => exact pop_update hq trivial w
  | shutdownStep submitted count v e q hp hn he hq => exact pop_update hq (ofPush_of_inside he) w
  | shutdownFalse submitted count v left q hp hn hq => exact pop_update hq trivial w
  | shutdownTrue submitted count v cmd left q hp hn hq => exact pop_update hq trivial w
  | popCall v q hstate hq => exact hother hne
  | popStep v e q hstate he hq => exact hother hne
  | popTrue v cmd q hstate hq => exact hother hne
  | process v cmd clock found worker alloc hstate hok => rfl

/-- What the producer is doing, a worker leaves as it is. -/
structure SameCall (t t' : Threads P numWorkers) : Prop where
  producer_eq : t'.producer = t.producer
  pushing_eq : t'.pushing = t.pushing
  push_eq : ∀ w, (t'.queues w).push = (t.queues w).push
  rejects_eq : ∀ w, (t'.queues w).rejects = (t.queues w).rejects

theorem sameCall_of_pop {u : Threads P numWorkers} {w : Fin numWorkers}
    {e : SPSCQueue.Event (OrderCommand P)} {q : SPSCQueue.State (OrderCommand P)}
    (hq : SPSCQueue.Step moved (t.queues w) e q) (he : e.OfPop)
    (hqueues : u.queues = Function.update t.queues w q) (hpushing : u.pushing = t.pushing)
    (hproducer : u.producer = t.producer) : SameCall t u := by
  have hsame : ∀ v, (u.queues v).push = (t.queues v).push ∧
      (u.queues v).rejects = (t.queues v).rejects := by
    intro v
    rw [hqueues]
    by_cases hv : v = w
    · subst hv
      rw [Function.update_self]
      exact SPSCQueue.push_of_pop hq he
    · rw [Function.update_of_ne hv]
      exact ⟨rfl, rfl⟩
  exact ⟨hproducer, hpushing, fun v => (hsame v).1, fun v => (hsame v).2⟩

theorem sameCall_of_worker [Zero P] {e : Event P numWorkers} (hs : Step moved t e t')
    (hne : e.thread ≠ none) : SameCall t t' := by
  cases hs with
  | popCall w q hstate hq => exact sameCall_of_pop hq trivial rfl rfl rfl
  | popStep w e q hstate he hq => exact sameCall_of_pop hq (quiet_of_insidePop he).2 rfl rfl rfl
  | popTrue w cmd q hstate hq => exact sameCall_of_pop hq trivial rfl rfl rfl
  | process w cmd clock found worker alloc hstate hok =>
    exact ⟨rfl, rfl, fun _ => rfl, fun _ => rfl⟩
  | _ => exact absurd rfl hne

theorem callLeft_of_other [Zero P] {e : Event P numWorkers} (hs : Step moved t e t')
    {thread : Option (Fin numWorkers)} (hne : e.thread ≠ thread) :
    t'.callLeft thread = t.callLeft thread := by
  cases thread with
  | none =>
    have hsame := sameCall_of_worker hs hne
    unfold callLeft
    rw [hsame.pushing_eq]
    simp only [hsame.push_eq]
  | some w =>
    show (t'.queues w).pop.left = (t.queues w).pop.left
    rw [pop_of_other hs hne]

/-! ### Every call returns -/

/-- A worker that has a command in hand, or has stopped, is in no call. -/
def PopsWhilePolling (t : Threads P numWorkers) : Prop :=
  ∀ w, t.workerStates w ≠ .polling → (t.queues w).pop = .idle

theorem PopsWhilePolling.pop_step (h : t.PopsWhilePolling) {w : Fin numWorkers}
    {q : SPSCQueue.State (OrderCommand P)} (hqueues : t'.queues = Function.update t.queues w q)
    (hown : t'.workerStates w = .polling ∨ q.pop = .idle)
    (hstates : ∀ w', w' ≠ w → t'.workerStates w' = t.workerStates w') : t'.PopsWhilePolling := by
  intro w' hw'
  rw [hqueues]
  by_cases hw : w' = w
  · subst hw
    rw [Function.update_self]
    exact hown.resolve_left hw'
  · rw [Function.update_of_ne hw]
    rw [hstates w' hw] at hw'
    exact h w' hw'

theorem PopsWhilePolling.step [Zero P] (h : t.PopsWhilePolling) {e : Event P numWorkers}
    (hs : Step moved t e t') : t'.PopsWhilePolling := by
  -- The producer touches neither the calls of the workers nor their states.
  have hpush : e.thread = none → t'.workerStates = t.workerStates → t'.PopsWhilePolling := by
    intro hthread hstates w hw
    rw [hstates] at hw
    rw [pop_of_other hs (by rw [hthread]; exact (Option.some_ne_none w).symm)]
    exact h w hw
  cases hs with
  | popCall w q hstate hq => exact h.pop_step rfl (Or.inl hstate) fun _ _ => rfl
  | popStep w e q hstate he hq => exact h.pop_step rfl (Or.inl hstate) fun _ _ => rfl
  | popTrue w cmd q hstate hq =>
    refine h.pop_step rfl (Or.inr ?_) fun w' hw => Function.update_of_ne hw _ _
    cases hq with
    | popStore item tail hp => rfl
  | process w cmd clock found worker alloc hstate hok =>
    intro w' hw'
    by_cases hw : w' = w
    · subst hw
      exact h w' (by rw [hstate]; intro heq; cases heq)
    · have hw' : Function.update t.workerStates w .polling w' ≠ .polling := hw'
      rw [Function.update_of_ne hw] at hw'
      exact h w' hw'
  | _ => exact hpush rfl rfl

/-- What a step does to the call of its thread: the call returns or comes
    nearer to its end. -/
def Nears (t : Threads P numWorkers) (e : Event P numWorkers) (t' : Threads P numWorkers) : Prop :=
  0 < t.callLeft e.thread → e.Returns ∨
    0 < t'.callLeft e.thread ∧ t'.callLeft e.thread + 1 = t.callLeft e.thread

theorem callLeft_of_pushing {w : Fin numWorkers} (h : t.pushing = some w) :
    t.callLeft none = (t.queues w).push.left := by
  simp [callLeft, h]

theorem callLeft_of_idle (h : t.pushing = none) : t.callLeft none = 0 := by
  simp [callLeft, h]

/-- A step outside all calls. -/
theorem nears_of_zero {e : Event P numWorkers} (h : t.callLeft e.thread = 0) : Nears t e t' :=
  fun hpos => absurd h (Nat.ne_of_gt hpos)

theorem nears_of_insidePush {e : Event P numWorkers} {w : Fin numWorkers}
    {e' : SPSCQueue.Event (OrderCommand P)} {q : SPSCQueue.State (OrderCommand P)}
    (hq : SPSCQueue.Step moved (t.queues w) e' q) (he : e'.InsidePush)
    (hqueues : t'.queues = Function.update t.queues w q) (hn : t.pushing = some w)
    (hn' : t'.pushing = some w) (hthread : e.thread = none) : Nears t e t' := by
  intro _
  rw [hthread, callLeft_of_pushing hn, callLeft_of_pushing hn', hqueues, Function.update_self]
  exact Or.inr (SPSCQueue.push_left_of_inside hq he)

variable [Zero P]

theorem nears_of_step (h : t.PopsWhilePolling) {e : Event P numWorkers} (hs : Step moved t e t') :
    Nears t e t' := by
  cases hs with
  | submitUnknown cmd hp hn hr => exact nears_of_zero (callLeft_of_idle hn)
  | submitCall overload cmd w q hp hn hr hq => exact nears_of_zero (callLeft_of_idle hn)
  | submitStep w e q hp hn he hq => exact nears_of_insidePush hq he rfl hn hn rfl
  | submitFalse w left q hp hn hq => exact fun _ => Or.inl trivial
  | submitTrue w cmd left q hp hn hq => exact fun _ => Or.inl trivial
  | shutdownLoop p hn hloop => exact nears_of_zero (callLeft_of_idle hn)
  | shutdownCall submitted count w now q hp hn hflag hq =>
    exact nears_of_zero (callLeft_of_idle hn)
  | shutdownStep submitted count w e q hp hn he hq =>
    exact nears_of_insidePush hq he rfl hn hn rfl
  | shutdownFalse submitted count w left q hp hn hq => exact fun _ => Or.inl trivial
  | shutdownTrue submitted count w cmd left q hp hn hq => exact fun _ => Or.inl trivial
  | popCall w q hstate hq =>
    apply nears_of_zero
    cases hq with
    | popLoadTail out hidle => exact congrArg SPSCQueue.Pop.left hidle
  | popStep w e q hstate he hq =>
    intro _
    show e.Returns ∨ 0 < (Function.update t.queues w q w).pop.left ∧
      (Function.update t.queues w q w).pop.left + 1 = (t.queues w).pop.left
    rw [Function.update_self]
    exact SPSCQueue.pop_left_of_inside hq he
  | popTrue w cmd q hstate hq => exact fun _ => Or.inl trivial
  | process w cmd clock found worker alloc hstate hok =>
    -- Between `pop` and `process_command` the worker is in no call.
    exact nears_of_zero (congrArg SPSCQueue.Pop.left (h w (by rw [hstate]; intro heq; cases heq)))

/-- A call returns by the time its thread has taken the steps left to it,
    whatever the other threads do in the meantime. -/
theorem returns_of_path (hr : Path (Step moved) t es t') (h : t.PopsWhilePolling)
    {thread : Option (Fin numWorkers)} (hpos : 0 < t.callLeft thread)
    (hsteps : t.callLeft thread ≤ (es.filter fun e => e.thread = thread).length) :
    ∃ e ∈ es, e.thread = thread ∧ e.Returns := by
  -- Along the run only the steps of the thread itself count down.
  induction hr with
  | nil t => exact absurd hsteps (Nat.not_le_of_gt hpos)
  | @cons t t₁ t' e es hs hrest ih =>
    have hown := nears_of_step h hs
    by_cases hthread : e.thread = thread
    · subst hthread
      rw [List.filter_cons_of_pos (by simp), List.length_cons] at hsteps
      rcases hown hpos with hret | ⟨hpos₁, hleft⟩
      · exact ⟨e, List.mem_cons_self, rfl, hret⟩
      · obtain ⟨e', hmem, hret⟩ := ih (h.step hs) hpos₁ (by omega)
        exact ⟨e', List.mem_cons_of_mem _ hmem, hret⟩
    · have hsame := callLeft_of_other hs hthread
      rw [List.filter_cons_of_neg (by simpa using hthread), ← hsame] at hsteps
      rw [← hsame] at hpos
      obtain ⟨e', hmem, hret⟩ := ih (h.step hs) hpos hsteps
      exact ⟨e', List.mem_cons_of_mem _ hmem, hret⟩

/-! ### Every thread can go on -/

omit [Zero P] in
theorem clientCommand_of_inside {w : Fin numWorkers} {e : SPSCQueue.Event (OrderCommand P)}
    (he : e.InsidePush) : t.ClientCommand (.submit w e) := by
  cases e <;> first | exact False.elim he | trivial

/-- Inside a call of `push` the producer can go on. -/
theorem Inv.push_call_goes_on (h : Inv capacity es t) {w : Fin numWorkers}
    (hn : t.pushing = some w) :
    ∃ e t', e.thread = none ∧ Guarded ClientCommand (Step moved) t e t' := by
  obtain ⟨cmd, hitem, hoffer⟩ := h.offer w hn
  have hidle : (t.queues w).push ≠ .idle := by
    intro heq
    rw [heq] at hitem
    cases hitem
  obtain ⟨e, q, he, hq⟩ : ∃ e q, e.OfPush ∧ SPSCQueue.Step moved (t.queues w) e q :=
    (h.queue w).push_goes_on hidle
  -- The call is one of `submit` or one of the shutdown loop.
  generalize hp : t.producer = producer at hoffer
  cases producer with
  | submitting =>
    rcases SPSCQueue.push_kind hq he hidle with he | ⟨left, rfl⟩ | ⟨item, left, rfl⟩
    · exact ⟨_, _, rfl, clientCommand_of_inside he, .submitStep t w e q hp hn he hq⟩
    · exact ⟨.submit w (.pushFail left), _, rfl, trivial, .submitFalse t w left q hp hn hq⟩
    · exact ⟨.submit w (.pushStore item left), _, rfl, trivial,
        .submitTrue t w item left q hp hn hq⟩
  | visiting submitted count i =>
    obtain ⟨rfl, -⟩ := hoffer
    rcases SPSCQueue.push_kind hq he hidle with he | ⟨left, rfl⟩ | ⟨item, left, rfl⟩
    · exact ⟨.pushShutdown w e, _, rfl, trivial, .shutdownStep t submitted count w e q hp hn he hq⟩
    · exact ⟨.pushShutdown w (.pushFail left), _, rfl, trivial,
        .shutdownFalse t submitted count w left q hp hn hq⟩
    · exact ⟨.pushShutdown w (.pushStore item left), _, rfl, trivial,
        .shutdownTrue t submitted count w item left q hp hn hq⟩
  | checking submitted count => exact False.elim hoffer
  | returned => exact False.elim hoffer

theorem Inv.producer_goes_on (h : Inv capacity es t) (hp : t.producer ≠ .returned) :
    ∃ e t', e.thread = none ∧ Guarded ClientCommand (Step moved) t e t' := by
  cases hn : t.pushing with
  | some w => exact h.push_call_goes_on hn
  | none =>
    -- A step of the loops accesses no queue, or begins a call.
    have hloop : ∀ {before after}, t.producer = before → ShutdownLoop before after →
        ∃ e t', e.thread = none ∧ Guarded ClientCommand (Step moved) t e t' := by
      rintro _ after rfl hl
      exact ⟨.shutdownLoop, _, rfl, trivial, .shutdownLoop t after hn hl⟩
    cases hproducer : t.producer with
    | submitting => exact hloop hproducer .call
    | checking submitted count =>
      by_cases hcount : count = numWorkers
      · exact hloop hproducer (.leave submitted count hcount)
      · exact hloop hproducer (.enterRound submitted count hcount)
    | visiting submitted count i =>
      by_cases hi : i < numWorkers
      · let w : Fin numWorkers := ⟨i, hi⟩
        cases hflag : submitted w with
        | true => exact hloop hproducer (.skipWorker submitted count w hflag)
        | false =>
          have hidle : (t.queues w).push = .idle := h.idle w (by simp [hn])
          exact ⟨.pushShutdown w (.pushLoadHead .constRef (System.shutdownCmd 0)), _, rfl, trivial,
            .shutdownCall t submitted count w 0 _ hproducer hn hflag (.pushLoadHead _ _ _ hidle)⟩
      · exact hloop hproducer (.leaveRound submitted count i hi)
    | returned => exact absurd hproducer hp

/-- A worker that polls can go on. -/
theorem Inv.pop_goes_on (h : Inv capacity es t) {w : Fin numWorkers}
    (hstate : t.workerStates w = .polling) :
    ∃ e t', e.thread = some w ∧ Guarded ClientCommand (Step moved) t e t' := by
  by_cases hidle : (t.queues w).pop = .idle
  · exact ⟨.pop w (.popLoadTail (t.cmds w)), _, rfl, trivial,
      .popCall t w _ hstate (.popLoadTail _ _ hidle)⟩
  · obtain ⟨e, q, he, hq⟩ : ∃ e q, e.OfPop ∧ SPSCQueue.Step moved (t.queues w) e q :=
      (h.queue w).pop_goes_on hidle
    rcases SPSCQueue.pop_kind hq he hidle with he | ⟨item, rfl⟩
    · exact ⟨.pop w e, _, rfl, trivial, .popStep t w e q hstate he hq⟩
    · exact ⟨.pop w (.popStore item), _, rfl, trivial, .popTrue t w item q hstate hq⟩

/-- A command in hand can be processed if it can beside the threads. -/
theorem Linearizes.processes (h : Linearizes es t cs x)
    (hgo : ∀ w cmd clock, x.workerStates w = .popped cmd →
      ∃ x', System.Step x (.process w cmd clock true) x')
    (w : Fin numWorkers) (cmd : OrderCommand P) (clock : Clock)
    (hstate : t.workerStates w = .popped cmd) :
    ∃ t', Guarded ClientCommand (Step moved) t (.process w cmd clock true) t' := by
  rw [← h.states_eq] at hstate
  obtain ⟨x', hstep⟩ := hgo w cmd clock hstate
  cases hstep with
  | process _ _ _ _ worker alloc' _ hok =>
    rw [h.states_eq] at hstate
    rw [h.workers_eq, h.alloc_eq] at hok
    exact ⟨_, trivial, .process t w cmd clock true worker alloc' hstate hok⟩

/-- A thread that has not come to its end can take a step. -/
theorem Linearizes.goes_on (h : Linearizes es t cs x) (hI : Inv capacity es t)
    (hgo : ∀ w cmd clock, x.workerStates w = .popped cmd →
      ∃ x', System.Step x (.process w cmd clock true) x')
    (thread : Option (Fin numWorkers)) (hthread : ¬ t.Finished thread) :
    ∃ e t', e.thread = thread ∧ Guarded ClientCommand (Step moved) t e t' := by
  cases thread with
  | none => exact hI.producer_goes_on hthread
  | some w =>
    cases hstate : t.workerStates w with
    | polling => exact hI.pop_goes_on hstate
    | popped cmd =>
      obtain ⟨t', hstep⟩ := h.processes hgo w cmd (fun _ => 0) hstate
      exact ⟨_, t', rfl, hstep⟩
    | stopped => exact absurd hstate hthread

/-- What holds of every thread, whatever the others do. -/
structure Unhindered (moved : OrderCommand P → OrderCommand P → OrderCommand P)
    (t : Threads P numWorkers) : Prop where
  /-- A thread that has not come to its end can take a step. -/
  goes_on : ∀ thread, ¬ t.Finished thread →
    ∃ e t', e.thread = thread ∧ Guarded ClientCommand (Step moved) t e t'
  /-- A command in hand can be processed, whatever the clock says. -/
  processes : ∀ w cmd clock, t.workerStates w = .popped cmd →
    ∃ t', Guarded ClientCommand (Step moved) t (.process w cmd clock true) t'
  /-- A call of `push` or `pop` returns within three more steps of its thread. -/
  returns : ∀ es t' thread, Path (Guarded ClientCommand (Step moved)) t es t' →
    0 < t.callLeft thread → 3 ≤ (es.filter fun e => e.thread = thread).length →
    ∃ e ∈ es, e.thread = thread ∧ e.Returns

omit [Zero P] in
theorem callLeft_le (t : Threads P numWorkers) (thread : Option (Fin numWorkers)) :
    t.callLeft thread ≤ 3 := by
  cases thread with
  | none =>
    unfold callLeft
    cases t.pushing with
    | none => exact Nat.zero_le 3
    | some w => exact SPSCQueue.Push.left_le _
  | some w => exact SPSCQueue.Pop.left_le _

/-- **No thread waits for another.**  In every state that the threads reach,
    however their accesses were interleaved, each of them can go on, and its
    calls return after a bounded number of its own steps. -/
theorem unhindered [NeZero numWorkers] {instruments : List Instrument} {blockSize : OrderId}
    {totalReserveSpace : ℕ} {clock : Clock} {blank : OrderCommand P} {t₀ : Threads P numWorkers}
    (hsize : 1 ≤ blockSize) (hcap : 1 ≤ capacity)
    (ht₀ : t₀ = start instruments (.new blockSize) capacity totalReserveSpace clock blank)
    (hr : Path (Guarded ClientCommand (Step moved)) t₀ es t)
    (hroom : FIRST_ORDER_ID.toNat +
      blockSize.toNat * (instruments.length + (accepted es).length) < 2 ^ 64) :
    Unhindered moved t := by
  obtain ⟨hI, cs, x, hpath, hlin⟩ := linearizes_of_path hcap ht₀ hr
  have hpops : t.PopsWhilePolling := by
    refine hr.invariant (I := PopsWhilePolling) (fun t e t' h hs => h.step hs.2) ?_
    rw [ht₀]
    exact fun _ _ => rfl
  rw [← hlin.accepted_eq] at hroom
  obtain ⟨hq, hb, s, hfirst, hsup⟩ := System.supplied_of_path hsize rfl hpath hroom
  have hgo := (hsup.served hfirst hq hb).goes_on
  constructor
  case goes_on => exact hlin.goes_on hI hgo
  case processes => exact hlin.processes hgo
  case returns =>
    intro es t' thread hpath hpos hsteps
    exact returns_of_path hpath.of_guarded hpops hpos (Nat.le_trans (t.callLeft_le thread) hsteps)

/-- The producer is inside a call of `push`, and the worker inside one of `pop`. -/
theorem unhindered_midCalls : ∃ t : Threads ℤ 1,
    Path (Guarded ClientCommand (Step fun source _ => source))
      (start ["SPY"] (.new 1000) 2 10 (fun _ => 0) (System.shutdownCmd 0))
      [.submit 0 (.pushLoadHead .rvalue (System.cancelCmd "SPY")),
        .pop 0 (.popLoadTail (System.shutdownCmd 0)), .submit 0 .pushLoadTail] t ∧
      t.callLeft none = 2 ∧ t.callLeft (some 0) = 3 ∧ Unhindered (fun source _ => source) t := by
  have hr : ∃ t : Threads ℤ 1, Path (Guarded ClientCommand (Step fun source _ => source))
      (start ["SPY"] (.new 1000) 2 10 (fun _ => 0) (System.shutdownCmd 0))
      [.submit 0 (.pushLoadHead .rvalue (System.cancelCmd "SPY")),
        .pop 0 (.popLoadTail (System.shutdownCmd 0)), .submit 0 .pushLoadTail] t ∧
      t.callLeft none = 2 ∧ t.callLeft (some 0) = 3 :=
    ⟨_, .cons ⟨by simp [ClientCommand, System.cancelCmd],
        .submitCall _ _ _ 0 _ rfl rfl (by decide +kernel) (.pushLoadHead _ _ _ rfl)⟩ <|
      .cons ⟨trivial, .popCall _ 0 _ rfl (.popLoadTail _ _ rfl)⟩ <|
      .cons ⟨trivial, .submitStep _ 0 _ _ rfl rfl trivial (.pushLoadTail _ _ _ _ rfl)⟩ <| .nil _,
      rfl, rfl⟩
  obtain ⟨t, hpath, hpush, hpop⟩ := hr
  exact ⟨t, hpath, hpush, hpop, unhindered (by decide) (by decide) rfl hpath (by decide)⟩

end Threads
end Orderbook
