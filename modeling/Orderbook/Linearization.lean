import Orderbook.Threads
import Orderbook.SpscFifo
import Orderbook.Delivery

/-! # Calls take effect at one access

    The threads refine the system whose queues are channels.  A `push` that
    returns `true` takes effect when it stores `_head`, a `pop` that does when
    it stores `_tail`; a `push` that returns `false` takes effect when it loads
    `_tail`, since the queue may no longer be full by the time it returns. -/

namespace Orderbook

/-! ### One queue -/

namespace SPSCQueue
variable {α : Type} {moved : α → α → α} {capacity : ℕ} {es : List (Event α)} {s s' : State α}
  {c : Channel α (capacity - 1)}

/-- What the call of `push` in progress was given. -/
def Push.item? : Push α → Option α
  | .idle => none
  | .loadedHead _ item _ => some item
  | .loadedTail _ item _ _ => some item
  | .written item _ _ => some item

/-- The call of `push` in progress has found the queue full. -/
def State.rejects (s : State α) : Bool :=
  match s.push with
  | .loadedTail _ _ head tail => s.queue.next head == tail
  | _ => false

/-- The consumer does not touch the call of the producer. -/
theorem push_of_pop {e : Event α} (hs : Step moved s e s') (he : e.OfPop) :
    s'.push = s.push ∧ s'.rejects = s.rejects := by
  cases hs with
  | popRead out item tail head hp hne hcell =>
    refine ⟨rfl, ?_⟩
    cases hpush : s.push <;> simp [State.rejects, SPSCQueue.next, hpush]
  | popLoadTail out hp => exact ⟨rfl, rfl⟩
  | popLoadHead out tail hp => exact ⟨rfl, rfl⟩
  | popFail out tail head hp heq => exact ⟨rfl, rfl⟩
  | popStore item tail hp =>
    refine ⟨rfl, ?_⟩
    cases hpush : s.push <;> simp [State.rejects, SPSCQueue.next, hpush]
  | _ => exact False.elim he

theorem push_of_call {overload : Overload} {item : α}
    (hs : Step moved s (.pushLoadHead overload item) s') :
    s'.push.item? = some item ∧ s'.rejects = false := by
  cases hs with
  | pushLoadHead overload item hp => exact ⟨rfl, rfl⟩

theorem push_of_inside {e : Event α} (hs : Step moved s e s') (he : e.InsidePush) :
    s'.push.item? = s.push.item? := by
  cases hs with
  | pushLoadTail overload item head hp => simp [Push.item?, hp]
  | pushWrite overload item old head tail hp hne hcell => simp [Push.item?, hp]
  | _ => exact False.elim he

theorem push_of_fail {left : α} (hs : Step moved s (.pushFail left) s') :
    s'.push = .idle ∧ s.push.item? = some left ∧ s.rejects = true := by
  cases hs with
  | pushFail overload item head tail hp heq => simp [Push.item?, State.rejects, hp, heq]

theorem push_of_store {item left : α} (hs : Step moved s (.pushStore item left) s') :
    s'.push = .idle ∧ s.push.item? = some item ∧ s.rejects = false := by
  cases hs with
  | pushStore item left next hp => simp [Push.item?, State.rejects, hp]

/-- A call that has found the queue full returns. -/
theorem rejects_before {e : Event α} (hs : Step moved s e s') (he : e.InsidePush) :
    s.rejects = false := by
  cases hs with
  | pushLoadTail overload item head hp => simp [State.rejects, hp]
  | pushWrite overload item old head tail hp hne hcell => simp [State.rejects, hp, hne]
  | _ => exact False.elim he

theorem loads_of_rejects {e : Event α} (hs : Step moved s e s') (he : e.InsidePush)
    (hr : s'.rejects = true) : e = .pushLoadTail := by
  cases hs with
  | pushLoadTail overload item head hp => rfl
  | pushWrite overload item old head tail hp hne hcell => cases hr
  | _ => exact False.elim he

/-- A `push` that finds the queue full loads `_tail` while the channel is. -/
theorem Inv.full_of_rejects (h : Inv capacity es s) (hc : pushed es = popped es ++ c.items)
    (hs : Step moved s .pushLoadTail s') (hr : s'.rejects = true) (item : α) :
    c.send item = none := by
  have hlen := congrArg List.length hc
  rw [List.length_append] at hlen
  obtain ⟨hle, hroom⟩ := h.fits
  have hpos := h.pos
  cases hs with
  | pushLoadTail overload item' head hp =>
    have hpush := h.push
    rw [hp] at hpush
    have heq : s.queue.next head = s.queue.tail := by simpa [State.rejects] using hr
    rw [hpush.1, h.next_eq, h.tail_eq, Ring.slot_eq_iff (by omega) (by omega)] at heq
    exact dif_neg (by omega)

theorem Inv.send_of_store (h : Inv capacity es s) (hc : pushed es = popped es ++ c.items)
    {item left : α} (hs : Step moved s (.pushStore item left) s') :
    ∃ c', c.send item = some c' := by
  obtain ⟨c', hstep⟩ := h.channel_step hs hc
  cases hstep with
  | send _ _ hsend => exact ⟨c', hsend⟩

theorem Inv.receive_of_store (h : Inv capacity es s) (hc : pushed es = popped es ++ c.items)
    {item : α} (hs : Step moved s (.popStore item) s') :
    ∃ c', c.receive = some (item, c') := by
  obtain ⟨c', hstep⟩ := h.channel_step hs hc
  cases hstep with
  | receive _ _ hrecv => exact ⟨c', hrecv⟩

end SPSCQueue

/-! ### The threads with whole calls -/

namespace Threads
variable {P : Type} [LinearOrder P] [Zero P] {numWorkers : ℕ}
  {moved : OrderCommand P → OrderCommand P → OrderCommand P} {capacity : ℕ}
  {es : List (Event P numWorkers)} {t t' : Threads P numWorkers}

/-! ### Every queue is run by its two threads -/

/-- What the producer may be pushing to the queue of `w`. -/
def Offered (router : InstrumentMap (Fin numWorkers)) (w : Fin numWorkers)
    (cmd : OrderCommand P) : ProducerState numWorkers → Prop
  | .submitting => router.find? cmd.order.instrument = some w ∧ cmd.type ≠ .shutdown
  | .visiting submitted _ i => i = w ∧ submitted w = false ∧ ∃ now, cmd = System.shutdownCmd now
  | _ => False

structure Inv (capacity : ℕ) (es : List (Event P numWorkers)) (t : Threads P numWorkers) :
    Prop where
  queue : ∀ w, SPSCQueue.Inv capacity (queueEvents w es) (t.queues w)
  idle : ∀ w, t.pushing ≠ some w → (t.queues w).push = .idle
  offer : ∀ w, t.pushing = some w →
    ∃ cmd, (t.queues w).push.item? = some cmd ∧ Offered t.router w cmd t.producer

section QueueEvents
omit [LinearOrder P] [Zero P]

theorem queueEvents_append (w : Fin numWorkers) (es es' : List (Event P numWorkers)) :
    queueEvents w (es ++ es') = queueEvents w es ++ queueEvents w es' :=
  List.filterMap_append

theorem queueEvents_submit (w w' : Fin numWorkers) (e : SPSCQueue.Event (OrderCommand P)) :
    queueEvents w' [.submit w e] = if w = w' then [e] else [] := by
  by_cases hw : w = w' <;> simp [queueEvents, hw]

theorem queueEvents_pushShutdown (w w' : Fin numWorkers)
    (e : SPSCQueue.Event (OrderCommand P)) :
    queueEvents w' [.pushShutdown w e] = if w = w' then [e] else [] := by
  by_cases hw : w = w' <;> simp [queueEvents, hw]

theorem queueEvents_pop (w w' : Fin numWorkers) (e : SPSCQueue.Event (OrderCommand P)) :
    queueEvents w' [.pop w e] = if w = w' then [e] else [] := by
  by_cases hw : w = w' <;> simp [queueEvents, hw]

end QueueEvents

/-- The queue of `w` makes the step `e'`, the others none. -/
theorem Inv.queue_step (h : Inv capacity es t) {w : Fin numWorkers} {e : Event P numWorkers}
    {e' : SPSCQueue.Event (OrderCommand P)} {q : SPSCQueue.State (OrderCommand P)}
    (hs : SPSCQueue.Step moved (t.queues w) e' q)
    (he : ∀ w', queueEvents w' [e] = if w = w' then [e'] else []) (w' : Fin numWorkers) :
    SPSCQueue.Inv capacity (queueEvents w' (es ++ [e])) (Function.update t.queues w q w') := by
  rw [queueEvents_append, he]
  by_cases hw : w = w'
  · subst hw
    rw [if_pos rfl, Function.update_self]
    exact (h.queue w).step hs
  · rw [if_neg hw, List.append_nil, Function.update_of_ne (Ne.symm hw)]
    exact h.queue w'

/-- A step that touches no queue. -/
theorem Inv.local_step (h : Inv capacity es t) {e : Event P numWorkers}
    (he : ∀ w, queueEvents w [e] = []) (hqueues : t'.queues = t.queues)
    (hpushing : t'.pushing = t.pushing) (hrouter : t'.router = t.router)
    (hproducer : t'.producer = t.producer ∨ t.pushing = none) : Inv capacity (es ++ [e]) t' := by
  constructor
  case queue =>
    intro w
    rw [queueEvents_append, he, List.append_nil, hqueues]
    exact h.queue w
  case idle =>
    intro w hw
    rw [hqueues]
    exact h.idle w (by rwa [hpushing] at hw)
  case offer =>
    intro w hw
    rw [hpushing] at hw
    rcases hproducer with heq | hnone
    · rw [hqueues, hrouter, heq]
      exact h.offer w hw
    · rw [hnone] at hw
      cases hw

/-- A step of a call of `push` on the queue of `w`. -/
theorem Inv.push_step (h : Inv capacity es t) {w : Fin numWorkers} {e : Event P numWorkers}
    {e' : SPSCQueue.Event (OrderCommand P)} {q : SPSCQueue.State (OrderCommand P)}
    (hs : SPSCQueue.Step moved (t.queues w) e' q)
    (he : ∀ w', queueEvents w' [e] = if w = w' then [e'] else [])
    (hw : t.pushing = none ∨ t.pushing = some w)
    (hqueues : t'.queues = Function.update t.queues w q)
    (hafter : (t'.pushing = none ∧ q.push = .idle) ∨ (t'.pushing = some w ∧
      ∃ cmd, q.push.item? = some cmd ∧ Offered t'.router w cmd t'.producer)) :
    Inv capacity (es ++ [e]) t' := by
  -- The producer is in one call at a time.
  have hother : ∀ w', w' ≠ w → (t.queues w').push = .idle := by
    intro w' hne
    apply h.idle w'
    rcases hw with hw | hw
    · rw [hw]
      exact Option.some_ne_none w' |>.symm
    · rw [hw]
      exact fun heq => hne (Option.some.inj heq).symm
  constructor
  case queue =>
    rw [hqueues]
    exact h.queue_step hs he
  case idle =>
    intro w' hne
    rw [hqueues]
    by_cases hww : w' = w
    · subst hww
      rw [Function.update_self]
      rcases hafter with ⟨-, hidle⟩ | ⟨hsome, -⟩
      · exact hidle
      · exact absurd hsome hne
    · rw [Function.update_of_ne hww]
      exact hother w' hww
  case offer =>
    intro w' hsome
    rcases hafter with ⟨hnone, -⟩ | ⟨hcall, hoffer⟩
    · rw [hnone] at hsome
      cases hsome
    · rw [hcall, Option.some.injEq] at hsome
      subst hsome
      rw [hqueues, Function.update_self]
      exact hoffer

/-- A step of a call of `pop` on the queue of `w`. -/
theorem Inv.pop_step (h : Inv capacity es t) {w : Fin numWorkers}
    {e : SPSCQueue.Event (OrderCommand P)} {q : SPSCQueue.State (OrderCommand P)}
    (hs : SPSCQueue.Step moved (t.queues w) e q) (he : e.OfPop)
    (hqueues : t'.queues = Function.update t.queues w q) (hpushing : t'.pushing = t.pushing)
    (hrouter : t'.router = t.router) (hproducer : t'.producer = t.producer) :
    Inv capacity (es ++ [.pop w e]) t' := by
  -- The call of the producer is where it was.
  have hpush : ∀ w', (t'.queues w').push = (t.queues w').push := by
    intro w'
    rw [hqueues]
    by_cases hww : w' = w
    · subst hww
      rw [Function.update_self]
      exact (SPSCQueue.push_of_pop hs he).1
    · rw [Function.update_of_ne hww]
  constructor
  case queue =>
    rw [hqueues]
    exact h.queue_step hs fun w' => queueEvents_pop w w' e
  case idle =>
    intro w' hne
    rw [hpush]
    exact h.idle w' (by rwa [hpushing] at hne)
  case offer =>
    intro w' hsome
    rw [hpush, hrouter, hproducer]
    exact h.offer w' (by rwa [hpushing] at hsome)

theorem Inv.step (h : Inv capacity es t) {e : Event P numWorkers}
    (hs : Guarded ClientCommand (Step moved) t e t') : Inv capacity (es ++ [e]) t' := by
  obtain ⟨hclient, hs⟩ := hs
  cases hs with
  | submitUnknown cmd hp hn hr =>
    exact h.local_step (fun _ => rfl) rfl rfl rfl (Or.inl rfl)
  | submitCall overload cmd w q hp hn hr hq =>
    refine h.push_step hq (fun w' => queueEvents_submit w w' _) (Or.inl hn) rfl
      (Or.inr ⟨rfl, cmd, ?_⟩)
    refine ⟨(SPSCQueue.push_of_call hq).1, ?_⟩
    show Offered t.router w cmd t.producer
    rw [hp]
    exact ⟨hr, hclient⟩
  | submitStep w e q hp hn he hq =>
    obtain ⟨cmd, hitem, hoffer⟩ := h.offer w hn
    refine h.push_step hq (fun w' => queueEvents_submit w w' _) (Or.inr hn) rfl
      (Or.inr ⟨hn, cmd, ?_, hoffer⟩)
    rw [SPSCQueue.push_of_inside hq he]
    exact hitem
  | submitFalse w left q hp hn hq =>
    exact h.push_step hq (fun w' => queueEvents_submit w w' _) (Or.inr hn) rfl
      (Or.inl ⟨rfl, (SPSCQueue.push_of_fail hq).1⟩)
  | submitTrue w cmd left q hp hn hq =>
    exact h.push_step hq (fun w' => queueEvents_submit w w' _) (Or.inr hn) rfl
      (Or.inl ⟨rfl, (SPSCQueue.push_of_store hq).1⟩)
  | shutdownLoop p hn hloop => exact h.local_step (fun _ => rfl) rfl rfl rfl (Or.inr hn)
  | shutdownCall submitted count w now q hp hn hflag hq =>
    refine h.push_step hq (fun w' => queueEvents_pushShutdown w w' _) (Or.inl hn) rfl
      (Or.inr ⟨rfl, _, (SPSCQueue.push_of_call hq).1, ?_⟩)
    show Offered t.router w (System.shutdownCmd now) t.producer
    rw [hp]
    exact ⟨rfl, hflag, now, rfl⟩
  | shutdownStep submitted count w e q hp hn he hq =>
    obtain ⟨cmd, hitem, hoffer⟩ := h.offer w hn
    refine h.push_step hq (fun w' => queueEvents_pushShutdown w w' _) (Or.inr hn) rfl
      (Or.inr ⟨hn, cmd, ?_, hoffer⟩)
    rw [SPSCQueue.push_of_inside hq he]
    exact hitem
  | shutdownFalse submitted count w left q hp hn hq =>
    exact h.push_step hq (fun w' => queueEvents_pushShutdown w w' _) (Or.inr hn) rfl
      (Or.inl ⟨rfl, (SPSCQueue.push_of_fail hq).1⟩)
  | shutdownTrue submitted count w cmd left q hp hn hq =>
    exact h.push_step hq (fun w' => queueEvents_pushShutdown w w' _) (Or.inr hn) rfl
      (Or.inl ⟨rfl, (SPSCQueue.push_of_store hq).1⟩)
  | popCall w q hstate hq => exact h.pop_step hq trivial rfl rfl rfl rfl
  | popStep w e q hstate he hq =>
    refine h.pop_step hq ?_ rfl rfl rfl rfl
    cases e <;> first | exact False.elim he | trivial
  | popTrue w cmd q hstate hq => exact h.pop_step hq trivial rfl rfl rfl rfl
  | process w cmd clock found worker alloc hstate hok =>
    exact h.local_step (fun _ => rfl) rfl rfl rfl (Or.inl rfl)

theorem Inv.path (h : Inv capacity es t) {es' : List (Event P numWorkers)}
    (hr : Path (Guarded ClientCommand (Step moved)) t es' t') : Inv capacity (es ++ es') t' := by
  refine hr.history (I := fun es' t' => Inv capacity (es ++ es') t') ?_ ?_
  · intro es₁ t₁ e t₂ h₁ hs
    rw [← List.append_assoc]
    exact h₁.step hs
  · rw [List.append_nil]
    exact h

/-! ### The system that the threads refine -/

/-- Where the producer is once the call in progress has taken effect. -/
def ahead (t : Threads P numWorkers) : ProducerState numWorkers :=
  match t.producer, t.pushing with
  | .visiting submitted count i, some w =>
    if (t.queues w).rejects then .visiting submitted count (i + 1) else t.producer
  | p, _ => p

/-- The call of `submit` that has taken effect and not returned. -/
def pending (t : Threads P numWorkers) : List (OrderCommand P × Bool) :=
  match t.producer, t.pushing with
  | .submitting, some w =>
    if (t.queues w).rejects then ((t.queues w).push.item?.map fun cmd => (cmd, false)).toList
    else []
  | _, _ => []

/-- The calls of `submit` in a history of the system, with their results. -/
def results (cs : List (System.Event P numWorkers)) : List (OrderCommand P × Bool) :=
  cs.filterMap fun e => match e with
    | .submit cmd accepted => some (cmd, accepted)
    | _ => none

/-- The history `cs` of the system is that of the threads with every call in
    one place. -/
structure Linearizes (es : List (Event P numWorkers)) (t : Threads P numWorkers)
    (cs : List (System.Event P numWorkers)) (x : System P numWorkers (capacity - 1)) : Prop where
  alloc_eq : x.alloc = t.alloc
  router_eq : x.router = t.router
  workers_eq : x.workers = t.workers
  states_eq : x.workerStates = t.workerStates
  producer_eq : x.producer = t.ahead
  items : ∀ w, SPSCQueue.pushed (queueEvents w es) =
    SPSCQueue.popped (queueEvents w es) ++ (x.queues w).items
  results_eq : results cs = returned es ++ t.pending
  processed : ∀ w, System.processedBy w cs = processedBy w es

variable {cs cs' : List (System.Event P numWorkers)} {x x' : System P numWorkers (capacity - 1)}

section Ahead
omit [Zero P]

theorem ahead_of_idle (h : t.pushing = none) : t.ahead = t.producer := by
  unfold ahead
  rw [h]
  split
  · next h' => cases h'
  · rfl

theorem ahead_of_submitting (h : t.producer = .submitting) : t.ahead = .submitting := by
  unfold ahead
  rw [h]

theorem ahead_of_visiting {submitted : Fin numWorkers → Bool} {count i : ℕ} {w : Fin numWorkers}
    {q : SPSCQueue.State (OrderCommand P)} (h : t.producer = .visiting submitted count i)
    (hw : t.pushing = some w) (hq : t.queues w = q) :
    t.ahead = .visiting submitted count (if q.rejects then i + 1 else i) := by
  subst hq
  unfold ahead
  rw [h, hw]
  split
  · next heq heq' =>
    cases heq
    cases heq'
    split <;> rfl
  · next hne => exact absurd rfl (hne _ _ _ _ rfl)

theorem ahead_congr (hproducer : t'.producer = t.producer) (hpushing : t'.pushing = t.pushing)
    (hrejects : ∀ w, (t'.queues w).rejects = (t.queues w).rejects) : t'.ahead = t.ahead := by
  unfold ahead
  rw [hproducer, hpushing]
  simp only [hrejects]

theorem pending_of_idle (h : t.pushing = none) : t.pending = [] := by
  unfold pending
  rw [h]
  split
  · next h' => cases h'
  · rfl

theorem pending_of_submitting {w : Fin numWorkers} {cmd : OrderCommand P}
    {q : SPSCQueue.State (OrderCommand P)} (h : t.producer = .submitting)
    (hw : t.pushing = some w) (hq : t.queues w = q) (hitem : q.push.item? = some cmd) :
    t.pending = if q.rejects then [(cmd, false)] else [] := by
  subst hq
  unfold pending
  rw [h, hw]
  simp [hitem]

theorem pending_of_visiting {submitted : Fin numWorkers → Bool} {count i : ℕ}
    (h : t.producer = .visiting submitted count i) : t.pending = [] := by
  unfold pending
  rw [h]

theorem pending_congr (hproducer : t'.producer = t.producer) (hpushing : t'.pushing = t.pushing)
    (hpush : ∀ w, (t'.queues w).push = (t.queues w).push)
    (hrejects : ∀ w, (t'.queues w).rejects = (t.queues w).rejects) : t'.pending = t.pending := by
  unfold pending
  rw [hproducer, hpushing]
  simp only [hpush, hrejects]

end Ahead

omit [Zero P] in
/-- Steps of the threads and what the system does at them. -/
theorem Linearizes.extend (h : Linearizes es t cs x) {es' : List (Event P numWorkers)}
    (halloc : x'.alloc = t'.alloc) (hrouter : x'.router = t'.router)
    (hworkers : x'.workers = t'.workers) (hstates : x'.workerStates = t'.workerStates)
    (hproducer : x'.producer = t'.ahead)
    (hitems : ∀ w, (x.queues w).items ++ SPSCQueue.pushed (queueEvents w es') =
      SPSCQueue.popped (queueEvents w es') ++ (x'.queues w).items)
    (hresults : t.pending ++ results cs' = returned es' ++ t'.pending)
    (hprocessed : ∀ w, System.processedBy w cs' = processedBy w es') :
    Linearizes (es ++ es') t' (cs ++ cs') x' where
  alloc_eq := halloc
  router_eq := hrouter
  workers_eq := hworkers
  states_eq := hstates
  producer_eq := hproducer
  items w := by
    rw [queueEvents_append, SPSCQueue.pushed_append, SPSCQueue.popped_append, h.items,
      List.append_assoc, hitems, List.append_assoc]
  results_eq := by
    rw [results, List.filterMap_append, returned, List.filterMap_append]
    show results cs ++ results cs' = returned es ++ returned es' ++ t'.pending
    rw [h.results_eq, List.append_assoc, hresults, List.append_assoc]
  processed w := by
    rw [System.processedBy, List.filterMap_append, processedBy, List.filterMap_append]
    show System.processedBy w cs ++ System.processedBy w cs' = processedBy w es ++ processedBy w es'
    rw [h.processed, hprocessed]

/-- A step of a queue that neither publishes an item nor releases a slot. -/
def Quiet (e : SPSCQueue.Event (OrderCommand P)) : Prop :=
  SPSCQueue.pushed [e] = [] ∧ SPSCQueue.popped [e] = []

omit [Zero P] in
theorem items_of_quiet {w : Fin numWorkers} {e : Event P numWorkers}
    {e' : SPSCQueue.Event (OrderCommand P)} (hquiet : Quiet e')
    (he : ∀ w', queueEvents w' [e] = if w = w' then [e'] else []) (w' : Fin numWorkers) :
    (x.queues w').items ++ SPSCQueue.pushed (queueEvents w' [e]) =
      SPSCQueue.popped (queueEvents w' [e]) ++ (x.queues w').items := by
  rw [he]
  split
  · rw [hquiet.1, hquiet.2, List.append_nil, List.nil_append]
  · exact List.append_nil _

omit [LinearOrder P] [Zero P] in
theorem quiet_of_insidePush {e : SPSCQueue.Event (OrderCommand P)} (he : e.InsidePush) :
    Quiet e := by
  cases e <;> first | exact False.elim he | exact ⟨rfl, rfl⟩

omit [LinearOrder P] [Zero P] in
theorem quiet_of_insidePop {e : SPSCQueue.Event (OrderCommand P)} (he : e.InsidePop) :
    Quiet e ∧ e.OfPop := by
  cases e <;> first | exact False.elim he | exact ⟨⟨rfl, rfl⟩, trivial⟩

/-- A step at which the system does nothing. -/
theorem Linearizes.silent (h : Linearizes es t cs x) {e : Event P numWorkers} {w : Fin numWorkers}
    {e' : SPSCQueue.Event (OrderCommand P)} (hquiet : Quiet e')
    (he : ∀ w', queueEvents w' [e] = if w = w' then [e'] else [])
    (hproc : ∀ w', processedBy w' [e] = []) (halloc : t'.alloc = t.alloc)
    (hrouter : t'.router = t.router) (hworkers : t'.workers = t.workers)
    (hstates : t'.workerStates = t.workerStates)
    (hahead : t'.ahead = t.ahead) (hpending : t.pending = returned [e] ++ t'.pending) :
    ∃ cs' x', Path (Guarded System.ClientCommand System.Step) x cs' x' ∧
      Linearizes (es ++ [e]) t' (cs ++ cs') x' := by
  refine ⟨[], x, .nil x, h.extend (h.alloc_eq.trans halloc.symm) (h.router_eq.trans hrouter.symm)
    (h.workers_eq.trans hworkers.symm) (h.states_eq.trans hstates.symm)
    (h.producer_eq.trans hahead.symm) (items_of_quiet hquiet he) ?_ fun w' => ?_⟩
  · rw [← hpending]
    exact List.append_nil _
  · rw [hproc]
    rfl

theorem Linearizes.submitCall (h : Linearizes es t cs x) {overload : SPSCQueue.Overload}
    {cmd : OrderCommand P} {w : Fin numWorkers} {q : SPSCQueue.State (OrderCommand P)}
    (hp : t.producer = .submitting) (hn : t.pushing = none)
    (hq : SPSCQueue.Step moved (t.queues w) (.pushLoadHead overload cmd) q) :
    ∃ cs' x', Path (Guarded System.ClientCommand System.Step) x cs' x' ∧
      Linearizes (es ++ [.submit w (.pushLoadHead overload cmd)])
        { t with queues := Function.update t.queues w q, pushing := some w } (cs ++ cs') x' := by
  obtain ⟨hitem, hrej⟩ := SPSCQueue.push_of_call hq
  refine h.silent ⟨rfl, rfl⟩ (queueEvents_submit w · _) (fun _ => rfl) rfl rfl rfl rfl ?_ ?_
  · rw [ahead_of_submitting hp]
    exact ahead_of_submitting hp
  · rw [pending_of_idle hn]
    have hafter := pending_of_submitting
      (t := { t with queues := Function.update t.queues w q, pushing := some w }) hp rfl
      (Function.update_self w q t.queues) hitem
    rw [hrej, if_neg Bool.false_ne_true] at hafter
    exact hafter.symm

/-- A call of `submit` that loads `_tail` from a full queue takes effect. -/
theorem Linearizes.submitStep (h : Linearizes es t cs x) (hI : Inv capacity es t)
    {w : Fin numWorkers} {e : SPSCQueue.Event (OrderCommand P)}
    {q : SPSCQueue.State (OrderCommand P)} (hp : t.producer = .submitting)
    (hn : t.pushing = some w) (he : e.InsidePush) (hq : SPSCQueue.Step moved (t.queues w) e q) :
    ∃ cs' x', Path (Guarded System.ClientCommand System.Step) x cs' x' ∧
      Linearizes (es ++ [.submit w e]) { t with queues := Function.update t.queues w q }
        (cs ++ cs') x' := by
  obtain ⟨cmd, hitem, hoffer⟩ := hI.offer w hn
  rw [hp] at hoffer
  obtain ⟨hroute, hclient⟩ := hoffer
  have hahead : ({ t with queues := Function.update t.queues w q } : Threads P numWorkers).ahead =
      t.ahead := by
    rw [ahead_of_submitting hp]
    exact ahead_of_submitting hp
  have hpending := pending_of_submitting hp hn rfl hitem
  have hitem' : q.push.item? = some cmd := by
    rw [SPSCQueue.push_of_inside hq he, hitem]
  have hafter := pending_of_submitting (t := { t with queues := Function.update t.queues w q })
    hp hn (Function.update_self w q t.queues) hitem'
  rw [SPSCQueue.rejects_before hq he, if_neg Bool.false_ne_true] at hpending
  have hnone : returned [(.submit w e : Event P numWorkers)] = [] := by
    cases e <;> first | exact False.elim he | rfl
  cases hrej : q.rejects with
  | false =>
    refine h.silent (quiet_of_insidePush he) (queueEvents_submit w · _) (fun _ => rfl)
      rfl rfl rfl rfl hahead ?_
    rw [hpending, hafter, hrej, hnone]
    rfl
  | true =>
    -- It has just loaded `_tail`: the channel is full now, and rejects.
    obtain ⟨rfl⟩ := SPSCQueue.loads_of_rejects hq he hrej
    rw [hrej, if_pos rfl] at hafter
    have hfull := (hI.queue w).full_of_rejects (h.items w) hq hrej cmd
    refine ⟨[.submit cmd false], x, .cons ⟨hclient, .submitFull x cmd w ?_ ?_ hfull⟩ (.nil x),
      h.extend h.alloc_eq h.router_eq h.workers_eq h.states_eq (h.producer_eq.trans hahead.symm)
        (items_of_quiet (quiet_of_insidePush he) (queueEvents_submit w · _)) ?_ fun _ => rfl⟩
    · rw [h.producer_eq, ahead_of_submitting hp]
    · rw [h.router_eq]
      exact hroute
    · rw [hpending, hafter, hnone]
      rfl

theorem Linearizes.submitFalse (h : Linearizes es t cs x) {w : Fin numWorkers}
    {left : OrderCommand P} {q : SPSCQueue.State (OrderCommand P)} (hp : t.producer = .submitting)
    (hn : t.pushing = some w) (hq : SPSCQueue.Step moved (t.queues w) (.pushFail left) q) :
    ∃ cs' x', Path (Guarded System.ClientCommand System.Step) x cs' x' ∧
      Linearizes (es ++ [.submit w (.pushFail left)])
        { t with queues := Function.update t.queues w q, pushing := none } (cs ++ cs') x' := by
  obtain ⟨-, hitem, hrej⟩ := SPSCQueue.push_of_fail hq
  refine h.silent ⟨rfl, rfl⟩ (queueEvents_submit w · _) (fun _ => rfl) rfl rfl rfl rfl ?_ ?_
  · rw [ahead_of_submitting hp]
    exact ahead_of_submitting hp
  · -- The system has rejected the command before.
    have hafter := pending_of_idle
      (t := { t with queues := Function.update t.queues w q, pushing := none }) rfl
    rw [pending_of_submitting hp hn rfl hitem, hrej, if_pos rfl, hafter]
    rfl

omit [Zero P] in
theorem send_items {w : Fin numWorkers} {cmd : OrderCommand P} {e : Event P numWorkers}
    {left : OrderCommand P} {c : Channel (OrderCommand P) (capacity - 1)}
    (hsend : (x.queues w).send cmd = some c)
    (he : ∀ w', queueEvents w' [e] = if w = w' then [.pushStore cmd left] else [])
    (w' : Fin numWorkers) :
    (x.queues w').items ++ SPSCQueue.pushed (queueEvents w' [e]) =
      SPSCQueue.popped (queueEvents w' [e]) ++ (Function.update x.queues w c w').items := by
  rw [he]
  by_cases hw : w = w'
  · subst hw
    rw [if_pos rfl, Function.update_self, Channel.send_eq_some hsend]
    rfl
  · rw [if_neg hw, Function.update_of_ne (Ne.symm hw)]
    exact List.append_nil _

theorem Linearizes.submitTrue (h : Linearizes es t cs x) (hI : Inv capacity es t)
    {w : Fin numWorkers} {cmd left : OrderCommand P} {q : SPSCQueue.State (OrderCommand P)}
    (hp : t.producer = .submitting) (hn : t.pushing = some w)
    (hq : SPSCQueue.Step moved (t.queues w) (.pushStore cmd left) q) :
    ∃ cs' x', Path (Guarded System.ClientCommand System.Step) x cs' x' ∧
      Linearizes (es ++ [.submit w (.pushStore cmd left)])
        { t with queues := Function.update t.queues w q, pushing := none } (cs ++ cs') x' := by
  obtain ⟨-, hitem, hrej⟩ := SPSCQueue.push_of_store hq
  obtain ⟨cmd', hitem', hoffer⟩ := hI.offer w hn
  rw [hitem, Option.some.injEq] at hitem'
  subst hitem'
  rw [hp] at hoffer
  obtain ⟨hroute, hclient⟩ := hoffer
  -- The ring has room for what is published, and so has the channel.
  obtain ⟨c, hsend⟩ := (hI.queue w).send_of_store (h.items w) hq
  refine ⟨[.submit cmd true], _, .cons ⟨hclient, .submit x cmd w c ?_ ?_ hsend⟩ (.nil _),
    h.extend h.alloc_eq h.router_eq h.workers_eq h.states_eq ?_
      (send_items hsend (queueEvents_submit w · _)) ?_ fun _ => rfl⟩
  · rw [h.producer_eq, ahead_of_submitting hp]
  · rw [h.router_eq]
    exact hroute
  · rw [h.producer_eq, ahead_of_submitting hp]
    exact Eq.symm (ahead_of_submitting hp)
  · have hafter := pending_of_idle
      (t := { t with queues := Function.update t.queues w q, pushing := none }) rfl
    rw [pending_of_submitting hp hn rfl hitem, hrej, if_neg Bool.false_ne_true, hafter]
    rfl

/-! ### The shutdown loop -/

theorem Linearizes.shutdownLoop (h : Linearizes es t cs x) {p : ProducerState numWorkers}
    (hn : t.pushing = none) (hloop : ShutdownLoop t.producer p) :
    ∃ cs' x', Path (Guarded System.ClientCommand System.Step) x cs' x' ∧
      Linearizes (es ++ [.shutdownLoop]) { t with producer := p } (cs ++ cs') x' := by
  have hx : x.producer = t.producer := h.producer_eq.trans (ahead_of_idle hn)
  have hstep : System.Step x .shutdownLoop { x with producer := p } := by
    generalize ht : t.producer = before at hloop
    rw [ht] at hx
    cases hloop with
    | call => exact .callShutdown x hx
    | enterRound submitted count hne => exact .enterRound x submitted count hx hne
    | leave submitted count heq => exact .shutdownReturn x submitted count hx heq
    | leaveRound submitted count i hi => exact .leaveRound x submitted count i hx hi
    | skipWorker submitted count w hflag => exact .skipWorker x submitted count w hx hflag
  have hafter := pending_of_idle (t := { t with producer := p }) hn
  refine ⟨[.shutdownLoop], _, .cons ⟨trivial, hstep⟩ (.nil _),
    h.extend h.alloc_eq h.router_eq h.workers_eq h.states_eq ?_ ?_ ?_ fun _ => rfl⟩
  · exact Eq.symm (ahead_of_idle hn)
  · intro w
    exact List.append_nil _
  · rw [pending_of_idle hn, hafter]
    rfl

theorem Linearizes.shutdownCall (h : Linearizes es t cs x) {submitted : Fin numWorkers → Bool}
    {count : ℕ} {w : Fin numWorkers} {now : TimePoint} {q : SPSCQueue.State (OrderCommand P)}
    (hp : t.producer = .visiting submitted count w) (hn : t.pushing = none)
    (hq : SPSCQueue.Step moved (t.queues w) (.pushLoadHead .constRef (System.shutdownCmd now)) q) :
    ∃ cs' x', Path (Guarded System.ClientCommand System.Step) x cs' x' ∧
      Linearizes (es ++ [.pushShutdown w (.pushLoadHead .constRef (System.shutdownCmd now))])
        { t with queues := Function.update t.queues w q, pushing := some w } (cs ++ cs') x' := by
  obtain ⟨-, hrej⟩ := SPSCQueue.push_of_call hq
  refine h.silent ⟨rfl, rfl⟩ (queueEvents_pushShutdown w · _) (fun _ => rfl) rfl rfl rfl rfl ?_ ?_
  · have hafter := ahead_of_visiting
      (t := { t with queues := Function.update t.queues w q, pushing := some w }) hp rfl
      (Function.update_self w q t.queues)
    rw [hrej, if_neg Bool.false_ne_true] at hafter
    rw [hafter, ahead_of_idle hn, hp]
  · rw [pending_of_idle hn]
    exact Eq.symm (pending_of_visiting hp)

/-- A call of the shutdown loop that loads `_tail` from a full queue takes effect. -/
theorem Linearizes.shutdownStep (h : Linearizes es t cs x) (hI : Inv capacity es t)
    {submitted : Fin numWorkers → Bool} {count : ℕ} {w : Fin numWorkers}
    {e : SPSCQueue.Event (OrderCommand P)} {q : SPSCQueue.State (OrderCommand P)}
    (hp : t.producer = .visiting submitted count w) (hn : t.pushing = some w)
    (he : e.InsidePush) (hq : SPSCQueue.Step moved (t.queues w) e q) :
    ∃ cs' x', Path (Guarded System.ClientCommand System.Step) x cs' x' ∧
      Linearizes (es ++ [.pushShutdown w e]) { t with queues := Function.update t.queues w q }
        (cs ++ cs') x' := by
  have hbefore := ahead_of_visiting hp hn rfl
  have hafter := ahead_of_visiting (t := { t with queues := Function.update t.queues w q }) hp hn
    (Function.update_self w q t.queues)
  rw [SPSCQueue.rejects_before hq he, if_neg Bool.false_ne_true] at hbefore
  have hnone := pending_of_visiting hp
  have hnone' := pending_of_visiting (t := { t with queues := Function.update t.queues w q }) hp
  cases hrej : q.rejects with
  | false =>
    rw [hrej, if_neg Bool.false_ne_true] at hafter
    refine h.silent (quiet_of_insidePush he) (queueEvents_pushShutdown w · _) (fun _ => rfl)
      rfl rfl rfl rfl (hafter.trans hbefore.symm) ?_
    rw [hnone, hnone']
    rfl
  | true =>
    rw [hrej, if_pos rfl] at hafter
    -- The pill is rejected at this load, and tried again in the next round.
    obtain ⟨rfl⟩ := SPSCQueue.loads_of_rejects hq he hrej
    obtain ⟨cmd, hitem, hoffer⟩ := hI.offer w hn
    rw [hp] at hoffer
    obtain ⟨-, hflag, now, rfl⟩ := hoffer
    have hfull := (hI.queue w).full_of_rejects (h.items w) hq hrej (System.shutdownCmd now)
    refine ⟨[.pushShutdown w (System.shutdownCmd now) false], _, .cons ⟨trivial,
      .shutdownFull x submitted count w now (h.producer_eq.trans hbefore) hflag hfull⟩ (.nil _),
      h.extend h.alloc_eq h.router_eq h.workers_eq h.states_eq hafter.symm
        (items_of_quiet (quiet_of_insidePush he) (queueEvents_pushShutdown w · _)) ?_ fun _ => rfl⟩
    rw [hnone, hnone']
    rfl

theorem Linearizes.shutdownFalse (h : Linearizes es t cs x) {submitted : Fin numWorkers → Bool}
    {count : ℕ} {w : Fin numWorkers} {left : OrderCommand P} {q : SPSCQueue.State (OrderCommand P)}
    (hp : t.producer = .visiting submitted count w) (hn : t.pushing = some w)
    (hq : SPSCQueue.Step moved (t.queues w) (.pushFail left) q) :
    ∃ cs' x', Path (Guarded System.ClientCommand System.Step) x cs' x' ∧
      Linearizes (es ++ [.pushShutdown w (.pushFail left)])
        { t with
          queues := Function.update t.queues w q
          producer := .visiting submitted count (w + 1)
          pushing := none } (cs ++ cs') x' := by
  obtain ⟨-, -, hrej⟩ := SPSCQueue.push_of_fail hq
  refine h.silent ⟨rfl, rfl⟩ (queueEvents_pushShutdown w · _) (fun _ => rfl) rfl rfl rfl rfl ?_ ?_
  · -- The system is past this worker already.
    rw [ahead_of_visiting hp hn rfl, hrej, if_pos rfl]
    exact ahead_of_idle rfl
  · rw [pending_of_visiting hp, pending_of_idle]
    · rfl
    · rfl

theorem Linearizes.shutdownTrue (h : Linearizes es t cs x) (hI : Inv capacity es t)
    {submitted : Fin numWorkers → Bool} {count : ℕ} {w : Fin numWorkers}
    {cmd left : OrderCommand P} {q : SPSCQueue.State (OrderCommand P)}
    (hp : t.producer = .visiting submitted count w) (hn : t.pushing = some w)
    (hq : SPSCQueue.Step moved (t.queues w) (.pushStore cmd left) q) :
    ∃ cs' x', Path (Guarded System.ClientCommand System.Step) x cs' x' ∧
      Linearizes (es ++ [.pushShutdown w (.pushStore cmd left)])
        { t with
          queues := Function.update t.queues w q
          producer := .visiting (Function.update submitted w true) (count + 1) (w + 1)
          pushing := none } (cs ++ cs') x' := by
  obtain ⟨-, hitem, hrej⟩ := SPSCQueue.push_of_store hq
  obtain ⟨cmd', hitem', hoffer⟩ := hI.offer w hn
  rw [hitem, Option.some.injEq] at hitem'
  subst hitem'
  rw [hp] at hoffer
  obtain ⟨-, hflag, now, rfl⟩ := hoffer
  have hbefore := ahead_of_visiting hp hn rfl
  rw [hrej, if_neg Bool.false_ne_true] at hbefore
  -- The pill is sent when `_head` is stored.
  obtain ⟨c, hsend⟩ := (hI.queue w).send_of_store (h.items w) hq
  refine ⟨[.pushShutdown w (System.shutdownCmd now) true], _, .cons ⟨trivial,
    .pushShutdown x submitted count w now c (h.producer_eq.trans hbefore) hflag hsend⟩ (.nil _),
    h.extend h.alloc_eq h.router_eq h.workers_eq h.states_eq (Eq.symm (ahead_of_idle rfl))
      (send_items hsend (queueEvents_pushShutdown w · _)) ?_ fun _ => rfl⟩
  rw [pending_of_visiting hp, pending_of_idle]
  · rfl
  · rfl

/-! ### The workers -/

omit [Zero P] in
/-- What the producer is doing is not affected by a `pop`. -/
theorem call_of_pop {u : Threads P numWorkers} {w : Fin numWorkers}
    {e : SPSCQueue.Event (OrderCommand P)} {q : SPSCQueue.State (OrderCommand P)}
    (hq : SPSCQueue.Step moved (t.queues w) e q)
    (he : e.OfPop) (hqueues : u.queues = Function.update t.queues w q)
    (hpushing : u.pushing = t.pushing) (hproducer : u.producer = t.producer) :
    u.ahead = t.ahead ∧ u.pending = t.pending := by
  have hsame : ∀ w', (u.queues w').push = (t.queues w').push ∧
      (u.queues w').rejects = (t.queues w').rejects := by
    intro w'
    rw [hqueues]
    by_cases hw : w' = w
    · subst hw
      rw [Function.update_self]
      exact SPSCQueue.push_of_pop hq he
    · rw [Function.update_of_ne hw]
      exact ⟨rfl, rfl⟩
  exact ⟨ahead_congr hproducer hpushing fun w => (hsame w).2,
    pending_congr hproducer hpushing (fun w => (hsame w).1) fun w => (hsame w).2⟩

/-- A step of `pop` that releases no slot. -/
theorem Linearizes.popQuiet (h : Linearizes es t cs x) {w : Fin numWorkers}
    {e : SPSCQueue.Event (OrderCommand P)} {q : SPSCQueue.State (OrderCommand P)}
    (hquiet : Quiet e) (he : e.OfPop) (hq : SPSCQueue.Step moved (t.queues w) e q) :
    ∃ cs' x', Path (Guarded System.ClientCommand System.Step) x cs' x' ∧
      Linearizes (es ++ [.pop w e]) { t with queues := Function.update t.queues w q }
        (cs ++ cs') x' := by
  obtain ⟨hahead, hpending⟩ := call_of_pop
    (u := { t with queues := Function.update t.queues w q }) hq he rfl rfl rfl
  refine h.silent hquiet (queueEvents_pop w · _) (fun _ => rfl) rfl rfl rfl rfl hahead ?_
  rw [hpending]
  rfl

theorem Linearizes.popTrue (h : Linearizes es t cs x) (hI : Inv capacity es t)
    {w : Fin numWorkers} {cmd : OrderCommand P} {q : SPSCQueue.State (OrderCommand P)}
    (hstate : t.workerStates w = .polling)
    (hq : SPSCQueue.Step moved (t.queues w) (.popStore cmd) q) :
    ∃ cs' x', Path (Guarded System.ClientCommand System.Step) x cs' x' ∧
      Linearizes (es ++ [.pop w (.popStore cmd)])
        { t with
          queues := Function.update t.queues w q
          workerStates := Function.update t.workerStates w
            (if cmd.type = .shutdown then .stopped else .popped cmd)
          cmds := Function.update t.cmds w cmd } (cs ++ cs') x' := by
  -- What the ring releases is the first item of the channel.
  obtain ⟨c, hrecv⟩ := (hI.queue w).receive_of_store (h.items w) hq
  obtain ⟨hahead, hpending⟩ := call_of_pop (u :=
    { t with
      queues := Function.update t.queues w q
      workerStates := Function.update t.workerStates w
        (if cmd.type = .shutdown then .stopped else .popped cmd)
      cmds := Function.update t.cmds w cmd }) hq trivial rfl rfl rfl
  have hpolling : x.workerStates w = .polling := by
    rw [h.states_eq]
    exact hstate
  refine ⟨[.pop w (some cmd)], _, .cons ⟨trivial, .pop x w cmd c hpolling hrecv⟩ (.nil _),
    h.extend h.alloc_eq h.router_eq h.workers_eq ?_ (h.producer_eq.trans hahead.symm) ?_ ?_
      fun _ => rfl⟩
  · rw [h.states_eq]
  · intro w'
    rw [queueEvents_pop]
    by_cases hw : w = w'
    · subst hw
      rw [if_pos rfl, Channel.receive_eq_some hrecv]
      show _ = SPSCQueue.popped [.popStore cmd] ++ (Function.update x.queues w c w).items
      rw [Function.update_self]
      simp [SPSCQueue.pushed, SPSCQueue.popped]
    · rw [if_neg hw]
      show _ = SPSCQueue.popped [] ++ (Function.update x.queues w c w').items
      rw [Function.update_of_ne (Ne.symm hw)]
      exact List.append_nil _
  · rw [hpending]
    exact List.append_nil _

theorem Linearizes.process (h : Linearizes es t cs x) {w : Fin numWorkers} {cmd : OrderCommand P}
    {clock : Clock} {found : Bool} {worker : Worker P} {alloc : IdAllocator}
    (hstate : t.workerStates w = .popped cmd)
    (hok : (t.workers w).processCommand t.alloc cmd clock = .ok (found, worker, alloc)) :
    ∃ cs' x', Path (Guarded System.ClientCommand System.Step) x cs' x' ∧
      Linearizes (es ++ [.process w cmd clock found])
        { t with
          alloc := alloc
          workers := Function.update t.workers w worker
          workerStates := Function.update t.workerStates w .polling } (cs ++ cs') x' := by
  rw [← h.states_eq] at hstate
  rw [← h.workers_eq, ← h.alloc_eq] at hok
  refine ⟨[.process w cmd clock found], _,
    .cons ⟨trivial, .process x w cmd clock found worker alloc hstate hok⟩ (.nil _),
    h.extend rfl h.router_eq ?_ ?_ h.producer_eq ?_ ?_ ?_⟩
  · rw [h.workers_eq]
  · rw [h.states_eq]
  · intro w'
    exact List.append_nil _
  · exact List.append_nil _
  · intro w'
    rfl

/-! ### Every run -/

theorem Linearizes.step (h : Linearizes es t cs x) (hI : Inv capacity es t)
    {e : Event P numWorkers} (hs : Guarded ClientCommand (Step moved) t e t') :
    ∃ cs' x', Path (Guarded System.ClientCommand System.Step) x cs' x' ∧
      Linearizes (es ++ [e]) t' (cs ++ cs') x' := by
  obtain ⟨hclient, hs⟩ := hs
  cases hs with
  | submitUnknown cmd hp hn hr =>
    have hx : x.producer = .submitting := h.producer_eq.trans (ahead_of_submitting hp)
    rw [← h.router_eq] at hr
    refine ⟨[.submit cmd false], x, .cons ⟨hclient, .submitUnknown x cmd hx hr⟩ (.nil x),
      h.extend h.alloc_eq h.router_eq h.workers_eq h.states_eq h.producer_eq
        (fun w => List.append_nil _) ?_ fun _ => rfl⟩
    rw [pending_of_idle hn]
    rfl
  | submitCall overload cmd w q hp hn hr hq => exact h.submitCall hp hn hq
  | submitStep w e q hp hn he hq => exact h.submitStep hI hp hn he hq
  | submitFalse w left q hp hn hq => exact h.submitFalse hp hn hq
  | submitTrue w cmd left q hp hn hq => exact h.submitTrue hI hp hn hq
  | shutdownLoop p hn hloop => exact h.shutdownLoop hn hloop
  | shutdownCall submitted count w now q hp hn hflag hq => exact h.shutdownCall hp hn hq
  | shutdownStep submitted count w e q hp hn he hq => exact h.shutdownStep hI hp hn he hq
  | shutdownFalse submitted count w left q hp hn hq => exact h.shutdownFalse hp hn hq
  | shutdownTrue submitted count w cmd left q hp hn hq => exact h.shutdownTrue hI hp hn hq
  | popCall w q hstate hq => exact h.popQuiet ⟨rfl, rfl⟩ trivial hq
  | popStep w e q hstate he hq =>
    obtain ⟨hquiet, hpop⟩ := quiet_of_insidePop he
    exact h.popQuiet hquiet hpop hq
  | popTrue w cmd q hstate hq => exact h.popTrue hI hstate hq
  | process w cmd clock found worker alloc hstate hok => exact h.process hstate hok

/-- At the start nothing is in flight. -/
theorem inv_start [NeZero numWorkers] (hcap : 1 ≤ capacity) (instruments : List Instrument)
    (alloc : IdAllocator) (totalReserveSpace : ℕ) (clock : Clock) (blank : OrderCommand P) :
    Inv capacity [] (start instruments alloc capacity totalReserveSpace clock blank :
      Threads P numWorkers) where
  queue _ := SPSCQueue.inv_start hcap blank
  idle _ _ := rfl
  offer w hw := by cases hw

theorem linearizes_start [NeZero numWorkers] (instruments : List Instrument)
    (alloc : IdAllocator) (totalReserveSpace : ℕ) (clock : Clock) (blank : OrderCommand P) :
    Linearizes []
      (start instruments alloc capacity totalReserveSpace clock blank : Threads P numWorkers) []
      (.start instruments alloc totalReserveSpace clock : System P numWorkers (capacity - 1)) where
  alloc_eq := rfl
  router_eq := rfl
  workers_eq := rfl
  states_eq := rfl
  producer_eq := rfl
  items w := by
    rw [(System.start_spec instruments alloc totalReserveSpace clock rfl).1]
    rfl
  results_eq := rfl
  processed _ := rfl

/-- The commands for which `submit` has returned `true`. -/
def accepted (es : List (Event P numWorkers)) : List (OrderCommand P) :=
  (returned es).filterMap fun r => if r.2 then some r.1 else none

omit [LinearOrder P] [Zero P] in
theorem accepted_of_results (cs : List (System.Event P numWorkers)) :
    System.accepted cs = (results cs).filterMap fun r => if r.2 then some r.1 else none := by
  rw [System.accepted, results, List.filterMap_filterMap]
  apply List.filterMap_congr
  intro e _
  cases e with
  | submit cmd accepted => cases accepted <;> rfl
  | _ => rfl

omit [Zero P] in
/-- A call that is pending will return `false`. -/
theorem pending_false (t : Threads P numWorkers) : ∀ r ∈ t.pending, r.2 = false := by
  intro r hr
  unfold pending at hr
  split at hr
  · split at hr
    · simp only [Option.mem_toList, Option.map_eq_some_iff] at hr
      obtain ⟨cmd, -, rfl⟩ := hr
      rfl
    · cases hr
  · cases hr

omit [Zero P] in
theorem pending_length_le (t : Threads P numWorkers) : t.pending.length ≤ 1 := by
  unfold pending
  split
  · split
    · exact Option.length_toList_le
    · exact Nat.zero_le 1
  · exact Nat.zero_le 1

omit [Zero P] in
theorem Linearizes.accepted_eq (h : Linearizes es t cs x) : System.accepted cs = accepted es := by
  rw [accepted_of_results, h.results_eq, List.filterMap_append, accepted]
  have hnone : (t.pending.filterMap fun r => if r.2 then some r.1 else none) = [] := by
    apply List.filterMap_eq_nil_iff.mpr
    intro r hr
    rw [pending_false t r hr]
    rfl
  rw [hnone, List.append_nil]

/-- From the start the threads have a run of the system beside them. -/
theorem linearizes_of_path [NeZero numWorkers] {instruments : List Instrument} {alloc : IdAllocator}
    {totalReserveSpace : ℕ} {clock : Clock} {blank : OrderCommand P} (hcap : 1 ≤ capacity)
    {t₀ : Threads P numWorkers}
    (ht₀ : t₀ = start instruments alloc capacity totalReserveSpace clock blank)
    (hr : Path (Guarded ClientCommand (Step moved)) t₀ es t) :
    Inv capacity es t ∧ ∃ cs x, Path (Guarded System.ClientCommand System.Step)
        (.start instruments alloc totalReserveSpace clock : System P numWorkers (capacity - 1))
        cs x ∧ Linearizes es t cs x := by
  refine hr.history (I := fun es t => Inv capacity es t ∧ ∃ cs x,
    Path (Guarded System.ClientCommand System.Step)
      (.start instruments alloc totalReserveSpace clock : System P numWorkers (capacity - 1))
      cs x ∧ Linearizes es t cs x) ?_ ?_
  · intro es t e t' h hs
    obtain ⟨hI, cs, x, hpath, hlin⟩ := h
    obtain ⟨cs', x', hpath', hlin'⟩ := hlin.step hI hs
    exact ⟨hI.step hs, cs ++ cs', x', hpath.append hpath', hlin'⟩
  · rw [ht₀]
    exact ⟨inv_start hcap instruments alloc totalReserveSpace clock blank, [], _, .nil _,
      linearizes_start instruments alloc totalReserveSpace clock blank⟩

/-- **Every interleaving of single accesses is one of whole calls.**  The calls
    of `submit` return in the same order and with the same results, every
    worker has processed the same commands, and so commands reach their book. -/
theorem linearizable [NeZero numWorkers] {instruments : List Instrument} {alloc : IdAllocator}
    {totalReserveSpace : ℕ} {clock : Clock} {blank : OrderCommand P} (hcap : 1 ≤ capacity)
    {t₀ : Threads P numWorkers}
    (ht₀ : t₀ = start instruments alloc capacity totalReserveSpace clock blank)
    (hr : Path (Guarded ClientCommand (Step moved)) t₀ es t) :
    ∃ cs x, Path (Guarded System.ClientCommand System.Step)
        (.start instruments alloc totalReserveSpace clock : System P numWorkers (capacity - 1))
        cs x ∧
      Linearizes es t cs x ∧ System.accepted cs = accepted es ∧
      System.Delivered t₀.router cs x := by
  obtain ⟨-, cs, x, hpath, hlin⟩ := linearizes_of_path hcap ht₀ hr
  obtain ⟨hq, hb, hf⟩ := System.queues_books_found rfl hpath
  rw [ht₀]
  exact ⟨cs, x, hpath, hlin, hlin.accepted_eq, .of_invariants hq hb hf⟩

/-- One worker with two slots: a second command finds the queue full and is
    rejected when the first one has been popped. -/
def lateRejection : List (Event ℤ 1) :=
  [.submit 0 (.pushLoadHead .rvalue (System.cancelCmd "SPY")), .submit 0 .pushLoadTail,
    .submit 0 (.pushWrite 0 (System.cancelCmd "SPY")), .pop 0 (.popLoadTail (System.shutdownCmd 0)),
    .submit 0 (.pushStore (System.cancelCmd "SPY") (System.cancelCmd "SPY")),
    .submit 0 (.pushLoadHead .constRef (System.cancelCmd "SPY")), .pop 0 .popLoadHead,
    .submit 0 .pushLoadTail, .pop 0 (.popRead 0 (System.cancelCmd "SPY")),
    .pop 0 (.popStore (System.cancelCmd "SPY")), .submit 0 (.pushFail (System.cancelCmd "SPY"))]

theorem linearizable_lateRejection :
    ∃ t₀ t : Threads ℤ 1, t₀ = start ["SPY"] (.new 1000) 2 10 (fun _ => 0) (System.shutdownCmd 0) ∧
      Path (Guarded ClientCommand (Step fun source _ => source)) t₀ lateRejection t ∧
      ∃ (cs : List (System.Event ℤ 1)) (x : System ℤ 1 (2 - 1)), Linearizes lateRejection t cs x ∧
        System.accepted cs = [System.cancelCmd "SPY"] ∧ System.Delivered t₀.router cs x := by
  have hclient : ∀ (t : Threads ℤ 1) (e : Event ℤ 1), e ∈ lateRejection → t.ClientCommand e := by
    simp [lateRejection, ClientCommand, System.cancelCmd]
  have hr : ∃ t, Path (Step fun source _ => source)
      (start ["SPY"] (.new 1000) 2 10 (fun _ => 0) (System.shutdownCmd 0)) lateRejection t :=
    ⟨_, .cons (.submitCall _ _ _ 0 _ rfl rfl (by decide +kernel) (.pushLoadHead _ _ _ rfl)) <|
      .cons (.submitStep _ 0 _ _ rfl rfl trivial (.pushLoadTail _ _ _ _ rfl)) <|
      .cons (.submitStep _ 0 _ _ rfl rfl trivial (.pushWrite _ _ _ _ 0 _ rfl (by decide) rfl)) <|
      .cons (.popCall _ 0 _ rfl (.popLoadTail _ _ rfl)) <|
      .cons (.submitTrue _ 0 _ _ _ rfl rfl (.pushStore _ _ _ _ rfl)) <|
      .cons (.submitCall _ _ _ 0 _ rfl rfl (by decide +kernel) (.pushLoadHead _ _ _ rfl)) <|
      .cons (.popStep _ 0 _ _ rfl trivial (.popLoadHead _ _ _ rfl)) <|
      .cons (.submitStep _ 0 _ _ rfl rfl trivial (.pushLoadTail _ _ _ _ rfl)) <|
      .cons (.popStep _ 0 _ _ rfl trivial (.popRead _ _ _ 0 _ rfl (by decide) rfl)) <|
      .cons (.popTrue _ 0 _ _ rfl (.popStore _ _ _ rfl)) <|
      .cons (.submitFalse _ 0 _ _ rfl rfl (.pushFail _ _ _ _ _ rfl rfl)) <| .nil _⟩
  obtain ⟨t, ht⟩ := hr
  have hpath : Path (Guarded ClientCommand (Step fun source _ => source))
      (start ["SPY"] (.new 1000) 2 10 (fun _ => 0) (System.shutdownCmd 0)) lateRejection t :=
    ht.mono_of_mem fun e he s s' hs => ⟨hclient s e he, hs⟩
  obtain ⟨cs, x, -, hlin, haccepted, hdelivered⟩ := linearizable (by decide) rfl hpath
  exact ⟨_, t, rfl, hpath, cs, x, hlin, haccepted, hdelivered⟩

end Threads
end Orderbook
