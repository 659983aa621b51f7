import Orderbook.Atomicity
import Orderbook.Progress
import Orderbook.Report
import Orderbook.WaitFree

/-! # Fair schedules of the threads

    If every thread gets its turns, the shutdown completes and no command is
    forgotten, access by access as it does with whole calls.  A call may have
    loaded the index of the other thread too early and be in vain; then the
    next one is not, and the turns of a thread are counted up to that one. -/

namespace Orderbook

/-! ### One queue -/

namespace SPSCQueue
variable {α : Type} {moved : α → α → α} {capacity : ℕ} {es : List (Event α)} {e : Event α}
  {s s' : State α}

/-- The most turns of the consumer until it has popped an item, if there is one
    to pop. -/
def Pop.turns : Pop α → ℕ
  | .idle => 4
  | .loadedTail _ _ => 3
  -- A call that will return `false` is followed by one that will not.
  | .loadedHead _ tail head => if tail = head then 5 else 2
  | .read _ _ => 1

/-- The most turns of the producer until the queue has taken in an item, if
    there is room for it. -/
def State.pushTurns (s : State α) : ℕ :=
  match s.push with
  | .idle => 4
  | .loadedHead _ _ _ => 3
  | .loadedTail _ _ _ _ => if s.rejects then 5 else 2
  | .written _ _ _ => 1

theorem Pop.turns_le (p : Pop α) : p.turns ≤ 5 := by
  cases p with
  | loadedHead out tail head =>
    show (if tail = head then 5 else 2) ≤ 5
    split <;> omega
  | _ => simp [turns]

theorem State.pushTurns_le (s : State α) : s.pushTurns ≤ 5 := by
  unfold pushTurns
  split
  · omega
  · omega
  · split <;> omega
  · omega

theorem pop_turns_of_call {out : α} (hs : Step moved s (.popLoadTail out) s') :
    s'.pop.turns < s.pop.turns := by
  cases hs with
  | popLoadTail out hp => simp [hp, Pop.turns]

/-- A step inside a call of `pop` counts, if there is an item to pop. -/
theorem Inv.pop_turns_of_inside (h : Inv capacity es s)
    (hlen : (popped es).length < (pushed es).length) (hs : Step moved s e s')
    (he : e.InsidePop) : s'.pop.turns < s.pop.turns := by
  cases hs with
  | popLoadHead out tail hp =>
    have hpop := h.pop
    rw [hp] at hpop
    -- The index loaded now is not the one at which the ring is empty.
    have hne : tail ≠ s.queue.head := by
      intro heq
      rw [hpop.1, ← h.tail_eq, h.empty_iff_length] at heq
      omega
    simp [hp, Pop.turns, hne]
  | popFail out tail head hp heq => simp [hp, Pop.turns, heq]
  | popRead out item tail head hp hne hcell => simp [hp, Pop.turns, hne]
  | _ => exact False.elim he

theorem push_turns_of_call {overload : Overload} {item : α}
    (hs : Step moved s (.pushLoadHead overload item) s') : s'.pushTurns = 3 := by
  cases hs with
  | pushLoadHead overload item hp => rfl

theorem push_turns_of_inside (hs : Step moved s e s') (he : e.InsidePush)
    (hr : s'.rejects = false) : s'.pushTurns < s.pushTurns := by
  cases hs with
  | pushLoadTail overload item head hp => simp [State.pushTurns, hp, hr]
  | pushWrite overload item old head tail hp hne hcell =>
    simp only [State.pushTurns, hp]
    split <;> omega
  | _ => exact False.elim he

theorem push_turns_of_fail {left : α} (hs : Step moved s (.pushFail left) s') :
    s.pushTurns = 5 := by
  obtain ⟨-, -, hrej⟩ := push_of_fail hs
  cases hs with
  | pushFail overload item head tail hp heq => simp [State.pushTurns, hp, hrej]

end SPSCQueue

namespace ShutdownLoop
variable {numWorkers : ℕ} {p p' : ProducerState numWorkers}

theorem ne (h : ShutdownLoop p p') : p' ≠ p := by
  intro heq
  cases h with
  | call => cases heq
  | enterRound submitted count hne => cases heq
  | leave submitted count heq' => cases heq
  | leaveRound submitted count i hi => cases heq
  | skipWorker submitted count w hflag => simp at heq

end ShutdownLoop

namespace Threads
variable {P : Type} [LinearOrder P] {numWorkers : ℕ}
  {moved : OrderCommand P → OrderCommand P → OrderCommand P} {capacity : ℕ}
  {es : List (Event P numWorkers)} {t t' : Threads P numWorkers} {e : Event P numWorkers}
  {cs : List (System.Event P numWorkers)} {x : System P numWorkers (capacity - 1)}
  {w : Fin numWorkers}

/-! ### The turns of a thread -/

/-- The most turns that a thread takes until it moves a command, if it can. -/
def turns (t : Threads P numWorkers) : Option (Fin numWorkers) → ℕ
  | none =>
    match t.pushing with
    | some w => (t.queues w).pushTurns
    | none => 4
  | some w => (t.queues w).pop.turns

theorem turns_le (t : Threads P numWorkers) (thread : Option (Fin numWorkers)) :
    t.turns thread ≤ 5 := by
  cases thread with
  | none =>
    unfold turns
    cases t.pushing with
    | none => exact Nat.le_succ 4
    | some w => exact SPSCQueue.State.pushTurns_le _
  | some w => exact SPSCQueue.Pop.turns_le _

theorem turns_of_idle (h : t.pushing = none) : t.turns none = 4 := by
  simp [turns, h]

theorem turns_of_pushing {q : SPSCQueue.State (OrderCommand P)} (h : t.pushing = some w)
    (hq : t.queues w = q) : t.turns none = q.pushTurns := by
  simp [turns, h, hq]

variable [Zero P]

/-- No other thread adds to them. -/
theorem turns_of_other (hs : Step moved t e t') {thread : Option (Fin numWorkers)}
    (hne : e.thread ≠ thread) : t'.turns thread = t.turns thread := by
  cases thread with
  | none =>
    have hsame := sameCall_of_worker hs hne
    unfold turns SPSCQueue.State.pushTurns
    rw [hsame.pushing_eq]
    simp only [hsame.push_eq, hsame.rejects_eq]
  | some w =>
    show (t'.queues w).pop.turns = (t.queues w).pop.turns
    rw [pop_of_other hs hne]

/-- A step of a worker that has something to pop: it uses up a turn, or the
    worker comes to stand elsewhere. -/
theorem Inv.worker_turns (h : Inv capacity es t) (hs : Step moved t e t')
    (hown : e.thread = some w) (hlen : t.workerStates w = .polling →
      (SPSCQueue.popped (queueEvents w es)).length < (SPSCQueue.pushed (queueEvents w es)).length)
    (hstate : t'.workerStates w = t.workerStates w) :
    t'.turns (some w) < t.turns (some w) := by
  cases hs with
  | popCall v q hpolling hq =>
    have hv : v = w := Option.some.inj hown
    subst hv
    show (Function.update t.queues v q v).pop.turns < (t.queues v).pop.turns
    rw [Function.update_self]
    exact SPSCQueue.pop_turns_of_call hq
  | popStep v e q hpolling he hq =>
    have hv : v = w := Option.some.inj hown
    subst hv
    show (Function.update t.queues v q v).pop.turns < (t.queues v).pop.turns
    rw [Function.update_self]
    exact (h.queue v).pop_turns_of_inside (hlen hpolling) hq he
  | popTrue v cmd q hpolling hq =>
    have hv : v = w := Option.some.inj hown
    subst hv
    -- It has popped a command and no longer polls.
    have hstate : Function.update t.workerStates v
        (if cmd.type = .shutdown then .stopped else .popped cmd) v = t.workerStates v := hstate
    rw [Function.update_self, hpolling] at hstate
    split at hstate <;> cases hstate
  | process v cmd clock found worker alloc hpopped hok =>
    have hv : v = w := Option.some.inj hown
    subst hv
    -- It has processed the command and polls again.
    have hstate : Function.update t.workerStates v .polling v = t.workerStates v := hstate
    rw [Function.update_self, hpopped] at hstate
    cases hstate
  | _ => cases hown

/-- A step of the producer in the shutdown: it uses up a turn, or the call in
    progress takes effect. -/
theorem producer_turns (hs : Step moved t e t') (hown : e.thread = none)
    (hcalled : t.producer ≠ .submitting) (hahead : t'.ahead = t.ahead) :
    t'.turns none < t.turns none := by
  cases hs with
  | submitUnknown cmd hp hn hr => exact absurd hp hcalled
  | submitCall overload cmd w q hp hn hr hq => exact absurd hp hcalled
  | submitStep w e q hp hn he hq => exact absurd hp hcalled
  | submitFalse w left q hp hn hq => exact absurd hp hcalled
  | submitTrue w cmd left q hp hn hq => exact absurd hp hcalled
  | shutdownLoop p hn hloop =>
    rw [ahead_of_idle hn] at hahead
    exact absurd ((ahead_of_idle (t := { t with producer := p }) hn).symm.trans hahead) hloop.ne
  | shutdownCall submitted count w now q hp hn hflag hq =>
    rw [turns_of_idle hn, turns_of_pushing (w := w) rfl (Function.update_self w q t.queues),
      SPSCQueue.push_turns_of_call hq]
    exact Nat.lt_succ_self 3
  | shutdownStep submitted count w e q hp hn he hq =>
    have hrej : q.rejects = false := by
      rw [ahead_of_visiting hp hn rfl, SPSCQueue.rejects_before hq he,
        ahead_of_visiting (t := { t with queues := Function.update t.queues w q }) hp hn
          (Function.update_self w q t.queues)] at hahead
      -- Had it found the queue full, the call would have taken effect.
      cases hr : q.rejects with
      | false => rfl
      | true => simp [hr] at hahead
    rw [turns_of_pushing hn rfl, turns_of_pushing (t := { t with
      queues := Function.update t.queues w q }) hn (Function.update_self w q t.queues)]
    exact SPSCQueue.push_turns_of_inside hq he hrej
  | shutdownFalse submitted count w left q hp hn hq =>
    rw [turns_of_pushing hn rfl, SPSCQueue.push_turns_of_fail hq, turns_of_idle rfl]
    exact Nat.lt_succ_self 4
  | shutdownTrue submitted count w cmd left q hp hn hq =>
    -- The pill is sent, so the producer has got further.
    rw [ahead_of_visiting hp hn rfl, ahead_of_idle rfl] at hahead
    simp at hahead
  | _ => cases hown

/-! ### The system beside the threads -/

variable {x₀ : System P numWorkers (capacity - 1)} {router : InstrumentMap (Fin numWorkers)}

/-- A run of the system that is the one of the threads with whole calls. -/
def Along (capacity : ℕ) (x₀ : System P numWorkers (capacity - 1))
    (s : List (Event P numWorkers) × Threads P numWorkers)
    (y : List (System.Event P numWorkers) × System P numWorkers (capacity - 1)) : Prop :=
  Inv capacity s.1 s.2 ∧ Path (Guarded System.ClientCommand System.Step) x₀ y.1 y.2 ∧
    Linearizes s.1 s.2 y.1 y.2

/-- The system goes on with its run. -/
def Onward {bound : ℕ} (y y' : List (System.Event P numWorkers) × System P numWorkers bound) :
    Prop :=
  ∃ cs, y'.1 = y.1 ++ cs ∧ Path (Guarded System.ClientCommand System.Step) y.2 cs y'.2

theorem Onward.refl {bound : ℕ} (y : List (System.Event P numWorkers) × System P numWorkers bound) :
    Onward y y := ⟨[], (List.append_nil _).symm, .nil _⟩

theorem Onward.trans {bound : ℕ}
    {y y' y'' : List (System.Event P numWorkers) × System P numWorkers bound}
    (h : Onward y y') (h' : Onward y' y'') : Onward y y'' := by
  obtain ⟨cs, heq, hpath⟩ := h
  obtain ⟨cs', heq', hpath'⟩ := h'
  refine ⟨cs ++ cs', ?_, hpath.append hpath'⟩
  rw [heq', heq, List.append_assoc]

theorem followed (x₀ : System P numWorkers (capacity - 1)) :
    Execution.Followed (Execution.Recorded (Guarded ClientCommand (Step moved)))
      (Along capacity x₀) Onward := by
  rintro ⟨es, t⟩ e ⟨es', t'⟩ ⟨cs, x⟩ ⟨hI, hpath, hlin⟩ ⟨hs, heq⟩
  have hes : es' = es ++ [e] := heq
  subst hes
  obtain ⟨cs', x', hpath', hlin'⟩ := hlin.step hI hs
  exact ⟨(cs ++ cs', x'), ⟨hI.step hs, hpath.append hpath', hlin'⟩, cs', rfl, hpath'⟩

/-- Where an execution of the threads begins, so does a run of the system. -/
theorem along_of_execution [NeZero numWorkers] {instruments : List Instrument} {alloc : IdAllocator}
    {totalReserveSpace : ℕ} {clock : Clock} {blank : OrderCommand P} (hcap : 1 ≤ capacity)
    {ex : Execution (Threads P numWorkers) (Event P numWorkers)}
    (hstart : ex.state 0 = start instruments alloc capacity totalReserveSpace clock blank)
    (hex : ex.Of (Guarded ClientCommand (Step moved))) :
    ∃ y : ℕ → List (System.Event P numWorkers) × System P numWorkers (capacity - 1),
      (ex.recorded.beside y).Of (Execution.Beside
        (Execution.Recorded (Guarded ClientCommand (Step moved)))
        (Along capacity (.start instruments alloc totalReserveSpace clock)) Onward) ∧
      ∀ i, Along capacity (.start instruments alloc totalReserveSpace clock)
        (ex.history i, ex.state i) (y i) := by
  have hzero : Along capacity (.start instruments alloc totalReserveSpace clock)
      (ex.recorded.state 0) ([], .start instruments alloc totalReserveSpace clock) := by
    show Along _ _ ([], ex.state 0) _
    rw [hstart]
    exact ⟨inv_start hcap instruments alloc totalReserveSpace clock blank, .nil _,
      linearizes_start instruments alloc totalReserveSpace clock blank⟩
  obtain ⟨y, -, hof, hy⟩ := hex.recorded.follow (followed _) hzero
  exact ⟨y, hof, hy⟩

omit [Zero P] in
theorem Linearizes.popped_lt_pushed (h : Linearizes es t cs x) (hne : (x.queues w).items ≠ []) :
    (SPSCQueue.popped (queueEvents w es)).length <
      (SPSCQueue.pushed (queueEvents w es)).length := by
  have hpos := List.length_pos_iff.mpr hne
  rw [h.pushed_length]
  omega

omit [Zero P] in
/-- The shutdown is called in the threads when it is in the system. -/
theorem ahead_eq_submitting : t.ahead = .submitting ↔ t.producer = .submitting := by
  constructor
  · intro h
    unfold ahead at h
    split at h
    · next submitted count i w hp hn =>
      split at h
      · cases h
      · exact h
    · exact h
  · exact ahead_of_submitting

/-! ### The shutdown completes -/

/-- The shutdown is called, and every thread that is not finished can go on. -/
structure Closing (moved : OrderCommand P → OrderCommand P → OrderCommand P)
    (x₀ : System P numWorkers (capacity - 1)) (router : InstrumentMap (Fin numWorkers))
    (p : (List (Event P numWorkers) × Threads P numWorkers) ×
      (List (System.Event P numWorkers) × System P numWorkers (capacity - 1))) : Prop where
  along : Along capacity x₀ p.1 p.2
  called : System.Called router p.2.2
  goes_on : ∀ thread, ¬ p.1.2.Finished thread →
    ∃ e t', e.thread = thread ∧ Guarded ClientCommand (Step moved) p.1.2 e t'

/-- All threads have come to their end. -/
def Closed (t : Threads P numWorkers) : Prop := ∀ thread, t.Finished thread

omit [Zero P] in
/-- Whoever helps the system is not finished. -/
theorem not_finished_of_helpful (hlin : Linearizes es t cs x) (hcalled : System.Called router x)
    (hopen : ¬ t.Closed) : ¬ t.Finished x.helpful := by
  intro hfin
  cases hhelp : x.helpful with
  | none =>
    rw [hhelp] at hfin
    -- The call has returned and nobody has anything to do, so all is done.
    have hproducer : x.producer = .returned := by
      rw [hlin.producer_eq, ahead, show t.producer = .returned from hfin]
    have hclosed := hcalled.closed hproducer hhelp
    apply hopen
    intro thread
    cases thread with
    | none => exact hfin
    | some w =>
      show t.workerStates w = .stopped
      rw [← hlin.states_eq]
      exact hclosed.2 w
  | some w =>
    rw [hhelp] at hfin
    -- Who has stopped is not busy.
    have hbusy := System.busy_of_helpful hhelp
    rw [System.busy, hlin.states_eq, show t.workerStates w = .stopped from hfin] at hbusy
    cases hbusy

/-- While the system does not come nearer to its end, whoever helps it uses up
    its turns. -/
theorem turns_lt_of_helpful (hI : Inv capacity es t) (hlin : Linearizes es t cs x)
    (hcalled : System.Called router x) (hs : Step moved t e t') {es' : List (Event P numWorkers)}
    {cs' : List (System.Event P numWorkers)} {x' : System P numWorkers (capacity - 1)}
    (hlin' : Linearizes es' t' cs' x') (hidles : System.Idles x x')
    (hown : e.thread = x.helpful) : t'.turns x.helpful < t.turns x.helpful := by
  cases hhelp : x.helpful with
  | none =>
    rw [hhelp] at hown
    refine producer_turns hs hown ?_ ?_
    · rw [Ne, ← ahead_eq_submitting, ← hlin.producer_eq]
      exact hcalled.called
    · -- The producer helps, so it stays where it is.
      rw [← hlin'.producer_eq, ← hlin.producer_eq]
      exact hidles.producer_eq hhelp
  | some w =>
    rw [hhelp] at hown
    have hbusy := System.busy_of_helpful hhelp
    refine hI.worker_turns hs hown ?_ ?_
    · intro hpolling
      -- A busy worker without a command in hand has one in its queue.
      rw [System.busy, hlin.states_eq, hpolling] at hbusy
      refine hlin.popped_lt_pushed ?_
      simpa using hbusy
    · rw [← hlin'.states_eq, ← hlin.states_eq, hidles.states_eq]

theorem closing_helped (hcap : 2 ≤ capacity) (x₀ : System P numWorkers (capacity - 1))
    (router : InstrumentMap (Fin numWorkers)) :
    Execution.Helped
      (Execution.Beside (Execution.Recorded (Guarded ClientCommand (Step moved)))
        (Along capacity x₀) Onward)
      (fun thread e => e.thread = thread) (Closing moved x₀ router) (fun p => p.1.2.Closed)
      (fun p => p.2.2.measure * (5 + 1) + p.1.2.turns p.2.2.helpful)
      (fun p => p.2.2.helpful) := by
  refine Execution.Helped.of_beside
    (fun y : List (System.Event P numWorkers) × System P numWorkers (capacity - 1) => y.2.measure)
    (fun y => y.2.helpful)
    (fun s : List (Event P numWorkers) × Threads P numWorkers => s.2.turns)
    (fun s => s.2.turns_le) ?_ ?_
  · rintro ⟨⟨es, t⟩, cs, x⟩ h hopen
    obtain ⟨e, t', hown, hs⟩ := h.goes_on _ (not_finished_of_helpful h.along.2.2 h.called hopen)
    exact Execution.Enabled.beside (Execution.Enabled.recorded ⟨e, t', hown, hs⟩ es) (followed x₀)
      h.along
  · rintro ⟨⟨es, t⟩, cs, x⟩ e ⟨⟨es', t'⟩, cs', x'⟩ h hopen
      ⟨⟨⟨-, hs⟩, -⟩, ⟨-, -, hlin'⟩, ⟨ds, -, hpath⟩⟩
    obtain ⟨hI, -, hlin⟩ := h.along
    rcases h.called.advances_path (by omega) hpath with hlt | hidles
    · exact Or.inl hlt
    · exact Or.inr ⟨hidles.measure_eq, hidles.helpful_eq,
        turns_lt_of_helpful hI hlin h.called hs hlin' hidles, fun hne => turns_of_other hs hne⟩

/-- The commands applied to the book that worker `w` keeps for an instrument. -/
def appliedTo (w : Fin numWorkers) (instrument : Instrument) (es : List (Event P numWorkers)) :
    List (OrderCommand P × Clock) :=
  (processedBy w es).filter fun e => e.1.order.instrument = instrument

omit [Zero P] in
theorem Linearizes.appliedTo_eq (h : Linearizes es t cs x) (instrument : Instrument) :
    System.appliedTo w instrument cs = appliedTo w instrument es := by
  rw [System.appliedTo, h.processed, appliedTo]

section Fair
variable [NeZero numWorkers] {ex : Execution (Threads P numWorkers) (Event P numWorkers)}
  {instruments : List Instrument} {blockSize : OrderId} {totalReserveSpace : ℕ} {clock : Clock}
  {blank : OrderCommand P}

/-- **Every thread comes to its end.**  However the single accesses are
    interleaved, if every thread gets its turns and the queues have two slots
    or more, `submit_all_shutdown_commands` returns once it is called and all
    workers stop, every command accepted having been applied to its book. -/
theorem all_finish (hsize : 1 ≤ blockSize) (hcap : 2 ≤ capacity)
    (hstart : ex.state 0 =
      start instruments (.new blockSize) capacity totalReserveSpace clock blank)
    (hex : ex.Of (Guarded ClientCommand (Step moved)))
    (hfair : ∀ thread, ex.FairTo (Guarded ClientCommand (Step moved)) (fun e => e.thread = thread))
    {i : ℕ} (hcalled : (ex.state i).producer ≠ .submitting)
    (hroom : FIRST_ORDER_ID.toNat +
      blockSize.toNat * (instruments.length + (accepted (ex.history i)).length) < 2 ^ 64) :
    ∃ j, i ≤ j ∧ (ex.state j).Closed ∧
      ∀ instrument w, (ex.state 0).router.find? instrument = some w →
        (appliedTo w instrument (ex.history j)).map Prod.fst =
          acceptedFor instrument (ex.history i) := by
  obtain ⟨y, hof, hy⟩ := along_of_execution (by omega) hstart hex
  let x₀ : System P numWorkers (capacity - 1) :=
    .start instruments (.new blockSize) totalReserveSpace clock
  have hrouter : (ex.state 0).router = x₀.router := by rw [hstart]; rfl
  -- From the call on the system accepts nothing, and so the threads do not either.
  have hsame : ∀ j, i ≤ j → (y j).2.producer ≠ .submitting ∧
      System.accepted (y j).1 = System.accepted (y i).1 := by
    intro j hij
    obtain ⟨cs, heq, hpath⟩ := hof.moved Onward.refl (fun _ _ _ => Onward.trans) hij
    have hsubmitting : (y i).2.producer ≠ .submitting := by
      rw [(hy i).2.2.producer_eq, Ne, ahead_eq_submitting]
      exact hcalled
    obtain ⟨hcalled', hnone⟩ := System.called_path hpath hsubmitting
    refine ⟨hcalled', ?_⟩
    rw [heq, System.accepted_append, hnone, List.append_nil]
  -- So the ids suffice for ever, and every thread can go on.
  have hqueues : ∀ j, i ≤ j → System.Queues x₀.router (y j).1 (y j).2 ∧
      Closing moved x₀ x₀.router ((ex.history j, ex.state j), y j) := by
    intro j hij
    obtain ⟨hcalled', haccepted⟩ := hsame j hij
    obtain ⟨hI, hpath, hlin⟩ := hy j
    obtain ⟨hq, hb, s, hfirst, hsup⟩ := System.supplied_of_path hsize rfl hpath
      (by rw [haccepted, (hy i).2.2.accepted_eq]; exact hroom)
    exact ⟨hq, hy j, ⟨⟨_, hq⟩, hcalled'⟩, hlin.goes_on hI (hsup.served hfirst hq hb).goes_on⟩
  obtain ⟨j, hij, hclosed⟩ := hof.eventually (fun thread => (hfair thread).recorded.beside y)
    (closing_helped hcap x₀ x₀.router) fun j hij => (hqueues j hij).2
  refine ⟨j, hij, hclosed, ?_⟩
  -- A worker that has stopped has processed all that was accepted for it.
  intro instrument w hw
  rw [hrouter] at hw
  have hq := (hqueues j hij).1
  have hstopped : (y j).2.workerStates w = .stopped := by
    rw [(hy j).2.2.states_eq]
    exact hclosed (some w)
  rw [← (hy j).2.2.appliedTo_eq, ← (hy i).2.2.acceptedFor_eq, System.appliedTo_map_fst,
    (hq.processed_in_order w).2 hstopped, ← System.acceptedFor_eq _ hw, System.acceptedFor,
    System.acceptedFor, (hsame j hij).2]

end Fair

/-- After the shutdown nothing happens. -/
theorem Closed.final (h : t.Closed) : ¬ Step moved t e t' := by
  have hp : t.producer = .returned := h none
  have hs : ∀ w, t.workerStates w = .stopped := fun w => h (some w)
  intro hstep
  cases hstep with
  | submitUnknown cmd hp' => exact nomatch hp.symm.trans hp'
  | submitCall overload cmd w q hp' => exact nomatch hp.symm.trans hp'
  | submitStep w e q hp' => exact nomatch hp.symm.trans hp'
  | submitFalse w left q hp' => exact nomatch hp.symm.trans hp'
  | submitTrue w cmd left q hp' => exact nomatch hp.symm.trans hp'
  | shutdownLoop p hn hloop =>
    rw [hp] at hloop
    cases hloop
  | shutdownCall submitted count w now q hp' => exact nomatch hp.symm.trans hp'
  | shutdownStep submitted count w e q hp' => exact nomatch hp.symm.trans hp'
  | shutdownFalse submitted count w left q hp' => exact nomatch hp.symm.trans hp'
  | shutdownTrue submitted count w cmd left q hp' => exact nomatch hp.symm.trans hp'
  | popCall w q hs' => exact nomatch (hs w).symm.trans hs'
  | popStep w e q hs' => exact nomatch (hs w).symm.trans hs'
  | popTrue w cmd q hs' => exact nomatch (hs w).symm.trans hs'
  | process w cmd clock found worker alloc hs' => exact nomatch (hs w).symm.trans hs'

/-- A run of the system that ends with the shutdown, as an execution of the
    threads that pauses for ever after it. -/
theorem exists_of_system [NeZero numWorkers]
    (moved : OrderCommand P → OrderCommand P → OrderCommand P) (hcap : 1 ≤ capacity)
    {instruments : List Instrument} {alloc : IdAllocator} {totalReserveSpace : ℕ} {clock : Clock}
    (blank : OrderCommand P)
    {cs' : List (System.Event P numWorkers)} {x' : System P numWorkers (capacity - 1)}
    (hr : Path (Guarded System.ClientCommand System.Step)
      (.start instruments alloc totalReserveSpace clock) cs x)
    (hr' : Path (Guarded System.ClientCommand System.Step) x cs' x') (hclosed : x'.Closed) :
    ∃ ex : Execution (Threads P numWorkers) (Event P numWorkers), ∃ i j,
      ex.state 0 = start instruments alloc capacity totalReserveSpace clock blank ∧
      ex.Of (Guarded ClientCommand (Step moved)) ∧
      (∀ thread, ex.FairTo (Guarded ClientCommand (Step moved)) (fun e => e.thread = thread)) ∧
      Linearizes (ex.history i) (ex.state i) cs x ∧
      ∀ k, Linearizes (ex.history (i + (j + k))) (ex.state (i + (j + k))) (cs ++ cs') x' := by
  obtain ⟨es, t, hpath, hlin, hb⟩ :=
    realized hcap instruments alloc totalReserveSpace clock blank hr
  obtain ⟨hI, -⟩ := linearizes_of_path hcap rfl hpath
  obtain ⟨es', t', hpath', hlin', hb'⟩ := hlin.realize_path hI hb hr'
  -- The two runs one after the other, and then nothing more.
  obtain ⟨ex', hof', hzero', hhist', hstate'⟩ := Execution.exists_of_path hpath'
  obtain ⟨ex, hof, hzero, hhist, hstate⟩ := hof'.append (by rw [hzero']; exact hpath)
  have hlast : ∀ k, ex.state (es.length + (es'.length + k)) = t' := by
    intro k
    rw [hstate, hstate']
  refine ⟨ex, es.length, es'.length, hzero, hof, ?_, ?_, ?_⟩
  · intro thread
    apply Execution.FairTo.of_disabled (n := es.length + es'.length)
    rintro k ⟨e, u, -, -, hstep⟩
    rw [Nat.add_assoc, hlast k] at hstep
    -- In the last state no thread can take a step that it would be refused.
    refine Closed.final ?_ hstep
    intro thread
    cases thread with
    | none =>
      show t'.producer = .returned
      rw [← ahead_of_idle hb'.1, ← hlin'.producer_eq]
      exact hclosed.1
    | some w =>
      show t'.workerStates w = .stopped
      rw [← hlin'.states_eq]
      exact hclosed.2 w
  · have hi := hhist 0
    have hs := hstate 0
    have he : ex'.history 0 = [] := rfl
    rw [Nat.add_zero, he, List.append_nil] at hi
    rw [Nat.add_zero, hzero'] at hs
    rw [hi, hs]
    exact hlin
  · intro k
    rw [hhist, hhist', hlast]
    exact hlin'

/-- The queues are not empty when the shutdown is called, and one of them is
    full when its pill is first tried. -/
theorem all_finish_fullQueue : ∃ ex : Execution (Threads ℤ 2) (Event ℤ 2), ∃ i j,
    accepted (ex.history i) = System.accepted (System.fullQueue.take 7) ∧ i ≤ j ∧
      (ex.state j).Closed := by
  have hr : ∃ x ∈ (System.fullQueue.take 7).foldlM System.next?
      (.start ["SPY", "QQQ", "IWM", "SPY"] (.new 1000) 10 (fun _ => 0) : System ℤ 2 (2 - 1)),
      x.producer ≠ .submitting ∧
      ∃ x' ∈ (System.fullQueue.drop 7).foldlM System.next? x, x'.Closed := by
    decide +kernel
  obtain ⟨x, hx, hcalled, x', hx', hclosed⟩ := hr
  have hclient : ∀ e ∈ System.fullQueue, ∀ y : System ℤ 2 (2 - 1), y.ClientCommand e := by
    simp [System.fullQueue, System.ClientCommand, System.cancelCmd]
  have hpath := System.path_of_foldlM (fun e he => hclient e (List.mem_of_mem_take he)) hx
  have hpath' := System.path_of_foldlM (fun e he => hclient e (List.mem_of_mem_drop he)) hx'
  obtain ⟨ex, i, -, hzero, hof, hfair, hlin, -⟩ := exists_of_system
    (fun source _ => source) (by decide) (System.shutdownCmd 0) hpath hpath' hclosed
  have haccepted := hlin.accepted_eq
  obtain ⟨j, hij, hjclosed, -⟩ := all_finish (by decide) (by decide) hzero hof hfair (i := i)
    (by rw [Ne, ← ahead_eq_submitting, ← hlin.producer_eq]; exact hcalled)
    (by rw [← haccepted]; decide)
  exact ⟨ex, i, j, haccepted.symm, hij, hjclosed⟩

/-! ### No command is forgotten -/

/-- There are `n + 1` commands for the worker, and unless it has stopped it can
    go on. -/
structure Owes (moved : OrderCommand P → OrderCommand P → OrderCommand P)
    (x₀ : System P numWorkers (capacity - 1)) (router : InstrumentMap (Fin numWorkers))
    (w : Fin numWorkers) (n : ℕ)
    (p : (List (Event P numWorkers) × Threads P numWorkers) ×
      (List (System.Event P numWorkers) × System P numWorkers (capacity - 1))) : Prop where
  along : Along capacity x₀ p.1 p.2
  owed : System.Owed router w n p.2
  goes_on : ¬ p.1.2.Finished (some w) →
    ∃ e t', e.thread = some w ∧ Guarded ClientCommand (Step moved) p.1.2 e t'

omit [Zero P] in
/-- A worker that owes a command has not stopped. -/
theorem not_finished_of_owed {n : ℕ} (hlin : Linearizes es t cs x)
    (howed : System.Owed router w n (cs, x)) (hopen : ¬ System.CameTo w n (cs, x)) :
    ¬ t.Finished (some w) := by
  intro hfin
  have hstopped : x.workerStates w = .stopped := by
    rw [hlin.states_eq]
    exact hfin
  rcases howed.next_command hopen with ⟨cmd, hs⟩ | ⟨hs, -⟩
  · exact nomatch hstopped.symm.trans hs
  · exact nomatch hstopped.symm.trans hs

/-- While it does not come nearer to what it owes, it uses up its turns. -/
theorem turns_lt_of_owed {n : ℕ} (hI : Inv capacity es t) (hlin : Linearizes es t cs x)
    (howed : System.Owed router w n (cs, x)) (hopen : ¬ System.CameTo w n (cs, x))
    (hs : Step moved t e t') (hstate : t'.workerStates w = t.workerStates w)
    (hown : e.thread = some w) : t'.turns (some w) < t.turns (some w) := by
  refine hI.worker_turns hs hown ?_ hstate
  intro hpolling
  rcases howed.next_command hopen with ⟨cmd, hpopped⟩ | ⟨-, cmd, cmds, hitems, -⟩
  · rw [hlin.states_eq, hpolling] at hpopped
    cases hpopped
  · refine hlin.popped_lt_pushed ?_
    rw [hitems]
    exact List.cons_ne_nil _ _

theorem owing_helped (x₀ : System P numWorkers (capacity - 1))
    (router : InstrumentMap (Fin numWorkers)) (w : Fin numWorkers) (n : ℕ) :
    Execution.Helped
      (Execution.Beside (Execution.Recorded (Guarded ClientCommand (Step moved)))
        (Along capacity x₀) Onward)
      (fun (_ : Unit) e => e.thread = some w) (Owes moved x₀ router w n)
      (fun p => System.CameTo w n p.2)
      (fun p => System.toGo w n p.2 * (5 + 1) + p.1.2.turns (some w)) (fun _ => ()) := by
  refine Execution.Helped.of_beside
    (fun y : List (System.Event P numWorkers) × System P numWorkers (capacity - 1) =>
      System.toGo w n y)
    (fun _ => ())
    (fun (s : List (Event P numWorkers) × Threads P numWorkers) _ => s.2.turns (some w))
    (fun s _ => s.2.turns_le _) ?_ ?_
  · rintro ⟨⟨es, t⟩, cs, x⟩ h hopen
    obtain ⟨e, t', hown, hs⟩ := h.goes_on (not_finished_of_owed h.along.2.2 h.owed hopen)
    exact Execution.Enabled.beside (Execution.Enabled.recorded ⟨e, t', hown, hs⟩ es) (followed x₀)
      h.along
  · rintro ⟨⟨es, t⟩, cs, x⟩ e ⟨⟨es', t'⟩, cs', x'⟩ h hopen
      ⟨⟨⟨-, hs⟩, -⟩, ⟨-, -, hlin'⟩, ⟨ds, heq, hpath⟩⟩
    obtain ⟨hI, -, hlin⟩ := h.along
    have heq : cs' = cs ++ ds := heq
    subst heq
    rcases h.owed.advances_path hopen hpath with hlt | ⟨hsame, hstate⟩
    · exact Or.inl hlt
    · have hstate : t'.workerStates w = t.workerStates w := by
        rw [← hlin'.states_eq, ← hlin.states_eq]
        exact hstate
      exact Or.inr ⟨hsame, rfl, turns_lt_of_owed hI hlin h.owed hopen hs hstate,
        fun hne => turns_of_other hs hne⟩

section Fair
variable [NeZero numWorkers] {ex : Execution (Threads P numWorkers) (Event P numWorkers)}
  {instruments : List Instrument} {blockSize : OrderId} {totalReserveSpace : ℕ} {clock : Clock}
  {blank : OrderCommand P}

/-- **No command is forgotten, access by access.**  If every worker gets its
    turns and there are never more commands accepted than ids, the commands
    for which `submit` has returned `true` at a moment have been applied to
    their book at a later one, in this order. -/
theorem accepted_reach_book (hsize : 1 ≤ blockSize) (hcap : 1 ≤ capacity)
    (hstart : ex.state 0 =
      start instruments (.new blockSize) capacity totalReserveSpace clock blank)
    (hex : ex.Of (Guarded ClientCommand (Step moved)))
    (hfair : ∀ w, ex.FairTo (Guarded ClientCommand (Step moved)) (fun e => e.thread = some w))
    (hroom : ∀ i, FIRST_ORDER_ID.toNat +
      blockSize.toNat * (instruments.length + (accepted (ex.history i)).length) < 2 ^ 64)
    (i : ℕ) {instrument : Instrument} {w : Fin numWorkers}
    (hw : (ex.state 0).router.find? instrument = some w) :
    ∃ j, i ≤ j ∧ acceptedFor instrument (ex.history i) <+:
      (appliedTo w instrument (ex.history j)).map Prod.fst := by
  obtain ⟨y, hof, hy⟩ := along_of_execution hcap hstart hex
  let x₀ : System P numWorkers (capacity - 1) :=
    .start instruments (.new blockSize) totalReserveSpace clock
  have hrouter : (ex.state 0).router = x₀.router := by rw [hstart]; rfl
  rw [hrouter] at hw
  have hgrows : ∀ {j}, i ≤ j →
      System.acceptedTo x₀.router w (y i).1 <+: System.acceptedTo x₀.router w (y j).1 := by
    intro j hij
    obtain ⟨cs, heq, -⟩ := hof.moved Onward.refl (fun _ _ _ => Onward.trans) hij
    rw [heq]
    exact ((List.prefix_append _ _).filterMap _).filter _
  have hserved : ∀ j, System.Queues x₀.router (y j).1 (y j).2 ∧
      (¬ (ex.state j).Finished (some w) →
        ∃ e t', e.thread = some w ∧ Guarded ClientCommand (Step moved) (ex.state j) e t') := by
    intro j
    obtain ⟨hI, hpath, hlin⟩ := hy j
    obtain ⟨hq, hb, s, hfirst, hsup⟩ := System.supplied_of_path hsize rfl hpath
      (by rw [hlin.accepted_eq]; exact hroom j)
    exact ⟨hq, hlin.goes_on hI (hsup.served hfirst hq hb).goes_on _⟩
  -- The worker comes to process as many commands as are accepted now.
  have hcome : ∃ j, i ≤ j ∧ (System.acceptedTo x₀.router w (y i).1).length ≤
      (System.processedBy w (y j).1).length := by
    rcases Nat.eq_zero_or_pos (System.acceptedTo x₀.router w (y i).1).length with hnone | hsome
    · rw [hnone]
      exact ⟨i, Nat.le_refl i, Nat.zero_le _⟩
    · have howes : ∀ j, i ≤ j → Owes moved x₀ x₀.router w
          ((System.acceptedTo x₀.router w (y i).1).length - 1)
          ((ex.history j, ex.state j), y j) := by
        intro j hij
        have hle := (hgrows hij).length_le
        refine ⟨hy j, ⟨(hserved j).1, ?_⟩, (hserved j).2⟩
        show _ < (System.acceptedTo x₀.router w (y j).1).length
        omega
      obtain ⟨j, hij, hcame⟩ := hof.eventually (fun _ => (hfair w).recorded.beside y)
        (owing_helped x₀ x₀.router w _) howes
      exact ⟨j, hij, Nat.le_of_pred_lt hcame⟩
  obtain ⟨j, hij, hle⟩ := hcome
  refine ⟨j, hij, ?_⟩
  -- Both are beginnings of what the queue is sent, so the shorter one comes first.
  rw [← (hy i).2.2.acceptedFor_eq, ← (hy j).2.2.appliedTo_eq, System.appliedTo_map_fst,
    System.acceptedFor_eq _ hw]
  refine List.IsPrefix.filter _ ?_
  refine List.prefix_of_prefix_length_le (hgrows hij) ((hserved j).1.processed_in_order w).1 ?_
  rw [List.length_map]
  exact hle

end Fair

/-- Two commands are in the queue when the worker has its first turn. -/
theorem accepted_reach_book_buyerMeetsSeller :
    ∃ ex : Execution (Threads ℤ 1) (Event ℤ 1), ∃ i j, i ≤ j ∧
      accepted (ex.history i) = [System.addCmd "SPY" .buy 100, System.addCmd "SPY" .sell 100] ∧
      [System.addCmd "SPY" .buy 100, System.addCmd "SPY" .sell 100] <+:
        (appliedTo 0 "SPY" (ex.history j)).map Prod.fst := by
  let rest : List (System.Event ℤ 1) :=
    (System.buyerMeetsSeller 0).drop 2 ++ [.shutdownLoop, .shutdownLoop]
  have hr : ∃ x ∈ ((System.buyerMeetsSeller 0).take 2).foldlM System.next?
      (.start ["SPY"] (.new 1000) 10 (fun _ => 0) : System ℤ 1 (4 - 1)),
      ∃ x' ∈ rest.foldlM System.next? x, x'.Closed := by
    simp only [System.start, buildOrderRoutingSystem, addWorkerContext_eq]
    decide +kernel
  obtain ⟨x, hx, x', hx', hclosed⟩ := hr
  have hpath := System.path_of_foldlM
    (by simp [System.buyerMeetsSeller, System.ClientCommand, System.addCmd]) hx
  have hpath' := System.path_of_foldlM
    (by simp [rest, System.buyerMeetsSeller, System.ClientCommand]) hx'
  obtain ⟨ex, i, j, hzero, hof, hfair, hlin, hlast⟩ := exists_of_system
    (fun source _ => source) (by decide) (System.shutdownCmd 0) hpath hpath' hclosed
  have htwo : accepted (ex.history i) =
      [System.addCmd "SPY" .buy 100, System.addCmd "SPY" .sell 100] := by
    rw [← hlin.accepted_eq]
    decide
  have hroom : ∀ k, FIRST_ORDER_ID.toNat + (1000 : OrderId).toNat *
      (["SPY"].length + (accepted (ex.history k)).length) < 2 ^ 64 := by
    intro k
    have hpre : ex.history k <+: ex.history (i + (j + k)) := ex.history_grows (by omega)
    have hall : accepted (ex.history (i + (j + k))) =
        [System.addCmd "SPY" .buy 100, System.addCmd "SPY" .sell 100] := by
      rw [← (hlast k).accepted_eq]
      decide
    have hle : (accepted (ex.history k)).length ≤ (accepted (ex.history (i + (j + k)))).length :=
      ((hpre.filterMap _).filterMap _).length_le
    have hfirst : FIRST_ORDER_ID.toNat = 1 := rfl
    have hsize : (1000 : OrderId).toNat = 1000 := rfl
    rw [hall] at hle
    rw [hfirst, hsize, List.length_singleton]
    simp only [List.length_cons, List.length_nil] at hle
    omega
  obtain ⟨k, hik, happlied⟩ := accepted_reach_book (by decide) (by decide) hzero hof
    (fun w => hfair (some w)) hroom i
    (show (ex.state 0).router.find? "SPY" = some 0 by rw [hzero]; decide +kernel)
  have hfor : acceptedFor "SPY" (ex.history i) =
      [System.addCmd "SPY" .buy 100, System.addCmd "SPY" .sell 100] := by
    rw [acceptedFor, htwo]
    decide
  rw [hfor] at happlied
  exact ⟨ex, i, k, hik, htwo, happlied⟩

end Threads
end Orderbook
