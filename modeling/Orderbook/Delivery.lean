import Orderbook.Assignment

/-! # Commands reach their book

    Along every interleaving of the producer with the workers: what a worker
    has been sent is what it has processed, what it has in hand and what is in
    its queue; and what it has been sent is what was accepted for it, then
    the pill.  Every book is where a run of its own calls has led it. -/

namespace Orderbook

/-! ### One command on one book -/

section Apply
variable {P : Type} [LinearOrder P] [Zero P]

theorem addOrder_alloc {book book' : OrderBook P} {alloc alloc' : IdAllocator} {client : Order P}
    {clock : Clock} {id : OrderId}
    (h : book.addOrder alloc client clock = .ok (id, book', alloc')) :
    alloc' = alloc ∨ alloc' = alloc.getNextIdBlock.2 := by
  have hdraw : ∀ b : OrderBook P, (b.getOrderId alloc).2.2 = alloc ∨
      (b.getOrderId alloc).2.2 = alloc.getNextIdBlock.2 := by
    intro b
    unfold OrderBook.getOrderId
    split
    · exact Or.inr rfl
    · exact Or.inl rfl
  simp only [OrderBook.addOrder, bind, Except.bind] at h
  split at h
  · cases h
  · cases h
    exact hdraw _

/-- A command is at most one call of the book. -/
theorem Worker.applyCommand_path {book book' : OrderBook P} {alloc alloc' : IdAllocator}
    {cmd : OrderCommand P} {clock : Clock}
    (h : Worker.applyCommand book alloc cmd clock = .ok (book', alloc')) :
    (alloc' = alloc ∨ alloc' = alloc.getNextIdBlock.2) ∧
      ∃ ls, Path Session.Step ⟨book, alloc⟩ ls ⟨book', alloc'⟩ ∧
        Session.calls ls = (cmd.call clock).toList := by
  unfold Worker.applyCommand at h
  cases htype : cmd.type with
  | add =>
    simp only [htype, bind, Except.bind] at h
    split at h
    · cases h
    · next r hok =>
      cases h
      obtain ⟨id, book', alloc'⟩ := r
      refine ⟨addOrder_alloc hok, [(.addOrder cmd.order clock, .orderId id)], .cons ?_ (.nil _), ?_⟩
      · simp only [Session.Step, Session.step, hok, bind, Except.bind]
      · simp [Session.calls, OrderCommand.call, htype]
  | modify =>
    simp only [htype, bind, Except.bind] at h
    split at h
    · cases h
    · next r hok =>
      cases h
      obtain ⟨b, book'⟩ := r
      refine ⟨Or.inl rfl,
        [(.modifyOrder cmd.order.id cmd.order.price cmd.order.quantity clock, .done b)],
        .cons ?_ (.nil _), ?_⟩
      · simp only [Session.Step, Session.step, hok, bind, Except.bind]
      · simp [Session.calls, OrderCommand.call, htype]
  | cancel =>
    simp only [htype, bind, Except.bind] at h
    split at h
    · cases h
    · next r hok =>
      cases h
      obtain ⟨b, book'⟩ := r
      refine ⟨Or.inl rfl, [(.cancelOrder cmd.order.id clock, .done b)], .cons ?_ (.nil _), ?_⟩
      · simp only [Session.Step, Session.step, hok, bind, Except.bind]
      · simp [Session.calls, OrderCommand.call, htype]
  | shutdown =>
    simp only [htype, Except.ok.injEq, Prod.mk.injEq] at h
    obtain ⟨rfl, rfl⟩ := h
    exact ⟨Or.inl rfl, [], .nil _, by simp [Session.calls, OrderCommand.call, htype]⟩

/-- On a sound book a command runs through, unless it looks for a level that
    is not there. -/
theorem Worker.applyCommand_ok {book : OrderBook P} (h : book.Sound) (alloc : IdAllocator)
    (cmd : OrderCommand P) (clock : Clock) :
    (∃ r, Worker.applyCommand book alloc cmd clock = .ok r) ∨ ¬ book.Findable := by
  unfold Worker.applyCommand
  cases cmd.type with
  | add =>
    obtain ⟨id, p, queued, last, book', alloc', hq, hok, -⟩ :=
      OrderBook.addOrder_ok h alloc cmd.order clock
    exact Or.inl ⟨(book', alloc'), by simp only [hok, bind, Except.bind]⟩
  | modify =>
    -- The two calls that look a level up.
    rcases OrderBook.modifyOrder_cases h cmd.order.id cmd.order.price cmd.order.quantity clock with
      ⟨b, book', hok, -⟩ | ⟨-, hf⟩
    · exact Or.inl ⟨(book', alloc), by simp only [hok, bind, Except.bind]⟩
    · exact Or.inr hf
  | cancel =>
    rcases OrderBook.cancelOrder_cases h cmd.order.id clock with ⟨b, book', hok, -⟩ | ⟨-, hf⟩
    · exact Or.inl ⟨(book', alloc), by simp only [hok, bind, Except.bind]⟩
    · exact Or.inr hf
  | shutdown => exact Or.inl ⟨_, rfl⟩

omit [LinearOrder P] [Zero P] in
theorem Session.calls_append (ls ls' : List (Session.Label P)) :
    Session.calls (ls ++ ls') = Session.calls ls ++ Session.calls ls' :=
  List.filterMap_append

end Apply

namespace System
variable {P : Type} {numWorkers : ℕ} {router : InstrumentMap (Fin numWorkers)}
  {es : List (Event P numWorkers)}

/-! ### Queues -/

theorem sentTo_snoc (router : InstrumentMap (Fin numWorkers)) (w : Fin numWorkers)
    (es : List (Event P numWorkers)) (e : Event P numWorkers) :
    sentTo router w (es ++ [e]) = sentTo router w es ++ sentTo router w [e] :=
  List.filterMap_append

theorem accepted_snoc (es : List (Event P numWorkers)) (e : Event P numWorkers) :
    accepted (es ++ [e]) = accepted es ++ accepted [e] :=
  List.filterMap_append

theorem processedBy_snoc (w : Fin numWorkers) (es : List (Event P numWorkers))
    (e : Event P numWorkers) :
    processedBy w (es ++ [e]) = processedBy w es ++ processedBy w [e] :=
  List.filterMap_append

variable [LinearOrder P] {bound : ℕ} {x x' : System P numWorkers bound}

/-- The accepted commands for the instruments that are routed to `w`. -/
def acceptedTo (router : InstrumentMap (Fin numWorkers)) (w : Fin numWorkers)
    (es : List (Event P numWorkers)) : List (OrderCommand P) :=
  (accepted es).filter fun cmd => router.find? cmd.order.instrument = some w

/-- What a worker has popped and not processed. -/
def InHand (state : WorkerState P) (cmds : List (OrderCommand P)) : Prop :=
  match state with
  | .polling => cmds = []
  | .popped cmd => cmds = [cmd] ∧ cmd.type ≠ .shutdown
  | .stopped => ∃ cmd, cmds = [cmd] ∧ cmd.type = .shutdown

/-- The producer has put the pill into the queue of `w`. -/
def Pilled (w : Fin numWorkers) : ProducerState numWorkers → Prop
  | .submitting => False
  | .checking submitted _ => submitted w = true
  | .visiting submitted _ _ => submitted w = true
  | .returned => True

/-- `shutdown_count` is the number of the flags that are set. -/
def Counted : ProducerState numWorkers → Prop
  | .checking submitted count => (Finset.univ.filter fun w => submitted w = true).card = count
  | .visiting submitted count _ => (Finset.univ.filter fun w => submitted w = true).card = count
  | _ => True

structure Queues (router : InstrumentMap (Fin numWorkers)) (es : List (Event P numWorkers))
    (x : System P numWorkers bound) : Prop where
  router_eq : x.router = router
  sent : ∀ w, ∃ hand, InHand (x.workerStates w) hand ∧
    sentTo router w es = (processedBy w es).map Prod.fst ++ hand ++ (x.queues w).items
  pills : ∀ w, ∃ tail, sentTo router w es = acceptedTo router w es ++ tail ∧
    (¬ Pilled w x.producer → tail = []) ∧
    (Pilled w x.producer → ∃ cmd, tail = [cmd] ∧ cmd.type = .shutdown)
  counted : Counted x.producer
  client : ∀ cmd ∈ accepted es, cmd.type ≠ .shutdown
  processed : ∀ w, ∀ e ∈ processedBy w es, e.1.type ≠ .shutdown

/-- A step that moves no command. -/
theorem Queues.quiet (h : Queues router es x) {e : Event P numWorkers}
    {p : ProducerState numWorkers} (hsent : ∀ w, sentTo router w [e] = [])
    (hacc : accepted [e] = []) (hproc : ∀ w, processedBy w [e] = [])
    (hp : ∀ w, Pilled w p ↔ Pilled w x.producer) (hc : Counted p) :
    Queues router (es ++ [e]) { x with producer := p } := by
  have hs : ∀ w, sentTo router w (es ++ [e]) = sentTo router w es := by
    intro w
    rw [sentTo_snoc, hsent, List.append_nil]
  have ha : accepted (es ++ [e]) = accepted es := by
    rw [accepted_snoc, hacc, List.append_nil]
  have hpr : ∀ w, processedBy w (es ++ [e]) = processedBy w es := by
    intro w
    rw [processedBy_snoc, hproc, List.append_nil]
  constructor
  case router_eq => exact h.router_eq
  case sent =>
    intro w
    rw [hs, hpr]
    exact h.sent w
  case pills =>
    intro w
    obtain ⟨tail, htail, hno, hyes⟩ := h.pills w
    refine ⟨tail, ?_, fun hn => hno fun hy => hn ((hp w).mpr hy), fun hy => hyes ((hp w).mp hy)⟩
    rw [hs, acceptedTo, ha]
    exact htail
  case counted => exact hc
  case client =>
    rw [ha]
    exact h.client
  case processed =>
    intro w
    rw [hpr]
    exact h.processed w

/-- A command that a queue takes in is there behind the others. -/
theorem Queues.sent_push (h : Queues router es x) {e : Event P numWorkers} {w : Fin numWorkers}
    {cmd : OrderCommand P} {q : Channel (OrderCommand P) bound}
    (hq : (x.queues w).send cmd = some q)
    (hsent : ∀ w', sentTo router w' [e] = if w' = w then [cmd] else [])
    (hproc : ∀ w, processedBy w [e] = []) (w' : Fin numWorkers) :
    ∃ hand, InHand (x.workerStates w') hand ∧ sentTo router w' (es ++ [e]) =
      (processedBy w' (es ++ [e])).map Prod.fst ++ hand ++
        (Function.update x.queues w q w').items := by
  obtain ⟨hand, hhand, heq⟩ := h.sent w'
  refine ⟨hand, hhand, ?_⟩
  rw [sentTo_snoc, hsent, processedBy_snoc, hproc, List.append_nil, heq]
  by_cases hw : w' = w
  · subst hw
    rw [if_pos rfl, Function.update_self, Channel.send_eq_some hq, List.append_assoc]
  · rw [if_neg hw, Function.update_of_ne hw, List.append_nil]

theorem Queues.submit (h : Queues router es x) {w : Fin numWorkers} {cmd : OrderCommand P}
    {q : Channel (OrderCommand P) bound} (hp : x.producer = .submitting)
    (hw : x.router.find? cmd.order.instrument = some w) (hq : (x.queues w).send cmd = some q)
    (hclient : cmd.type ≠ .shutdown) :
    Queues router (es ++ [.submit cmd true])
      { x with queues := Function.update x.queues w q } := by
  rw [h.router_eq] at hw
  have hsent : ∀ w', sentTo router w' [.submit cmd true] = if w' = w then [cmd] else [] := by
    intro w'
    simp only [sentTo, List.filterMap_cons, List.filterMap_nil, hw, Option.some.injEq]
    by_cases hww : w' = w
    · simp [hww]
    · simp [hww, Ne.symm hww]
  have hacc : accepted (es ++ [.submit cmd true]) = accepted es ++ [cmd] := by
    rw [accepted_snoc]
    rfl
  have hnone : ∀ w' : Fin numWorkers, processedBy w' [.submit cmd true] = [] := fun _ => rfl
  constructor
  case router_eq => exact h.router_eq
  case sent => exact h.sent_push hq hsent hnone
  case pills =>
    intro w'
    obtain ⟨tail, htail, hno, hyes⟩ := h.pills w'
    have hnot : ¬ Pilled w' x.producer := by
      rw [hp]
      exact id
    -- No pill has been sent yet.
    rw [hno hnot, List.append_nil] at htail
    refine ⟨[], ?_, fun _ => rfl, fun hy => absurd hy hnot⟩
    rw [sentTo_snoc, hsent, htail, List.append_nil, acceptedTo, acceptedTo, hacc,
      List.filter_append]
    congr 1
    by_cases hww : w' = w
    · simp [hww, hw]
    · simp [hww, hw, Ne.symm hww]
  case counted => exact h.counted
  case client =>
    intro c hc
    rw [hacc] at hc
    rcases List.mem_append.mp hc with hc | hc
    · exact h.client c hc
    · rw [List.mem_singleton.mp hc]
      exact hclient
  case processed =>
    intro w'
    rw [processedBy_snoc, hnone, List.append_nil]
    exact h.processed w'

theorem counted_update {submitted : Fin numWorkers → Bool} {count : ℕ} {w : Fin numWorkers}
    (h : (Finset.univ.filter fun w => submitted w = true).card = count)
    (hw : submitted w = false) :
    (Finset.univ.filter fun w' => Function.update submitted w true w' = true).card = count + 1 := by
  have hset : (Finset.univ.filter fun w' => Function.update submitted w true w' = true) =
      insert w (Finset.univ.filter fun w' => submitted w' = true) := by
    ext w'
    by_cases heq : w' = w
    · subst heq
      simp
    · simp [heq]
  rw [hset, Finset.card_insert_of_notMem (by simp [hw]), h]

theorem Queues.pushShutdown (h : Queues router es x) {submitted : Fin numWorkers → Bool}
    {count : ℕ} {w : Fin numWorkers} {cmd : OrderCommand P} {q : Channel (OrderCommand P) bound}
    (hp : x.producer = .visiting submitted count w) (hflag : submitted w = false)
    (hq : (x.queues w).send cmd = some q) (hpill : cmd.type = .shutdown) :
    Queues router (es ++ [.pushShutdown w cmd true])
      { x with
        queues := Function.update x.queues w q
        producer := .visiting (Function.update submitted w true) (count + 1) (w + 1) } := by
  have hsent : ∀ w', sentTo router w' [.pushShutdown w cmd true] =
      if w' = w then [cmd] else [] := by
    intro w'
    by_cases hww : w' = w
    · simp [sentTo, hww]
    · simp [sentTo, hww, Ne.symm hww]
  have hacc : accepted (es ++ [.pushShutdown w cmd true]) = accepted es := by
    rw [accepted_snoc]
    exact List.append_nil _
  have hnone : ∀ w', processedBy w' [.pushShutdown w cmd true] = [] := fun _ => rfl
  have hcounted := h.counted
  rw [hp] at hcounted
  constructor
  case router_eq => exact h.router_eq
  case sent => exact h.sent_push hq hsent hnone
  case pills =>
    intro w'
    obtain ⟨tail, htail, hno, hyes⟩ := h.pills w'
    rw [hp] at hno hyes
    rw [sentTo_snoc, hsent, htail, acceptedTo, acceptedTo, hacc]
    by_cases hww : w' = w
    · subst hww
      -- The flag is set once, so this is the only pill.
      have htail' : tail = [] := hno (by simp [Pilled, hflag])
      refine ⟨[cmd], by simp [htail'], ?_, fun _ => ⟨cmd, rfl, hpill⟩⟩
      intro hn
      exact absurd (by simp [Pilled]) hn
    · have hsame : Pilled w' (.visiting (Function.update submitted w true) (count + 1) (w + 1)) ↔
          Pilled w' (.visiting submitted count w) := by
        simp only [Pilled, Function.update_of_ne hww]
      refine ⟨tail, by simp [hww], fun hn => hno fun hy => hn (hsame.mpr hy), ?_⟩
      intro hy
      exact hyes (hsame.mp hy)
  case counted => exact counted_update hcounted hflag
  case client =>
    rw [hacc]
    exact h.client
  case processed =>
    intro w'
    rw [processedBy_snoc, hnone, List.append_nil]
    exact h.processed w'

/-- A step of the worker `w`: what it had in hand and in its queue is what it
    processes, has in hand and leaves in its queue, in this order. -/
theorem Queues.work (h : Queues router es x) {e : Event P numWorkers} {w : Fin numWorkers}
    {state : WorkerState P} {q : Channel (OrderCommand P) bound}
    {done : List (OrderCommand P × Clock)} (hsent : ∀ w', sentTo router w' [e] = [])
    (hacc : accepted [e] = []) (hproc : ∀ w', processedBy w' [e] = if w = w' then done else [])
    (hclient : ∀ e ∈ done, e.1.type ≠ .shutdown)
    (hwork : ∀ hand, InHand (x.workerStates w) hand → ∃ hand', InHand state hand' ∧
      hand ++ (x.queues w).items = done.map Prod.fst ++ hand' ++ q.items)
    (hrouter : x'.router = x.router) (hproducer : x'.producer = x.producer)
    (hqueues : x'.queues = Function.update x.queues w q)
    (hstates : x'.workerStates = Function.update x.workerStates w state) :
    Queues router (es ++ [e]) x' := by
  have hs : ∀ w', sentTo router w' (es ++ [e]) = sentTo router w' es := by
    intro w'
    rw [sentTo_snoc, hsent, List.append_nil]
  have ha : accepted (es ++ [e]) = accepted es := by
    rw [accepted_snoc, hacc, List.append_nil]
  constructor
  case router_eq => exact hrouter.trans h.router_eq
  case sent =>
    intro w'
    obtain ⟨hand, hhand, heq⟩ := h.sent w'
    rw [hs, processedBy_snoc, hproc, hqueues, hstates]
    by_cases hww : w = w'
    · subst hww
      obtain ⟨hand', hhand', hmove⟩ := hwork hand hhand
      rw [if_pos rfl, Function.update_self, Function.update_self]
      refine ⟨hand', hhand', ?_⟩
      rw [heq, List.append_assoc, hmove, List.map_append]
      simp only [List.append_assoc]
    · rw [if_neg hww, List.append_nil, Function.update_of_ne (Ne.symm hww),
        Function.update_of_ne (Ne.symm hww)]
      exact ⟨hand, hhand, heq⟩
  case pills =>
    intro w'
    rw [hs, acceptedTo, ha, hproducer]
    exact h.pills w'
  case counted =>
    rw [hproducer]
    exact h.counted
  case client =>
    rw [ha]
    exact h.client
  case processed =>
    intro w' e' he'
    rw [processedBy_snoc, hproc] at he'
    rcases List.mem_append.mp he' with he' | he'
    · exact h.processed w' e' he'
    · split at he'
      · exact hclient e' he'
      · cases he'

theorem Queues.pop (h : Queues router es x) {w : Fin numWorkers} {cmd : OrderCommand P}
    {q : Channel (OrderCommand P) bound} (hs : x.workerStates w = .polling)
    (hq : (x.queues w).receive = some (cmd, q)) :
    Queues router (es ++ [.pop w (some cmd)])
      { x with
        queues := Function.update x.queues w q
        workerStates := Function.update x.workerStates w
          (if cmd.type = .shutdown then .stopped else .popped cmd) } := by
  have hproc : ∀ w', processedBy w' [.pop w (some cmd)] = if w = w' then [] else [] := by
    intro w'
    rw [ite_self]
    rfl
  refine h.work (fun _ => rfl) rfl hproc (by simp) ?_ rfl rfl rfl rfl
  intro hand hhand
  rw [hs] at hhand
  have hnil : hand = [] := hhand
  rw [hnil, Channel.receive_eq_some hq]
  refine ⟨[cmd], ?_, rfl⟩
  split
  · next hpill => exact ⟨cmd, rfl, hpill⟩
  · next hclient => exact ⟨rfl, hclient⟩

theorem Queues.process (h : Queues router es x) {w : Fin numWorkers} {cmd : OrderCommand P}
    {clock : Clock} {found : Bool} (alloc : IdAllocator) (worker : Worker P)
    (hs : x.workerStates w = .popped cmd) :
    Queues router (es ++ [.process w cmd clock found])
      { x with
        alloc := alloc
        workers := Function.update x.workers w worker
        workerStates := Function.update x.workerStates w .polling } := by
  have hclient : cmd.type ≠ .shutdown := by
    obtain ⟨hand, hhand, -⟩ := h.sent w
    rw [hs] at hhand
    exact hhand.2
  have hproc : ∀ w', processedBy w' [.process w cmd clock found] =
      if w = w' then [(cmd, clock)] else [] := by
    intro w'
    by_cases hww : w = w'
    · simp [processedBy, hww]
    · simp [processedBy, hww]
  refine h.work (fun _ => rfl) rfl hproc (by simpa using hclient) ?_ rfl rfl
    (Function.update_eq_self w x.queues).symm rfl
  intro hand hhand
  rw [hs] at hhand
  refine ⟨[], rfl, ?_⟩
  rw [hhand.1]
  rfl

variable [Zero P]

theorem Queues.step (h : Queues router es x) {e : Event P numWorkers}
    (hs : Guarded ClientCommand Step x e x') : Queues router (es ++ [e]) x' := by
  obtain ⟨hclient, hs⟩ := hs
  have hcounted := h.counted
  cases hs with
  | submitUnknown cmd hp hw =>
    exact h.quiet (fun _ => rfl) rfl (fun _ => rfl) (fun _ => Iff.rfl) h.counted
  | submitFull cmd w hp hw hq =>
    exact h.quiet (fun _ => rfl) rfl (fun _ => rfl) (fun _ => Iff.rfl) h.counted
  | submit cmd w q hp hw hq => exact h.submit hp hw hq hclient
  | callShutdown hp =>
    apply h.quiet (fun _ => rfl) rfl (fun _ => rfl)
    · intro w
      simp [Pilled, hp]
    · simp [Counted]
  | enterRound submitted count hp hne =>
    rw [hp] at hcounted
    apply h.quiet (p := .visiting submitted count 0) (fun _ => rfl) rfl (fun _ => rfl) _ hcounted
    intro w
    rw [hp]
    exact Iff.rfl
  | shutdownReturn submitted count hp heq =>
    rw [hp] at hcounted
    apply h.quiet (p := .returned) (fun _ => rfl) rfl (fun _ => rfl) _ trivial
    intro w
    -- All flags are set, as many as there are workers.
    have hall : (Finset.univ.filter fun w => submitted w = true) = Finset.univ := by
      apply Finset.eq_univ_of_card
      rw [Fintype.card_fin]
      exact Eq.trans hcounted heq
    have hw : submitted w = true := by
      have hmem := Finset.mem_univ w
      rw [← hall] at hmem
      exact (Finset.mem_filter.mp hmem).2
    rw [hp]
    exact ⟨fun _ => hw, fun _ => trivial⟩
  | leaveRound submitted count i hp hi =>
    rw [hp] at hcounted
    apply h.quiet (p := .checking submitted count) (fun _ => rfl) rfl (fun _ => rfl) _ hcounted
    intro w
    rw [hp]
    exact Iff.rfl
  | skipWorker submitted count w hp hflag =>
    rw [hp] at hcounted
    apply h.quiet (p := .visiting submitted count (w + 1)) (fun _ => rfl) rfl (fun _ => rfl) _
      hcounted
    intro w
    rw [hp]
    exact Iff.rfl
  | shutdownFull submitted count w now hp hflag hq =>
    rw [hp] at hcounted
    apply h.quiet (p := .visiting submitted count (w + 1)) (fun _ => rfl) rfl (fun _ => rfl) _
      hcounted
    intro w
    rw [hp]
    exact Iff.rfl
  | pushShutdown submitted count w now q hp hflag hq => exact h.pushShutdown hp hflag hq rfl
  | popEmpty w hstate hq =>
    exact h.quiet (fun _ => rfl) rfl (fun _ => rfl) (fun _ => Iff.rfl) h.counted
  | pop w cmd q hstate hq => exact h.pop hstate hq
  | process w cmd clock found worker alloc hstate hok => exact h.process alloc worker hstate

/-! ### Books -/

/-- Every book is where its own calls have led it since it was opened, with
    draws of ids for the other books in between. -/
structure Books (router : InstrumentMap (Fin numWorkers)) (es : List (Event P numWorkers))
    (x : System P numWorkers bound) : Prop where
  kept : ∀ instrument w, router.find? instrument = some w →
    (x.workers w).books.find? instrument ≠ none
  runs : ∀ w instrument book, (x.workers w).books.find? instrument = some book →
    ∃ s₀ ls, Session.Fresh s₀ ∧ s₀.book.instrument = instrument ∧
      Path Session.Step s₀ ls ⟨book, x.alloc⟩ ∧
      Session.calls ls = (appliedTo w instrument es).filterMap fun e => e.1.call e.2

/-- A step that processes no command. -/
theorem Books.quiet (h : Books router es x) {e : Event P numWorkers}
    (hproc : ∀ w, processedBy w [e] = []) (hworkers : x'.workers = x.workers)
    (halloc : x'.alloc = x.alloc) : Books router (es ++ [e]) x' := by
  constructor
  · rw [hworkers]
    exact h.kept
  · intro w instrument book hbook
    rw [hworkers] at hbook
    rw [halloc, appliedTo, processedBy_snoc, hproc, List.append_nil]
    exact h.runs w instrument book hbook

omit [LinearOrder P] [Zero P] in
theorem appliedTo_process (w w' : Fin numWorkers) (instrument : Instrument) (cmd : OrderCommand P)
    (clock : Clock) (found : Bool) (es : List (Event P numWorkers)) :
    appliedTo w' instrument (es ++ [.process w cmd clock found]) = appliedTo w' instrument es ++
      if w = w' ∧ cmd.order.instrument = instrument then [(cmd, clock)] else [] := by
  rw [appliedTo, processedBy_snoc, List.filter_append]
  congr 1
  by_cases hw : w = w'
  · by_cases hi : cmd.order.instrument = instrument
    · simp [processedBy, hw, hi]
    · simp [processedBy, hw, hi]
  · simp [processedBy, hw]

omit [Zero P] in
theorem find?_update_workers (x : System P numWorkers bound) (w w' : Fin numWorkers)
    (instrument instrument' : Instrument) (book : OrderBook P) :
    (Function.update x.workers w ⟨(x.workers w).books.insert instrument book⟩ w').books.find?
        instrument' =
      if w = w' ∧ instrument = instrument' then some book
      else (x.workers w').books.find? instrument' := by
  by_cases hw : w = w'
  · subst hw
    rw [Function.update_self, SortedMap.find?_insert]
    simp [eq_comm]
  · rw [Function.update_of_ne (Ne.symm hw)]
    simp [hw]

/-- There is no book for the command: nothing is applied. -/
theorem Books.ignore (h : Books router es x) {w : Fin numWorkers} {cmd : OrderCommand P}
    (clock : Clock) (found : Bool) (hnone : (x.workers w).books.find? cmd.order.instrument = none)
    (hworkers : x'.workers = x.workers) (halloc : x'.alloc = x.alloc) :
    Books router (es ++ [.process w cmd clock found]) x' := by
  constructor
  · rw [hworkers]
    exact h.kept
  · intro w' instrument book hbook
    rw [hworkers] at hbook
    have hother : ¬ (w = w' ∧ cmd.order.instrument = instrument) := by
      intro heq
      rw [← heq.1, ← heq.2, hnone] at hbook
      cases hbook
    rw [appliedTo_process, if_neg hother, List.append_nil, halloc]
    exact h.runs w' instrument book hbook

/-- The book that the command names makes one call; of the others it is known
    that they see at most a draw. -/
theorem Books.apply (h : Books router es x) {w : Fin numWorkers} {cmd : OrderCommand P}
    {clock : Clock} (found : Bool) {book book' : OrderBook P} {alloc : IdAllocator}
    (hbook : (x.workers w).books.find? cmd.order.instrument = some book)
    (hok : Worker.applyCommand book x.alloc cmd clock = .ok (book', alloc))
    (hworkers : x'.workers = Function.update x.workers w
      ⟨(x.workers w).books.insert cmd.order.instrument book'⟩) (halloc : x'.alloc = alloc) :
    Books router (es ++ [.process w cmd clock found]) x' := by
  obtain ⟨hdraw, ls', hpath', hcalls'⟩ := Worker.applyCommand_path hok
  constructor
  · intro instrument w' hw'
    rw [hworkers, find?_update_workers]
    split
    · simp
    · exact h.kept instrument w' hw'
  · intro w' instrument b hb
    rw [hworkers, find?_update_workers] at hb
    rw [appliedTo_process, halloc]
    by_cases hsame : w = w' ∧ cmd.order.instrument = instrument
    · -- The book that the command names.
      obtain ⟨rfl, rfl⟩ := hsame
      rw [if_pos ⟨rfl, rfl⟩, Option.some.injEq] at hb
      subst hb
      obtain ⟨s₀, ls, hfresh, hinstr, hpath, hcalls⟩ := h.runs w _ book hbook
      refine ⟨s₀, ls ++ ls', hfresh, hinstr, hpath.append hpath', ?_⟩
      rw [Session.calls_append, hcalls, hcalls', if_pos ⟨rfl, rfl⟩, List.filterMap_append]
      cases hcall : cmd.call clock with
      | none => simp [hcall]
      | some call => simp [hcall]
    · -- Another one, which at most sees a draw.
      rw [if_neg hsame] at hb
      rw [if_neg hsame, List.append_nil]
      obtain ⟨s₀, ls, hfresh, hinstr, hpath, hcalls⟩ := h.runs w' instrument b hb
      rcases hdraw with rfl | rfl
      · exact ⟨s₀, ls, hfresh, hinstr, hpath, hcalls⟩
      · have hdraws : Session.Step ⟨b, x.alloc⟩ (.otherDraws, .silent)
            ⟨b, x.alloc.getNextIdBlock.2⟩ := rfl
        refine ⟨s₀, ls ++ [(.otherDraws, .silent)], hfresh, hinstr, hpath.snoc hdraws, ?_⟩
        rw [Session.calls_append, hcalls]
        exact List.append_nil _

/-- A command goes to the book it names; what it draws, it draws before the
    eyes of all the others. -/
theorem Books.process (h : Books router es x) {w : Fin numWorkers} {cmd : OrderCommand P}
    {clock : Clock} {found : Bool} {worker : Worker P} {alloc : IdAllocator}
    (hok : (x.workers w).processCommand x.alloc cmd clock = .ok (found, worker, alloc))
    (states : Fin numWorkers → WorkerState P) :
    Books router (es ++ [.process w cmd clock found])
      { x with
        alloc := alloc
        workers := Function.update x.workers w worker
        workerStates := states } := by
  unfold Worker.processCommand at hok
  split at hok
  · next hnone =>
    cases hok
    exact h.ignore clock false hnone (Function.update_eq_self _ _) rfl
  · next book hbook =>
    simp only [bind, Except.bind] at hok
    split at hok
    · cases hok
    · next r happly =>
      obtain ⟨book', alloc'⟩ := r
      cases hok
      exact h.apply true hbook happly rfl rfl

theorem Books.step (h : Books router es x) {e : Event P numWorkers} (hs : Step x e x') :
    Books router (es ++ [e]) x' := by
  cases hs with
  | process w cmd clock found worker alloc hstate hok => exact h.process hok _
  | _ => exact h.quiet (fun _ => rfl) rfl rfl

/-! ### Delivery -/

omit [Zero P] in
/-- A command in hand was accepted for this worker. -/
theorem Queues.popped_routed (h : Queues router es x) {w : Fin numWorkers} {cmd : OrderCommand P}
    (hs : x.workerStates w = .popped cmd) : router.find? cmd.order.instrument = some w := by
  obtain ⟨hand, hhand, heq⟩ := h.sent w
  rw [hs] at hhand
  obtain ⟨tail, htail, hno, hyes⟩ := h.pills w
  have hmem : cmd ∈ acceptedTo router w es ++ tail := by
    rw [← htail, heq, hhand.1]
    simp
  rcases List.mem_append.mp hmem with hmem | hmem
  · exact of_decide_eq_true (List.mem_filter.mp hmem).2
  · -- It is not the pill.
    by_cases hp : Pilled w x.producer
    · obtain ⟨pill, rfl, hpill⟩ := hyes hp
      rw [List.mem_singleton.mp hmem] at hhand
      exact absurd hpill hhand.2
    · rw [hno hp] at hmem
      cases hmem

/-- Everything up to the pill stands before it. -/
theorem eq_of_append_pill {α : Type} {G : α → Prop} {xs ys zs : List α} {a b : α}
    (h : xs ++ a :: ys = zs ++ [b]) (ha : ¬ G a) (hz : ∀ z ∈ zs, G z) : xs = zs ∧ ys = [] := by
  -- By induction on what stands before the pill.
  induction zs generalizing xs with
  | nil =>
    cases xs with
    | nil => exact ⟨rfl, (List.cons.inj h).2⟩
    | cons x xs => simp at h
  | cons z zs ih =>
    cases xs with
    | nil =>
      simp only [List.nil_append, List.cons_append, List.cons.injEq] at h
      exact absurd (h.1 ▸ hz z List.mem_cons_self) ha
    | cons x xs =>
      simp only [List.cons_append, List.cons.injEq] at h
      obtain ⟨rfl, h⟩ := h
      obtain ⟨rfl, hys⟩ := ih h fun z hz' => hz z (List.mem_cons_of_mem _ hz')
      exact ⟨rfl, hys⟩

omit [Zero P] in
theorem Queues.acceptedTo_client (h : Queues router es x) (w : Fin numWorkers) :
    ∀ cmd ∈ acceptedTo router w es, cmd.type ≠ .shutdown :=
  fun cmd hcmd => h.client cmd (List.mem_filter.mp hcmd).1

omit [Zero P] in
/-- A worker processes the commands accepted for it, in that order, and all
    of them by the time it has stopped. -/
theorem Queues.processed_in_order (h : Queues router es x) (w : Fin numWorkers) :
    (processedBy w es).map Prod.fst <+: acceptedTo router w es ∧
      (x.workerStates w = .stopped → (processedBy w es).map Prod.fst = acceptedTo router w es) := by
  obtain ⟨hand, hhand, heq⟩ := h.sent w
  obtain ⟨tail, htail, hno, hyes⟩ := h.pills w
  rw [heq] at htail
  by_cases hp : Pilled w x.producer
  · obtain ⟨pill, rfl, hpill⟩ := hyes hp
    constructor
    · have hpre : (processedBy w es).map Prod.fst <+: acceptedTo router w es ++ [pill] := by
        rw [← htail, List.append_assoc]
        exact List.prefix_append _ _
      rcases List.prefix_concat_iff.mp hpre with hpre | hpre
      · -- The pill itself is not processed.
        have hmem : pill ∈ (processedBy w es).map Prod.fst := by
          rw [hpre]
          simp
        obtain ⟨e, he, rfl⟩ := List.mem_map.mp hmem
        exact absurd hpill (h.processed w e he)
      · exact hpre
    · intro hstopped
      rw [hstopped] at hhand
      obtain ⟨cmd, rfl, hcmd⟩ := hhand
      rw [List.append_assoc] at htail
      exact (eq_of_append_pill htail (G := fun cmd => cmd.type ≠ .shutdown) (by simp [hcmd])
        (h.acceptedTo_client w)).1
  · rw [hno hp, List.append_nil, List.append_assoc] at htail
    constructor
    · rw [← htail]
      exact List.prefix_append _ _
    · intro hstopped
      rw [hstopped] at hhand
      obtain ⟨cmd, rfl, hcmd⟩ := hhand
      have hmem : cmd ∈ acceptedTo router w es := by
        rw [← htail]
        simp
      exact absurd hcmd (h.acceptedTo_client w cmd hmem)

/-- What holds of the system after the history `es`, its router being `router`. -/
structure Delivered (router : InstrumentMap (Fin numWorkers)) (es : List (Event P numWorkers))
    (x : System P numWorkers bound) : Prop where
  /-- The book that an instrument is routed to gets the accepted commands for
      it, in the order of their submission. -/
  applied_in_order : ∀ instrument w, router.find? instrument = some w →
    (appliedTo w instrument es).map Prod.fst <+: acceptedFor instrument es
  nowhere_else : ∀ instrument w, router.find? instrument ≠ some w →
    appliedTo w instrument es = []
  /-- `process_command` always finds the book. -/
  found : ∀ w cmd clock, .process w cmd clock false ∉ es
  kept : ∀ instrument w, router.find? instrument = some w →
    (x.workers w).books.find? instrument ≠ none
  one_shutdown : x.producer = .returned →
    ∀ w, ((sentTo router w es).filter fun cmd => cmd.type = .shutdown).length = 1
  /-- A worker that has stopped has applied them all. -/
  stopped : ∀ instrument w, router.find? instrument = some w → x.workerStates w = .stopped →
    (appliedTo w instrument es).map Prod.fst = acceptedFor instrument es
  /-- A book is where a run of exactly its own calls leads it, from where it
      was opened and with draws of ids by other books. -/
  folded : ∀ w instrument book, (x.workers w).books.find? instrument = some book →
    ∃ s₀ ls, Session.Fresh s₀ ∧ s₀.book.instrument = instrument ∧
      Path Session.Step s₀ ls ⟨book, x.alloc⟩ ∧
      Session.calls ls = (appliedTo w instrument es).filterMap fun e => e.1.call e.2

omit [LinearOrder P] [Zero P] in
/-- The commands for an instrument are among those for its worker. -/
theorem acceptedFor_eq (es : List (Event P numWorkers)) {instrument : Instrument}
    {w : Fin numWorkers} (hw : router.find? instrument = some w) :
    acceptedFor instrument es =
      (acceptedTo router w es).filter fun cmd => cmd.order.instrument = instrument := by
  rw [acceptedFor, acceptedTo, List.filter_filter]
  apply List.filter_congr
  intro cmd _
  by_cases heq : cmd.order.instrument = instrument
  · simp [heq, hw]
  · simp [heq]

omit [LinearOrder P] [Zero P] in
theorem appliedTo_map_fst (w : Fin numWorkers) (instrument : Instrument)
    (es : List (Event P numWorkers)) :
    (appliedTo w instrument es).map Prod.fst =
      ((processedBy w es).map Prod.fst).filter fun cmd => cmd.order.instrument = instrument := by
  rw [appliedTo, List.filter_map]
  rfl

/-- The step that would report a missing book is never taken. -/
theorem found_step (hq : Queues router es x) (hb : Books router es x) {w : Fin numWorkers}
    {cmd : OrderCommand P} {clock : Clock} {found : Bool}
    (hs : Step x (.process w cmd clock found) x') : found = true := by
  cases hs with
  | process _ _ _ _ worker alloc hstate hok =>
    -- It was routed here, and a worker never loses a book.
    have hkept := hb.kept _ w (hq.popped_routed hstate)
    unfold Worker.processCommand at hok
    split at hok
    · next hnone => exact absurd hnone hkept
    · simp only [bind, Except.bind] at hok
      split at hok
      · cases hok
      · cases hok
        rfl

/-- A command in hand can be processed, unless the book looks for a level that
    is not there. -/
theorem process_goes_on (hq : Queues router es x) (hb : Books router es x) {w : Fin numWorkers}
    {cmd : OrderCommand P} (hs : x.workerStates w = .popped cmd) (clock : Clock) :
    ∃ book, (x.workers w).books.find? cmd.order.instrument = some book ∧
      ((∃ x', Step x (.process w cmd clock true) x') ∨ ¬ book.Findable) := by
  obtain ⟨book, hbook⟩ := Option.ne_none_iff_exists'.mp (hb.kept _ w (hq.popped_routed hs))
  refine ⟨book, hbook, ?_⟩
  -- The book is where a run has led it, so it is sound.
  obtain ⟨s₀, ls, hfresh, -, hpath, -⟩ := hb.runs w _ book hbook
  rcases Worker.applyCommand_ok (Session.sound_of_path hfresh hpath) x.alloc cmd clock with
    ⟨r, hok⟩ | hf
  · have hdone : (x.workers w).processCommand x.alloc cmd clock =
        .ok (true, ⟨(x.workers w).books.insert cmd.order.instrument r.1⟩, r.2) := by
      simp only [Worker.processCommand, hbook, hok, bind, Except.bind]
    exact Or.inl ⟨_, .process x w cmd clock true _ r.2 hs hdone⟩
  · exact Or.inr hf

theorem Delivered.of_invariants (hq : Queues router es x) (hb : Books router es x)
    (hf : ∀ w cmd clock, .process w cmd clock false ∉ es) : Delivered router es x where
  applied_in_order := by
    intro instrument w hw
    rw [appliedTo_map_fst, acceptedFor_eq es hw]
    exact (hq.processed_in_order w).1.filter _
  nowhere_else := by
    intro instrument w hw
    apply List.filter_eq_nil_iff.mpr
    intro e he heq
    -- What was processed here had been accepted for this worker.
    have hmem := (hq.processed_in_order w).1.subset (List.mem_map_of_mem he)
    have hroute : router.find? e.1.order.instrument = some w :=
      of_decide_eq_true (List.mem_filter.mp hmem).2
    rw [of_decide_eq_true heq] at hroute
    exact hw hroute
  found := hf
  kept := hb.kept
  one_shutdown := by
    intro hret w
    obtain ⟨tail, htail, -, hyes⟩ := hq.pills w
    obtain ⟨pill, rfl, hpill⟩ := hyes (by rw [hret]; trivial)
    have hnone : (acceptedTo router w es).filter (fun cmd => cmd.type = .shutdown) = [] := by
      apply List.filter_eq_nil_iff.mpr
      intro cmd hcmd
      simpa using hq.acceptedTo_client w cmd hcmd
    rw [htail, List.filter_append, hnone]
    simp [hpill]
  stopped := by
    intro instrument w hw hstopped
    rw [appliedTo_map_fst, acceptedFor_eq es hw, (hq.processed_in_order w).2 hstopped]
  folded := hb.runs

omit [Zero P] in
/-- At the start nothing has been sent. -/
theorem Queues.start (hproducer : x.producer = .submitting)
    (hstates : ∀ w, x.workerStates w = .polling) (hqueues : ∀ w, x.queues w = .empty) :
    Queues x.router [] x where
  router_eq := rfl
  sent w := by
    refine ⟨[], by rw [hstates]; rfl, ?_⟩
    rw [hqueues]
    rfl
  pills w := by
    have hnot : ¬ Pilled w x.producer := by
      rw [hproducer]
      exact id
    exact ⟨[], rfl, fun _ => rfl, fun hp => absurd hp hnot⟩
  counted := by
    rw [hproducer]
    trivial
  client cmd hcmd := by cases hcmd
  processed w e he := by cases he

/-- At the start the books have been opened, one after the other. -/
theorem Books.start
    (hrouted : ∀ instrument w, router.find? instrument = some w →
      (x.workers w).books.find? instrument ≠ none)
    (hbooks : ∀ w instrument book, (x.workers w).books.find? instrument = some book →
      book.instrument = instrument ∧ Unused x.alloc book) : Books router [] x := by
  refine ⟨hrouted, ?_⟩
  intro w instrument book hbook
  obtain ⟨hinstr, alloc₀, n, hfresh, hpath⟩ := hbooks w instrument book hbook
  refine ⟨⟨book, alloc₀⟩, Session.draws n, hfresh, hinstr, hpath, ?_⟩
  apply List.filterMap_eq_nil_iff.mpr
  intro l hl
  rw [List.eq_of_mem_replicate hl]

/-- From the start the queues and the books stand as they should, and every
    book asked for is found. -/
theorem queues_books_found [NeZero numWorkers] {instruments : List Instrument}
    {alloc : IdAllocator} {totalReserveSpace : ℕ} {clock : Clock} {x₀ x : System P numWorkers bound}
    {es : List (Event P numWorkers)} (hx₀ : x₀ = start instruments alloc totalReserveSpace clock)
    (hr : Path (Guarded ClientCommand Step) x₀ es x) :
    Queues x₀.router es x ∧ Books x₀.router es x ∧
      ∀ w cmd clock, .process w cmd clock false ∉ es := by
  obtain ⟨hqueues, hrouted, hbooks, -⟩ :=
    start_spec instruments alloc totalReserveSpace clock hx₀
  have hproducer : x₀.producer = .submitting := by rw [hx₀]; rfl
  have hstates : ∀ w, x₀.workerStates w = .polling := by rw [hx₀]; exact fun _ => rfl
  refine hr.history (I := fun es x => Queues x₀.router es x ∧ Books x₀.router es x ∧
    ∀ w cmd clock, .process w cmd clock false ∉ es) ?_
    ⟨.start hproducer hstates hqueues, .start hrouted hbooks, by simp⟩
  rintro es x e x' ⟨hq, hb, hf⟩ hs
  refine ⟨hq.step hs, hb.step hs.2, ?_⟩
  intro w cmd clock hmem
  rcases List.mem_append.mp hmem with hmem | hmem
  · exact hf w cmd clock hmem
  · -- The invariants before the step say that the book was found.
    rw [← List.mem_singleton.mp hmem] at hs
    exact absurd (found_step hq hb hs.2) (by decide)

/-- **Commands reach their book**, each of them once and in order, and no
    others; and nothing is lost when the workers are stopped. -/
theorem delivered [NeZero numWorkers] {instruments : List Instrument} {alloc : IdAllocator}
    {totalReserveSpace : ℕ} {clock : Clock} {x₀ x : System P numWorkers bound}
    {es : List (Event P numWorkers)} (hx₀ : x₀ = start instruments alloc totalReserveSpace clock)
    (hr : Path (Guarded ClientCommand Step) x₀ es x) :
    (∀ instrument, x₀.router.find? instrument ≠ none ↔ instrument ∈ instruments) ∧
      Delivered x₀.router es x := by
  obtain ⟨-, -, -, hknown⟩ := start_spec instruments alloc totalReserveSpace clock hx₀
  obtain ⟨hq, hb, hf⟩ := queues_books_found hx₀ hr
  exact ⟨hknown, .of_invariants hq hb hf⟩

/-! ### A run -/

section Execution
variable [DecidableEq P]

/-- The state after an event, if the event is possible. -/
def next? (x : System P numWorkers bound) : Event P numWorkers → Option (System P numWorkers bound)
  | .submit cmd accepted =>
    match x.producer, x.router.find? cmd.order.instrument with
    | .submitting, none => if accepted then none else some x
    | .submitting, some w =>
      match (x.queues w).send cmd with
      | none => if accepted then none else some x
      | some q =>
        if accepted then some { x with queues := Function.update x.queues w q } else none
    | _, _ => none
  | .shutdownLoop =>
    match x.producer with
    | .submitting => some { x with producer := .checking (fun _ => false) 0 }
    | .checking submitted count =>
      if count = numWorkers then some { x with producer := .returned }
      else some { x with producer := .visiting submitted count 0 }
    | .visiting submitted count i =>
      if h : i < numWorkers then
        if submitted ⟨i, h⟩ then some { x with producer := .visiting submitted count (i + 1) }
        else none
      else some { x with producer := .checking submitted count }
    | .returned => none
  | .pushShutdown w cmd done =>
    match x.producer with
    | .visiting submitted count i =>
      if i = w ∧ submitted w = false ∧ cmd = shutdownCmd cmd.order.timeSubmitted then
        match (x.queues w).send cmd with
        | none =>
          if done then none else some { x with producer := .visiting submitted count (w + 1) }
        | some q =>
          if done then
            some { x with
              queues := Function.update x.queues w q
              producer := .visiting (Function.update submitted w true) (count + 1) (w + 1) }
          else none
      else none
    | _ => none
  | .pop w found =>
    match x.workerStates w, (x.queues w).receive, found with
    | .polling, none, none => some x
    | .polling, some (cmd, q), some cmd' =>
      if cmd' = cmd then
        some { x with
          queues := Function.update x.queues w q
          workerStates := Function.update x.workerStates w
            (if cmd.type = .shutdown then .stopped else .popped cmd) }
      else none
    | _, _, _ => none
  | .process w cmd clock found =>
    match x.workerStates w, (x.workers w).processCommand x.alloc cmd clock with
    | .popped cmd', .ok (found', worker, alloc) =>
      if cmd' = cmd ∧ found = found' then
        some { x with
          alloc := alloc
          workers := Function.update x.workers w worker
          workerStates := Function.update x.workerStates w .polling }
      else none
    | _, _ => none

theorem step_of_submit {cmd : OrderCommand P} {accepted : Bool}
    (h : x.next? (.submit cmd accepted) = some x') : Step x (.submit cmd accepted) x' := by
  simp only [next?] at h
  split at h
  · next hp hw =>
    split at h
    · cases h
    · next hacc =>
      cases h
      rw [Bool.eq_false_of_not_eq_true hacc]
      exact .submitUnknown x cmd hp hw
  · next w hp hw =>
    split at h
    · next hq =>
      split at h
      · cases h
      · next hacc =>
        cases h
        rw [Bool.eq_false_of_not_eq_true hacc]
        exact .submitFull x cmd w hp hw hq
    · next q hq =>
      split at h
      · next hacc =>
        cases h
        rw [hacc]
        exact .submit x cmd w q hp hw hq
      · cases h
  · cases h

theorem step_of_shutdownLoop (h : x.next? .shutdownLoop = some x') : Step x .shutdownLoop x' := by
  simp only [next?] at h
  split at h
  · next hp =>
    cases h
    exact .callShutdown x hp
  · next submitted count hp =>
    split at h
    · next heq =>
      cases h
      exact .shutdownReturn x submitted count hp heq
    · next hne =>
      cases h
      exact .enterRound x submitted count hp hne
  · next submitted count i hp =>
    -- Past the last worker the round is over.
    split at h
    · next hi =>
      split at h
      · next hflag =>
        cases h
        exact .skipWorker x submitted count ⟨i, hi⟩ hp hflag
      · cases h
    · next hi =>
      cases h
      exact .leaveRound x submitted count i hp hi
  · cases h

theorem step_of_pushShutdown {w : Fin numWorkers} {cmd : OrderCommand P} {done : Bool}
    (h : x.next? (.pushShutdown w cmd done) = some x') : Step x (.pushShutdown w cmd done) x' := by
  simp only [next?] at h
  split at h
  · next submitted count i hp =>
    split at h
    · next hc =>
      obtain ⟨rfl, hflag, hcmd⟩ := hc
      split at h
      · next hq =>
        split at h
        · cases h
        · next hdone =>
          cases h
          rw [Bool.eq_false_of_not_eq_true hdone]
          rw [hcmd] at hq ⊢
          exact .shutdownFull x submitted count w _ hp hflag hq
      · next q hq =>
        split at h
        · next hdone =>
          cases h
          rw [hdone]
          rw [hcmd] at hq ⊢
          exact .pushShutdown x submitted count w _ q hp hflag hq
        · cases h
    · cases h
  · cases h

theorem step_of_pop {w : Fin numWorkers} {found : Option (OrderCommand P)}
    (h : x.next? (.pop w found) = some x') : Step x (.pop w found) x' := by
  simp only [next?] at h
  split at h
  · next hs hq =>
    cases h
    exact .popEmpty x w hs hq
  · next cmd q cmd' hs hq =>
    split at h
    · next heq =>
      cases h
      rw [heq]
      exact .pop x w cmd q hs hq
    · cases h
  · cases h

theorem step_of_process {w : Fin numWorkers} {cmd : OrderCommand P} {clock : Clock} {found : Bool}
    (h : x.next? (.process w cmd clock found) = some x') :
    Step x (.process w cmd clock found) x' := by
  simp only [next?] at h
  split at h
  · next cmd' found' worker alloc hs hok =>
    split at h
    · next heq =>
      cases h
      rw [heq.1] at hs
      rw [heq.2]
      exact .process x w cmd clock found' worker alloc hs hok
    · cases h
  · cases h

/-- What can be executed is a step. -/
theorem step_of_next? {e : Event P numWorkers} (h : x.next? e = some x') : Step x e x' := by
  cases e with
  | submit cmd accepted => exact step_of_submit h
  | shutdownLoop => exact step_of_shutdownLoop h
  | pushShutdown w cmd done => exact step_of_pushShutdown h
  | pop w found => exact step_of_pop h
  | process w cmd clock found => exact step_of_process h

theorem path_of_foldlM (hclient : ∀ e ∈ es, ∀ y : System P numWorkers bound, y.ClientCommand e)
    (h : es.foldlM next? x = some x') : Path (Guarded ClientCommand Step) x es x' :=
  .of_foldlM (fun e he y _ hy => ⟨hclient e he y, step_of_next? hy⟩) h

end Execution

/-- A `CANCEL` of an order for an instrument. -/
def cancelCmd (instrument : Instrument) : OrderCommand ℤ :=
  ⟨.cancel, .ofClient instrument .buy 100 10 0⟩

/-- Two workers with queues of one command: `SPY` is listed twice and stays with
    the first worker, a full queue and an unknown instrument are rejected, and
    the first round of shutdown commands finds one queue full. -/
def fullQueue : List (Event ℤ 2) :=
  [.submit (cancelCmd "SPY") true, .submit (cancelCmd "SPY") false, .submit (cancelCmd "IBM") false,
    .pop 1 none, .submit (cancelCmd "QQQ") true, .pop 1 (some (cancelCmd "QQQ")), .shutdownLoop,
    .shutdownLoop, .pushShutdown 0 (shutdownCmd 0) false, .pushShutdown 1 (shutdownCmd 0) true,
    .pop 0 (some (cancelCmd "SPY")), .shutdownLoop, .shutdownLoop,
    .process 0 (cancelCmd "SPY") (fun _ => 0) true, .pushShutdown 0 (shutdownCmd 0) true,
    .shutdownLoop, .shutdownLoop, .shutdownLoop, .process 1 (cancelCmd "QQQ") (fun _ => 0) true,
    .pop 1 (some (shutdownCmd 0)), .pop 0 (some (shutdownCmd 0))]

theorem delivered_fullQueue :
    ∃ x₀ x : System ℤ 2 1, x₀ = start ["SPY", "QQQ", "IWM", "SPY"] (.new 1000) 10 (fun _ => 0) ∧
      Path (Guarded ClientCommand Step) x₀ fullQueue x ∧ Delivered x₀.router fullQueue x := by
  have hr : (fullQueue.foldlM next?
      (start ["SPY", "QQQ", "IWM", "SPY"] (.new 1000) 10 (fun _ => 0) :
      System ℤ 2 1)).isSome = true := by
    decide +kernel
  obtain ⟨x, hx⟩ := Option.isSome_iff_exists.mp hr
  have hclient : ∀ e ∈ fullQueue, ∀ y : System ℤ 2 1, y.ClientCommand e := by
    simp [fullQueue, ClientCommand, cancelCmd]
  exact ⟨_, x, rfl, path_of_foldlM hclient hx, (delivered rfl (path_of_foldlM hclient hx)).2⟩

end System
end Orderbook
