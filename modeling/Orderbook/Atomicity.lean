import Orderbook.Linearization

/-! # Calls that nobody interrupts

    The converse of the refinement.  A call of `push` or `pop` during which
    the other threads do nothing finds the queue full or empty exactly when the
    channel is, so whatever the system of channels does the threads can do.
    Between calls the same can be observed of both. -/

namespace Orderbook

/-! ### One queue -/

namespace SPSCQueue
variable {α : Type} {capacity : ℕ} {es : List (Event α)} {s : State α}

/-- The test of `push`, on the indices as they are. -/
theorem Inv.full_iff_length (h : Inv capacity es s) :
    s.queue.next s.queue.head = s.queue.tail ↔
      (pushed es).length = (popped es).length + (capacity - 1) := by
  obtain ⟨hle, hroom⟩ := h.fits
  have hpos := h.pos
  rw [h.head_eq, h.next_eq, h.tail_eq, Ring.slot_eq_iff (by omega) (by omega)]
  omega

/-- The test of `pop`, on the indices as they are. -/
theorem Inv.empty_iff_length (h : Inv capacity es s) :
    s.queue.tail = s.queue.head ↔ (pushed es).length = (popped es).length := by
  obtain ⟨hle, hroom⟩ := h.fits
  rw [h.head_eq, h.tail_eq]
  constructor
  · intro heq
    exact (Ring.slot_inj hle (by omega) heq).symm
  · intro heq
    rw [heq]

/-- A `push` that is left alone succeeds where the ring has room. -/
theorem Inv.push_alone (h : Inv capacity es s) (moved : α → α → α) (hpush : s.push = .idle)
    (overload : Overload) (item : α)
    (hroom : (pushed es).length ≠ (popped es).length + (capacity - 1)) :
    ∃ slot left s₁ s', Path (Step moved) s
        [.pushLoadHead overload item, .pushLoadTail, .pushWrite slot item] s₁ ∧
      Step moved s₁ (.pushStore item left) s' ∧ s'.pop = s.pop := by
  have hlt : s.queue.head < s.queue.buffer.length := by
    rw [h.head_eq, h.size]
    exact Nat.mod_lt _ h.pos
  have hne : s.queue.next s.queue.head ≠ s.queue.tail := by
    rw [Ne, h.full_iff_length]
    exact hroom
  have hcell : s.queue.buffer[s.queue.head]? = some (s.queue.buffer[s.queue.head]) :=
    List.getElem?_eq_getElem hlt
  exact ⟨s.queue.head, _, _, _, .cons (.pushLoadHead s overload item hpush) <|
    .cons (.pushLoadTail _ overload item s.queue.head rfl) <|
    .cons (.pushWrite _ overload item _ s.queue.head s.queue.tail rfl hne hcell) <| .nil _,
    .pushStore _ item _ _ rfl, rfl⟩

theorem Inv.push_alone_full (h : Inv capacity es s) (moved : α → α → α) (hpush : s.push = .idle)
    (overload : Overload) (item : α)
    (hfull : (pushed es).length = (popped es).length + (capacity - 1)) :
    ∃ s₁ s', Path (Step moved) s [.pushLoadHead overload item, .pushLoadTail] s₁ ∧
      Step moved s₁ (.pushFail item) s' ∧ s'.pop = s.pop :=
  ⟨_, _, .cons (.pushLoadHead s overload item hpush) <|
    .cons (.pushLoadTail _ overload item s.queue.head rfl) <| .nil _,
    .pushFail _ overload item s.queue.head s.queue.tail rfl (h.full_iff_length.mpr hfull), rfl⟩

/-- A `pop` that is left alone returns the oldest item of the ring. -/
theorem Inv.pop_alone (h : Inv capacity es s) (moved : α → α → α) (hpop : s.pop = .idle)
    (out : α) {item : α} {items : List α} (hitems : pushed es = popped es ++ item :: items) :
    ∃ slot s₁ s', Path (Step moved) s [.popLoadTail out, .popLoadHead, .popRead slot item] s₁ ∧
      Step moved s₁ (.popStore item) s' ∧ s'.pop = .idle := by
  have hlen : (pushed es).length = (popped es).length + items.length + 1 := by
    rw [hitems, List.length_append, List.length_cons, Nat.add_assoc]
  have hne : s.queue.tail ≠ s.queue.head := by
    rw [Ne, h.empty_iff_length]
    omega
  -- The next slot to read holds the next item that was written.
  have htaken : (taken es).length = (popped es).length := by
    rw [h.taken_length, hpop]
    rfl
  have hwritten := h.written_length
  obtain ⟨x, hx, hcell⟩ := h.cells (taken es).length (Nat.le_refl _) (by omega)
  have hx' : x = item := by
    rw [h.pushed_eq, hitems, htaken] at hx
    simpa using hx.symm
  subst hx'
  rw [h.size, htaken] at hcell
  have hcell' : s.queue.buffer[s.queue.tail]? = some x := by
    rw [h.tail_eq]
    exact hcell
  exact ⟨s.queue.tail, _, _, .cons (.popLoadTail s out hpop) <|
    .cons (.popLoadHead _ out s.queue.tail rfl) <|
    .cons (.popRead _ out x s.queue.tail s.queue.head rfl hne hcell') <| .nil _,
    .popStore _ x s.queue.tail rfl, rfl⟩

theorem Inv.pop_alone_empty (h : Inv capacity es s) (moved : α → α → α) (hpop : s.pop = .idle)
    (out : α) (hempty : (pushed es).length = (popped es).length) :
    ∃ s', Path (Step moved) s [.popLoadTail out, .popLoadHead, .popFail out] s' ∧
      s'.pop = .idle :=
  ⟨_, .cons (.popLoadTail s out hpop) <|
    .cons (.popLoadHead _ out s.queue.tail rfl) <|
    .cons (.popFail _ out s.queue.tail s.queue.head rfl (h.empty_iff_length.mpr hempty)) <|
    .nil _, rfl⟩

end SPSCQueue

namespace Threads
variable {P : Type} [LinearOrder P] [Zero P] {numWorkers : ℕ}
  {moved : OrderCommand P → OrderCommand P → OrderCommand P} {capacity : ℕ}
  {es es' : List (Event P numWorkers)} {t t' : Threads P numWorkers}
  {cs cs' : List (System.Event P numWorkers)} {x x' : System P numWorkers (capacity - 1)}
  {w : Fin numWorkers} {qs : List (SPSCQueue.Event (OrderCommand P))}
  {q q' : SPSCQueue.State (OrderCommand P)}

/-! ### The threads, one call at a time -/

/-- No thread is inside a call of `push` or `pop`. -/
def Between (t : Threads P numWorkers) : Prop :=
  t.pushing = none ∧ ∀ w, (t.queues w).pop = .idle

omit [Zero P] in
theorem between_update (h : t.Between) (hn : t'.pushing = none) (hq : q.pop = .idle)
    (hqueues : t'.queues = Function.update t.queues w q) : t'.Between := by
  refine ⟨hn, ?_⟩
  intro w'
  rw [hqueues]
  by_cases hw : w' = w
  · subst hw
    rw [Function.update_self]
    exact hq
  · rw [Function.update_of_ne hw]
    exact h.2 w'

/-- The call in progress on the queue of `w` goes on, the other threads do nothing. -/
theorem path_inside (label : SPSCQueue.Event (OrderCommand P) → Event P numWorkers)
    (hq : Path (SPSCQueue.Step moved) (t.queues w) qs q)
    (hstep : ∀ e ∈ qs, ∀ (u : Threads P numWorkers) (q' : SPSCQueue.State (OrderCommand P)),
      u.producer = t.producer → u.pushing = t.pushing → u.workerStates = t.workerStates →
      SPSCQueue.Step moved (u.queues w) e q' → Guarded ClientCommand (Step moved) u (label e)
        { u with queues := Function.update u.queues w q' }) :
    Path (Guarded ClientCommand (Step moved)) t (qs.map label)
      { t with queues := Function.update t.queues w q } := by
  generalize hbefore : t.queues w = before at hq
  induction hq generalizing t with
  | nil s =>
    rw [← hbefore, Function.update_eq_self]
    exact .nil t
  | @cons s s₁ s' e qs hs hrest ih =>
    rw [← hbefore] at hs
    have hone := hstep e List.mem_cons_self t s₁ rfl rfl rfl hs
    have hmore := ih (t := { t with queues := Function.update t.queues w s₁ })
      (fun e he => hstep e (List.mem_cons_of_mem _ he)) (Function.update_self w s₁ t.queues)
    rw [Function.update_idem] at hmore
    exact .cons hone hmore

/-- A call of `submit` whose router knows the instrument. -/
theorem submit_alone {overload : SPSCQueue.Overload} {cmd : OrderCommand P}
    {last : SPSCQueue.Event (OrderCommand P)} (hclient : cmd.type ≠ .shutdown)
    (hp : t.producer = .submitting) (hn : t.pushing = none)
    (hroute : t.router.find? cmd.order.instrument = some w) (hinside : ∀ e ∈ qs, e.InsidePush)
    (hq : Path (SPSCQueue.Step moved) (t.queues w) (.pushLoadHead overload cmd :: qs) q)
    (hlast : SPSCQueue.Step moved q last q')
    (hreturn : (∃ left, last = .pushFail left) ∨ ∃ item left, last = .pushStore item left) :
    Path (Guarded ClientCommand (Step moved)) t
      ((.pushLoadHead overload cmd :: (qs ++ [last])).map (.submit w))
      { t with queues := Function.update t.queues w q', pushing := none } := by
  let u : Threads P numWorkers :=
    { t with queues := Function.update t.queues w q, pushing := some w }
  have hself : u.queues w = q := Function.update_self w q t.queues
  have hend : Guarded ClientCommand (Step moved) u (.submit w last)
      { u with queues := Function.update u.queues w q', pushing := none } := by
    rw [← hself] at hlast
    rcases hreturn with ⟨left, rfl⟩ | ⟨item, left, rfl⟩
    · exact ⟨trivial, .submitFalse u w left q' hp rfl hlast⟩
    · exact ⟨trivial, .submitTrue u w item left q' hp rfl hlast⟩
  simp only [u, Function.update_idem] at hend
  cases hq with
  | @cons _ q₁ _ _ _ hcall hrest =>
    have hmore := path_inside (.submit w)
      (t := { t with queues := Function.update t.queues w q₁, pushing := some w })
      (Function.update_self w q₁ t.queues ▸ hrest) fun e he u q' hproducer hpushing _ hs =>
        ⟨by cases e <;> first | trivial | exact False.elim (hinside _ he),
          .submitStep u w e q' (hproducer.trans hp) hpushing (hinside e he) hs⟩
    rw [Function.update_idem] at hmore
    rw [List.map_cons, List.map_append]
    exact .cons ⟨hclient, .submitCall t overload cmd w q₁ hp hn hroute hcall⟩ (hmore.snoc hend)

/-- A turn of the shutdown loop up to the last step of the `push` it calls. -/
theorem pushShutdown_inside {submitted : Fin numWorkers → Bool} {count : ℕ} {now : TimePoint}
    (hp : t.producer = .visiting submitted count w) (hn : t.pushing = none)
    (hflag : submitted w = false) (hinside : ∀ e ∈ qs, e.InsidePush)
    (hq : Path (SPSCQueue.Step moved) (t.queues w)
      (.pushLoadHead .constRef (System.shutdownCmd now) :: qs) q) :
    Path (Guarded ClientCommand (Step moved)) t
      ((.pushLoadHead .constRef (System.shutdownCmd now) :: qs).map (.pushShutdown w))
      { t with queues := Function.update t.queues w q, pushing := some w } := by
  cases hq with
  | @cons _ q₁ _ _ _ hcall hrest =>
    have hmore := path_inside (.pushShutdown w)
      (t := { t with queues := Function.update t.queues w q₁, pushing := some w })
      (Function.update_self w q₁ t.queues ▸ hrest) fun e he u q' hproducer hpushing _ hs =>
        ⟨trivial, .shutdownStep u submitted count w e q' (hproducer.trans hp) hpushing
          (hinside e he) hs⟩
    rw [Function.update_idem] at hmore
    exact .cons ⟨trivial, .shutdownCall t submitted count w now q₁ hp hn hflag hcall⟩ hmore

theorem pushShutdown_false {submitted : Fin numWorkers → Bool} {count : ℕ} {now : TimePoint}
    {left : OrderCommand P} (hp : t.producer = .visiting submitted count w) (hn : t.pushing = none)
    (hflag : submitted w = false) (hinside : ∀ e ∈ qs, e.InsidePush)
    (hq : Path (SPSCQueue.Step moved) (t.queues w)
      (.pushLoadHead .constRef (System.shutdownCmd now) :: qs) q)
    (hlast : SPSCQueue.Step moved q (.pushFail left) q') :
    Path (Guarded ClientCommand (Step moved)) t
      ((.pushLoadHead .constRef (System.shutdownCmd now) :: (qs ++ [.pushFail left])).map
        (.pushShutdown w))
      { t with
        queues := Function.update t.queues w q'
        producer := .visiting submitted count (w + 1)
        pushing := none } := by
  let u : Threads P numWorkers :=
    { t with queues := Function.update t.queues w q, pushing := some w }
  have hself : u.queues w = q := Function.update_self w q t.queues
  rw [← hself] at hlast
  have hend := Step.shutdownFalse u submitted count w left q' hp rfl hlast
  simp only [u, Function.update_idem] at hend
  rw [← List.cons_append, List.map_append]
  exact (pushShutdown_inside hp hn hflag hinside hq).snoc ⟨trivial, hend⟩

theorem pushShutdown_true {submitted : Fin numWorkers → Bool} {count : ℕ} {now : TimePoint}
    {cmd left : OrderCommand P} (hp : t.producer = .visiting submitted count w)
    (hn : t.pushing = none) (hflag : submitted w = false) (hinside : ∀ e ∈ qs, e.InsidePush)
    (hq : Path (SPSCQueue.Step moved) (t.queues w)
      (.pushLoadHead .constRef (System.shutdownCmd now) :: qs) q)
    (hlast : SPSCQueue.Step moved q (.pushStore cmd left) q') :
    Path (Guarded ClientCommand (Step moved)) t
      ((.pushLoadHead .constRef (System.shutdownCmd now) :: (qs ++ [.pushStore cmd left])).map
        (.pushShutdown w))
      { t with
        queues := Function.update t.queues w q'
        producer := .visiting (Function.update submitted w true) (count + 1) (w + 1)
        pushing := none } := by
  let u : Threads P numWorkers :=
    { t with queues := Function.update t.queues w q, pushing := some w }
  have hself : u.queues w = q := Function.update_self w q t.queues
  rw [← hself] at hlast
  have hend := Step.shutdownTrue u submitted count w cmd left q' hp rfl hlast
  simp only [u, Function.update_idem] at hend
  rw [← List.cons_append, List.map_append]
  exact (pushShutdown_inside hp hn hflag hinside hq).snoc ⟨trivial, hend⟩

/-- `pop` up to its last step, or to its end where it returns `false`. -/
theorem pop_inside (hstate : t.workerStates w = .polling) (hinside : ∀ e ∈ qs, e.InsidePop)
    (hq : Path (SPSCQueue.Step moved) (t.queues w) (.popLoadTail (t.cmds w) :: qs) q) :
    Path (Guarded ClientCommand (Step moved)) t ((.popLoadTail (t.cmds w) :: qs).map (.pop w))
      { t with queues := Function.update t.queues w q } := by
  cases hq with
  | @cons _ q₁ _ _ _ hcall hrest =>
    have hmore := path_inside (.pop w) (t := { t with queues := Function.update t.queues w q₁ })
      (Function.update_self w q₁ t.queues ▸ hrest) fun e he u q' _ _ hstates hs =>
        ⟨trivial, .popStep u w e q' ((congrFun hstates w).trans hstate) (hinside e he) hs⟩
    rw [Function.update_idem] at hmore
    exact .cons ⟨trivial, .popCall t w q₁ hstate hcall⟩ hmore

theorem pop_true {cmd : OrderCommand P} (hstate : t.workerStates w = .polling)
    (hinside : ∀ e ∈ qs, e.InsidePop)
    (hq : Path (SPSCQueue.Step moved) (t.queues w) (.popLoadTail (t.cmds w) :: qs) q)
    (hlast : SPSCQueue.Step moved q (.popStore cmd) q') :
    Path (Guarded ClientCommand (Step moved)) t
      ((.popLoadTail (t.cmds w) :: (qs ++ [.popStore cmd])).map (.pop w))
      { t with
        queues := Function.update t.queues w q'
        workerStates := Function.update t.workerStates w
          (if cmd.type = .shutdown then .stopped else .popped cmd)
        cmds := Function.update t.cmds w cmd } := by
  let u : Threads P numWorkers := { t with queues := Function.update t.queues w q }
  have hself : u.queues w = q := Function.update_self w q t.queues
  rw [← hself] at hlast
  have hend := Step.popTrue u w cmd q' hstate hlast
  simp only [u, Function.update_idem] at hend
  rw [← List.cons_append, List.map_append]
  exact (pop_inside hstate hinside hq).snoc ⟨trivial, hend⟩

/-! ### Every step of the system -/

omit [LinearOrder P] [Zero P] in
theorem queueEvents_map {label : SPSCQueue.Event (OrderCommand P) → Event P numWorkers}
    (hlabel : ∀ w' e, queueEvents w' [label e] = if w = w' then [e] else []) (w' : Fin numWorkers) :
    queueEvents w' (qs.map label) = if w = w' then qs else [] := by
  induction qs with
  | nil => exact (ite_self []).symm
  | cons e qs ih =>
    rw [List.map_cons, ← List.singleton_append, queueEvents_append, hlabel, ih]
    split <;> rfl

omit [Zero P] in
/-- A whole call on the queue of `w`, as one step of the system. -/
theorem Linearizes.call (h : Linearizes es t cs x) (hn : t.pushing = none) (hn' : t'.pushing = none)
    (hes : ∀ w', queueEvents w' es' = if w = w' then qs else []) (halloc : x'.alloc = t'.alloc)
    (hrouter : x'.router = t'.router) (hworkers : x'.workers = t'.workers)
    (hstates : x'.workerStates = t'.workerStates) (hproducer : x'.producer = t'.producer)
    (hitems : (x.queues w).items ++ SPSCQueue.pushed qs =
      SPSCQueue.popped qs ++ (x'.queues w).items)
    (hother : ∀ w', w' ≠ w → x'.queues w' = x.queues w')
    (hresults : results cs' = returned es')
    (hprocessed : ∀ w, System.processedBy w cs' = processedBy w es') :
    Linearizes (es ++ es') t' (cs ++ cs') x' := by
  refine h.extend halloc hrouter hworkers hstates ?_ ?_ ?_ hprocessed
  · rw [ahead_of_idle hn']
    exact hproducer
  · intro w'
    rw [hes]
    by_cases hw : w = w'
    · subst hw
      rw [if_pos rfl]
      exact hitems
    · rw [if_neg hw, hother w' (Ne.symm hw)]
      exact List.append_nil _
  · rw [pending_of_idle hn, pending_of_idle hn', hresults]
    exact (List.append_nil _).symm

omit [Zero P] in
/-- How far the queue of `w` is filled is what its channel says. -/
theorem Linearizes.pushed_length (h : Linearizes es t cs x) (w : Fin numWorkers) :
    (SPSCQueue.pushed (queueEvents w es)).length =
      (SPSCQueue.popped (queueEvents w es)).length + (x.queues w).items.length := by
  rw [h.items, List.length_append]

/-- A call of `submit` that is rejected. -/
theorem Linearizes.realize_submitFull (h : Linearizes es t cs x) (hI : Inv capacity es t)
    (hb : t.Between) {cmd : OrderCommand P} (hclient : cmd.type ≠ .shutdown)
    (hp : x.producer = .submitting) (hroute : x.router.find? cmd.order.instrument = some w)
    (hsend : (x.queues w).send cmd = none) :
    ∃ es' t', Path (Guarded ClientCommand (Step moved)) t es' t' ∧
      Linearizes (es ++ es') t' (cs ++ [.submit cmd false]) x ∧ t'.Between := by
  have hproducer : x.producer = t.producer := h.producer_eq.trans (ahead_of_idle hb.1)
  rw [hproducer] at hp
  rw [h.router_eq] at hroute
  -- The channel is full, and so is the ring.
  have hfull := h.pushed_length w
  rw [Channel.length_eq_of_refused hsend] at hfull
  obtain ⟨q₁, q, hpath, hlast, hpop⟩ := (hI.queue w).push_alone_full moved
    (hI.idle w (by simp [hb.1])) .constRef cmd hfull
  refine ⟨_, _, submit_alone hclient hp hb.1 hroute (by simp [SPSCQueue.Event.InsidePush]) hpath
    hlast (Or.inl ⟨cmd, rfl⟩), h.call hb.1 rfl (queueEvents_map (queueEvents_submit w))
    h.alloc_eq h.router_eq h.workers_eq h.states_eq hproducer (List.append_nil _)
    (fun _ _ => rfl) rfl fun _ => rfl, between_update hb rfl (hpop.trans (hb.2 w)) rfl⟩

theorem Linearizes.realize_submit (h : Linearizes es t cs x) (hI : Inv capacity es t)
    (hb : t.Between) {cmd : OrderCommand P} {c : Channel (OrderCommand P) (capacity - 1)}
    (hclient : cmd.type ≠ .shutdown) (hp : x.producer = .submitting)
    (hroute : x.router.find? cmd.order.instrument = some w)
    (hsend : (x.queues w).send cmd = some c) :
    ∃ es' t', Path (Guarded ClientCommand (Step moved)) t es' t' ∧
      Linearizes (es ++ es') t' (cs ++ [.submit cmd true])
        { x with queues := Function.update x.queues w c } ∧ t'.Between := by
  have hproducer : x.producer = t.producer := h.producer_eq.trans (ahead_of_idle hb.1)
  rw [hproducer] at hp
  rw [h.router_eq] at hroute
  -- The channel has room, and so has the ring.
  have hroom := h.pushed_length w
  have hlt := Channel.length_lt_of_send hsend
  obtain ⟨slot, left, q₁, q, hpath, hlast, hpop⟩ := (hI.queue w).push_alone moved
    (hI.idle w (by simp [hb.1])) .constRef cmd (by omega)
  refine ⟨_, _, submit_alone hclient hp hb.1 hroute (by simp [SPSCQueue.Event.InsidePush]) hpath
    hlast (Or.inr ⟨cmd, left, rfl⟩), h.call hb.1 rfl (queueEvents_map (queueEvents_submit w))
    h.alloc_eq h.router_eq h.workers_eq h.states_eq hproducer ?_
    (fun w' hw => Function.update_of_ne hw c x.queues) rfl fun _ => rfl,
    between_update hb rfl (hpop.trans (hb.2 w)) rfl⟩
  show (x.queues w).items ++ [cmd] = (Function.update x.queues w c w).items
  rw [Function.update_self, Channel.send_eq_some hsend]

theorem Linearizes.realize_shutdownFull (h : Linearizes es t cs x) (hI : Inv capacity es t)
    (hb : t.Between) {submitted : Fin numWorkers → Bool} {count : ℕ} {now : TimePoint}
    (hp : x.producer = .visiting submitted count w) (hflag : submitted w = false)
    (hsend : (x.queues w).send (System.shutdownCmd now) = none) :
    ∃ es' t', Path (Guarded ClientCommand (Step moved)) t es' t' ∧
      Linearizes (es ++ es') t' (cs ++ [.pushShutdown w (System.shutdownCmd now) false])
        { x with producer := .visiting submitted count (w + 1) } ∧ t'.Between := by
  rw [h.producer_eq, ahead_of_idle hb.1] at hp
  have hfull := h.pushed_length w
  rw [Channel.length_eq_of_refused hsend] at hfull
  obtain ⟨q₁, q, hpath, hlast, hpop⟩ := (hI.queue w).push_alone_full moved
    (hI.idle w (by simp [hb.1])) .constRef (System.shutdownCmd now) hfull
  exact ⟨_, _, pushShutdown_false hp hb.1 hflag (by simp [SPSCQueue.Event.InsidePush]) hpath hlast,
    h.call hb.1 rfl (queueEvents_map (queueEvents_pushShutdown w)) h.alloc_eq h.router_eq
      h.workers_eq h.states_eq rfl (List.append_nil _) (fun _ _ => rfl) rfl fun _ => rfl,
    between_update hb rfl (hpop.trans (hb.2 w)) rfl⟩

theorem Linearizes.realize_pushShutdown (h : Linearizes es t cs x) (hI : Inv capacity es t)
    (hb : t.Between) {submitted : Fin numWorkers → Bool} {count : ℕ} {now : TimePoint}
    {c : Channel (OrderCommand P) (capacity - 1)} (hp : x.producer = .visiting submitted count w)
    (hflag : submitted w = false)
    (hsend : (x.queues w).send (System.shutdownCmd now) = some c) :
    ∃ es' t', Path (Guarded ClientCommand (Step moved)) t es' t' ∧
      Linearizes (es ++ es') t' (cs ++ [.pushShutdown w (System.shutdownCmd now) true])
        { x with
          queues := Function.update x.queues w c
          producer := .visiting (Function.update submitted w true) (count + 1) (w + 1) } ∧
      t'.Between := by
  rw [h.producer_eq, ahead_of_idle hb.1] at hp
  have hroom := h.pushed_length w
  have hlt := Channel.length_lt_of_send hsend
  obtain ⟨slot, left, q₁, q, hpath, hlast, hpop⟩ := (hI.queue w).push_alone moved
    (hI.idle w (by simp [hb.1])) .constRef (System.shutdownCmd now) (by omega)
  refine ⟨_, _, pushShutdown_true hp hb.1 hflag (by simp [SPSCQueue.Event.InsidePush]) hpath hlast,
    h.call hb.1 rfl (queueEvents_map (queueEvents_pushShutdown w)) h.alloc_eq h.router_eq
      h.workers_eq h.states_eq rfl ?_ (fun w' hw => Function.update_of_ne hw c x.queues) rfl
      fun _ => rfl, between_update hb rfl (hpop.trans (hb.2 w)) rfl⟩
  show (x.queues w).items ++ [System.shutdownCmd now] = (Function.update x.queues w c w).items
  rw [Function.update_self, Channel.send_eq_some hsend]

theorem Linearizes.realize_popEmpty (h : Linearizes es t cs x) (hI : Inv capacity es t)
    (hb : t.Between) (hstate : x.workerStates w = .polling) (hrecv : (x.queues w).receive = none) :
    ∃ es' t', Path (Guarded ClientCommand (Step moved)) t es' t' ∧
      Linearizes (es ++ es') t' (cs ++ [.pop w none]) x ∧ t'.Between := by
  have hproducer : x.producer = t.producer := h.producer_eq.trans (ahead_of_idle hb.1)
  rw [h.states_eq] at hstate
  have hempty := h.pushed_length w
  rw [Channel.items_eq_nil_of_receive hrecv] at hempty
  obtain ⟨q, hpath, hpop⟩ := (hI.queue w).pop_alone_empty moved (hb.2 w) (t.cmds w) hempty
  exact ⟨_, _, pop_inside hstate (by simp [SPSCQueue.Event.InsidePop]) hpath,
    h.call hb.1 hb.1 (queueEvents_map (queueEvents_pop w)) h.alloc_eq h.router_eq h.workers_eq
      h.states_eq hproducer (List.append_nil _) (fun _ _ => rfl) rfl fun _ => rfl,
    between_update hb hb.1 hpop rfl⟩

theorem Linearizes.realize_pop (h : Linearizes es t cs x) (hI : Inv capacity es t) (hb : t.Between)
    {cmd : OrderCommand P} {c : Channel (OrderCommand P) (capacity - 1)}
    (hstate : x.workerStates w = .polling) (hrecv : (x.queues w).receive = some (cmd, c)) :
    ∃ es' t', Path (Guarded ClientCommand (Step moved)) t es' t' ∧
      Linearizes (es ++ es') t' (cs ++ [.pop w (some cmd)])
        { x with
          queues := Function.update x.queues w c
          workerStates := Function.update x.workerStates w
            (if cmd.type = .shutdown then .stopped else .popped cmd) } ∧ t'.Between := by
  have hproducer : x.producer = t.producer := h.producer_eq.trans (ahead_of_idle hb.1)
  have hstate' : t.workerStates w = .polling := by
    rw [← h.states_eq]
    exact hstate
  -- The first item of the channel is the oldest one of the ring.
  have hitems := h.items w
  rw [Channel.receive_eq_some hrecv] at hitems
  obtain ⟨slot, q₁, q, hpath, hlast, hpop⟩ := (hI.queue w).pop_alone moved (hb.2 w)
    (t.cmds w) hitems
  refine ⟨_, _, pop_true hstate' (by simp [SPSCQueue.Event.InsidePop]) hpath hlast,
    h.call hb.1 hb.1 (queueEvents_map (queueEvents_pop w)) h.alloc_eq h.router_eq h.workers_eq
      ?_ hproducer ?_ (fun w' hw => Function.update_of_ne hw c x.queues) rfl fun _ => rfl,
    between_update hb hb.1 hpop rfl⟩
  · rw [h.states_eq]
  · show (x.queues w).items ++ [] = [cmd] ++ (Function.update x.queues w c w).items
    rw [Function.update_self, Channel.receive_eq_some hrecv]
    exact List.append_nil _

/-- A step of the system that touches no queue is one step of a thread. -/
theorem Linearizes.realize_local (h : Linearizes es t cs x) (hb : t.Between)
    {e : Event P numWorkers} {c : System.Event P numWorkers}
    (hstep : Step moved t e t') (hclient : t.ClientCommand e) (hqueues : t'.queues = t.queues)
    (hpushing : t'.pushing = t.pushing) (he : ∀ w, queueEvents w [e] = [])
    (halloc : x'.alloc = t'.alloc) (hrouter : x'.router = t'.router)
    (hworkers : x'.workers = t'.workers) (hstates : x'.workerStates = t'.workerStates)
    (hproducer : x'.producer = t'.producer) (hitems : x'.queues = x.queues)
    (hresults : results [c] = returned [e])
    (hprocessed : ∀ w, System.processedBy w [c] = processedBy w [e]) :
    ∃ es' t', Path (Guarded ClientCommand (Step moved)) t es' t' ∧
      Linearizes (es ++ es') t' (cs ++ [c]) x' ∧ t'.Between := by
  have hn : t'.pushing = none := hpushing.trans hb.1
  refine ⟨[e], t', .cons ⟨hclient, hstep⟩ (.nil t'), h.extend halloc hrouter hworkers hstates
    (hproducer.trans (ahead_of_idle hn).symm) ?_ ?_ hprocessed, hn, ?_⟩
  · intro w
    rw [he, hitems]
    exact List.append_nil _
  · rw [pending_of_idle hb.1, pending_of_idle hn, hresults]
    exact (List.append_nil _).symm
  · intro w
    rw [hqueues]
    exact hb.2 w

/-- Whatever the system does in one step, the threads can do. -/
theorem Linearizes.realize (h : Linearizes es t cs x) (hI : Inv capacity es t) (hb : t.Between)
    {c : System.Event P numWorkers} (hs : Guarded System.ClientCommand System.Step x c x') :
    ∃ es' t', Path (Guarded ClientCommand (Step moved)) t es' t' ∧
      Linearizes (es ++ es') t' (cs ++ [c]) x' ∧ t'.Between := by
  obtain ⟨hclient, hs⟩ := hs
  have hproducer : x.producer = t.producer := h.producer_eq.trans (ahead_of_idle hb.1)
  -- A step of the shutdown loop that accesses no queue.
  have hloop : ∀ p, ShutdownLoop x.producer p →
      ∃ es' t', Path (Guarded ClientCommand (Step moved)) t es' t' ∧
        Linearizes (es ++ es') t' (cs ++ [.shutdownLoop]) { x with producer := p } ∧
        t'.Between := by
    intro p hp
    rw [hproducer] at hp
    exact h.realize_local hb (.shutdownLoop t p hb.1 hp) trivial rfl rfl (fun _ => rfl) h.alloc_eq
      h.router_eq h.workers_eq h.states_eq rfl rfl rfl fun _ => rfl
  cases hs with
  | submitUnknown cmd hp hr =>
    rw [hproducer] at hp
    rw [h.router_eq] at hr
    exact h.realize_local hb (.submitUnknown t cmd hp hb.1 hr) hclient rfl rfl (fun _ => rfl)
      h.alloc_eq h.router_eq h.workers_eq h.states_eq hproducer rfl rfl fun _ => rfl
  | submitFull cmd w hp hr hsend => exact h.realize_submitFull hI hb hclient hp hr hsend
  | submit cmd w q hp hr hsend => exact h.realize_submit hI hb hclient hp hr hsend
  | callShutdown hp => exact hloop _ (hp ▸ .call)
  | enterRound submitted count hp hne => exact hloop _ (hp ▸ .enterRound submitted count hne)
  | shutdownReturn submitted count hp heq => exact hloop _ (hp ▸ .leave submitted count heq)
  | leaveRound submitted count i hp hi => exact hloop _ (hp ▸ .leaveRound submitted count i hi)
  | skipWorker submitted count w hp hflag =>
    exact hloop _ (hp ▸ .skipWorker submitted count w hflag)
  | shutdownFull submitted count w now hp hflag hsend =>
    exact h.realize_shutdownFull hI hb hp hflag hsend
  | pushShutdown submitted count w now q hp hflag hsend =>
    exact h.realize_pushShutdown hI hb hp hflag hsend
  | popEmpty w hstate hrecv => exact h.realize_popEmpty hI hb hstate hrecv
  | pop w cmd q hstate hrecv => exact h.realize_pop hI hb hstate hrecv
  | process w cmd clock found worker alloc hstate hok =>
    rw [h.states_eq] at hstate
    rw [h.workers_eq, h.alloc_eq] at hok
    refine h.realize_local hb (.process t w cmd clock found worker alloc hstate hok) trivial rfl rfl
      (fun _ => rfl) rfl h.router_eq ?_ ?_ hproducer rfl rfl fun _ => rfl
    · rw [h.workers_eq]
    · rw [h.states_eq]

/-- What the system does from a state beside the threads between calls, the
    threads can do. -/
theorem Linearizes.realize_path (h : Linearizes es t cs x) (hI : Inv capacity es t)
    (hb : t.Between) {cs' : List (System.Event P numWorkers)}
    (hr : Path (Guarded System.ClientCommand System.Step) x cs' x') :
    ∃ es' t', Path (Guarded ClientCommand (Step moved)) t es' t' ∧
      Linearizes (es ++ es') t' (cs ++ cs') x' ∧ t'.Between := by
  induction hr generalizing es t cs with
  | nil x =>
    refine ⟨[], t, .nil t, ?_, hb⟩
    rw [List.append_nil, List.append_nil]
    exact h
  | @cons x x₁ x' c cs' hs _ ih =>
    obtain ⟨es₁, t₁, hpath₁, hlin₁, hb₁⟩ := h.realize hI hb hs
    obtain ⟨es₂, t₂, hpath₂, hlin₂, hb₂⟩ := ih hlin₁ (hI.path hpath₁) hb₁
    refine ⟨es₁ ++ es₂, t₂, hpath₁.append hpath₂, ?_, hb₂⟩
    rw [List.append_assoc, List.append_assoc, List.singleton_append] at hlin₂
    exact hlin₂

/-- **Every run of whole calls is one of the threads.**  They come to rest
    between calls, beside the system. -/
theorem realized [NeZero numWorkers] (hcap : 1 ≤ capacity) (instruments : List Instrument)
    (alloc : IdAllocator) (totalReserveSpace : ℕ) (clock : Clock) (blank : OrderCommand P)
    (hr : Path (Guarded System.ClientCommand System.Step)
      (.start instruments alloc totalReserveSpace clock : System P numWorkers (capacity - 1))
      cs x) :
    ∃ es t, Path (Guarded ClientCommand (Step moved))
        (start instruments alloc capacity totalReserveSpace clock blank) es t ∧
      Linearizes es t cs x ∧ t.Between :=
  (linearizes_start instruments alloc totalReserveSpace clock blank).realize_path
    (inv_start hcap instruments alloc totalReserveSpace clock blank) ⟨rfl, fun _ => rfl⟩ hr

end Threads

/-! ### What can be observed -/

/-- What the callers of `submit` have been told, what every worker has
    processed, and where all threads stand. -/
structure Observation (P : Type) [LT P] (numWorkers : ℕ) where
  results      : List (OrderCommand P × Bool)
  processed    : Fin numWorkers → List (OrderCommand P × Clock)
  alloc        : IdAllocator
  producer     : ProducerState numWorkers
  workers      : Fin numWorkers → Worker P
  workerStates : Fin numWorkers → WorkerState P

section Observe
variable {P : Type} [LinearOrder P] [Zero P] {numWorkers : ℕ}

def System.observe {bound : ℕ} (cs : List (System.Event P numWorkers))
    (x : System P numWorkers bound) : Observation P numWorkers where
  results      := Threads.results cs
  processed    := fun w => System.processedBy w cs
  alloc        := x.alloc
  producer     := x.producer
  workers      := x.workers
  workerStates := x.workerStates

def Threads.observe (es : List (Threads.Event P numWorkers)) (t : Threads P numWorkers) :
    Observation P numWorkers where
  results      := Threads.returned es
  processed    := fun w => Threads.processedBy w es
  alloc        := t.alloc
  producer     := t.producer
  workers      := t.workers
  workerStates := t.workerStates

end Observe

namespace Threads
variable {P : Type} [LinearOrder P] [Zero P] {numWorkers : ℕ}
  {moved : OrderCommand P → OrderCommand P → OrderCommand P} {capacity : ℕ}
  {es : List (Event P numWorkers)} {t : Threads P numWorkers}
  {cs : List (System.Event P numWorkers)} {x : System P numWorkers (capacity - 1)}

omit [Zero P] in
theorem Linearizes.observe_eq (h : Linearizes es t cs x) (hb : t.Between) :
    x.observe cs = t.observe es := by
  have hresults : results cs = returned es := by
    rw [h.results_eq, pending_of_idle hb.1, List.append_nil]
  have hprocessed : (fun w => System.processedBy w cs) = fun w => processedBy w es :=
    funext h.processed
  have hproducer : x.producer = t.producer := h.producer_eq.trans (ahead_of_idle hb.1)
  rw [System.observe, observe, hresults, hprocessed, h.alloc_eq, hproducer, h.workers_eq,
    h.states_eq]

/-- **The queues are atomic.**  What can be observed of the threads between
    calls is what can be observed of the system whose queues are channels,
    whatever a move leaves behind. -/
theorem observable_iff [NeZero numWorkers] (hcap : 1 ≤ capacity) (instruments : List Instrument)
    (alloc : IdAllocator) (totalReserveSpace : ℕ) (clock : Clock) (blank : OrderCommand P)
    (o : Observation P numWorkers) :
    (∃ es t, Path (Guarded ClientCommand (Step moved))
        (start instruments alloc capacity totalReserveSpace clock blank) es t ∧
        t.Between ∧ t.observe es = o) ↔
      ∃ cs x, Path (Guarded System.ClientCommand System.Step)
        (.start instruments alloc totalReserveSpace clock : System P numWorkers (capacity - 1))
        cs x ∧ x.observe cs = o := by
  constructor
  · rintro ⟨es, t, hpath, hb, rfl⟩
    obtain ⟨-, cs, x, hpath', hlin⟩ := linearizes_of_path hcap rfl hpath
    exact ⟨cs, x, hpath', hlin.observe_eq hb⟩
  · rintro ⟨cs, x, hpath, rfl⟩
    obtain ⟨es, t, hpath', hlin, hb⟩ := realized hcap instruments alloc totalReserveSpace clock
      blank hpath
    exact ⟨es, t, hpath', hb, (hlin.observe_eq hb).symm⟩

/-- A queue of two slots takes one command in and rejects the next one. -/
theorem observable_secondRejected : ∃ es, ∃ t : Threads ℤ 1,
    Path (Guarded ClientCommand (Step fun source _ => source))
      (start ["SPY"] (.new 1000) 2 10 (fun _ => 0) (System.shutdownCmd 0)) es t ∧ t.Between ∧
      returned es = [(System.cancelCmd "SPY", true), (System.cancelCmd "SPY", false)] := by
  have hclient : (System.cancelCmd "SPY" : OrderCommand ℤ).type ≠ .shutdown := by decide
  have hr : ∃ x, Path (Guarded System.ClientCommand System.Step)
      (.start ["SPY"] (.new 1000) 10 (fun _ => 0) : System ℤ 1 (2 - 1))
      [.submit (System.cancelCmd "SPY") true, .submit (System.cancelCmd "SPY") false] x :=
    ⟨_, .cons ⟨hclient, .submit _ _ 0 _ rfl (by decide +kernel) rfl⟩ <|
      .cons ⟨hclient, .submitFull _ _ 0 rfl (by decide +kernel) rfl⟩ <| .nil _⟩
  obtain ⟨x, hpath⟩ := hr
  obtain ⟨es, t, hpath', hb, hobs⟩ := (observable_iff (by decide) ["SPY"] (.new 1000) 10
    (fun _ => 0)
    (System.shutdownCmd 0) _).mpr ⟨_, x, hpath, rfl⟩
  exact ⟨es, t, hpath', hb, congrArg Observation.results hobs⟩

end Threads
end Orderbook
