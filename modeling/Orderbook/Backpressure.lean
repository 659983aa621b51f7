import Orderbook.Linearization
import Orderbook.Outcomes

/-! # Full queues

    `submit` does not wait.  It refuses a command for an instrument that is
    routed exactly if the queue of its worker is full, that is, if the worker
    has yet to pop as many commands as the queue has places.  A queue with as
    many places as there are commands to come refuses none of them, and one
    without a place stops everything. -/

namespace Orderbook
namespace System
variable {P : Type} [LinearOrder P] {numWorkers bound : ℕ}
  {x₀ x x' : System P numWorkers bound} {es : List (Event P numWorkers)}
  {router : InstrumentMap (Fin numWorkers)}

/-- The commands that worker `w` has popped, the pill included. -/
def poppedBy (w : Fin numWorkers) (es : List (Event P numWorkers)) : List (OrderCommand P) :=
  es.filterMap fun e => match e with
    | .pop w' (some cmd) => if w' = w then some cmd else none
    | _ => none

omit [LinearOrder P] in
theorem poppedBy_snoc (w : Fin numWorkers) (es : List (Event P numWorkers))
    (e : Event P numWorkers) : poppedBy w (es ++ [e]) = poppedBy w es ++ poppedBy w [e] :=
  List.filterMap_append

/-- What a queue was sent is what was popped and then what is still in it. -/
def Waiting (router : InstrumentMap (Fin numWorkers)) (es : List (Event P numWorkers))
    (x : System P numWorkers bound) : Prop :=
  x.router = router ∧ ∀ w, sentTo router w es = poppedBy w es ++ (x.queues w).items

/-- A step that sends and pops nothing. -/
theorem Waiting.quiet (h : Waiting router es x) {e : Event P numWorkers}
    (hsent : ∀ w, sentTo router w [e] = []) (hpop : ∀ w, poppedBy w [e] = [])
    (hrouter : x'.router = x.router) (hqueues : x'.queues = x.queues) :
    Waiting router (es ++ [e]) x' := by
  refine ⟨hrouter.trans h.1, ?_⟩
  intro w
  rw [sentTo_snoc, poppedBy_snoc, hsent, hpop, List.append_nil, List.append_nil, hqueues]
  exact h.2 w

/-- A step that sends a command to the queue of `w`. -/
theorem Waiting.push (h : Waiting router es x) {e : Event P numWorkers} {w : Fin numWorkers}
    {cmd : OrderCommand P} {q : Channel (OrderCommand P) bound}
    (hq : (x.queues w).send cmd = some q)
    (hsent : ∀ w', sentTo router w' [e] = if w' = w then [cmd] else [])
    (hpop : ∀ w, poppedBy w [e] = []) (hrouter : x'.router = x.router)
    (hqueues : x'.queues = Function.update x.queues w q) : Waiting router (es ++ [e]) x' := by
  refine ⟨hrouter.trans h.1, ?_⟩
  intro w'
  rw [sentTo_snoc, poppedBy_snoc, hsent, hpop, List.append_nil, hqueues, h.2 w']
  by_cases hw : w' = w
  · subst hw
    rw [if_pos rfl, Function.update_self, Channel.send_eq_some hq, List.append_assoc]
  · rw [if_neg hw, Function.update_of_ne hw, List.append_nil]

variable [Zero P]

theorem Waiting.step (h : Waiting router es x) {e : Event P numWorkers} (hs : Step x e x') :
    Waiting router (es ++ [e]) x' := by
  cases hs with
  | submitUnknown cmd hp hw => exact h.quiet (fun _ => rfl) (fun _ => rfl) rfl rfl
  | submitFull cmd w hp hw hq => exact h.quiet (fun _ => rfl) (fun _ => rfl) rfl rfl
  | submit cmd w q hp hw hq =>
    refine h.push hq ?_ (fun _ => rfl) rfl rfl
    intro w'
    rw [h.1] at hw
    by_cases heq : w' = w
    · simp [sentTo, hw, heq]
    · simp [sentTo, hw, heq, Ne.symm heq]
  | callShutdown => exact h.quiet (fun _ => rfl) (fun _ => rfl) rfl rfl
  | enterRound => exact h.quiet (fun _ => rfl) (fun _ => rfl) rfl rfl
  | shutdownReturn => exact h.quiet (fun _ => rfl) (fun _ => rfl) rfl rfl
  | leaveRound => exact h.quiet (fun _ => rfl) (fun _ => rfl) rfl rfl
  | skipWorker => exact h.quiet (fun _ => rfl) (fun _ => rfl) rfl rfl
  | shutdownFull => exact h.quiet (fun _ => rfl) (fun _ => rfl) rfl rfl
  | pushShutdown submitted count w now q hp hflag hq =>
    refine h.push hq ?_ (fun _ => rfl) rfl rfl
    intro w'
    by_cases heq : w' = w
    · simp [sentTo, heq]
    · simp [sentTo, heq, Ne.symm heq]
  | popEmpty w hs hq => exact h.quiet (fun _ => rfl) (fun _ => rfl) rfl rfl
  | pop w cmd q hs hq =>
    refine ⟨h.1, ?_⟩
    intro w'
    show sentTo router w' (es ++ [.pop w (some cmd)]) =
      poppedBy w' (es ++ [.pop w (some cmd)]) ++ (Function.update x.queues w q w').items
    rw [sentTo_snoc, poppedBy_snoc, show sentTo router w' [.pop w (some cmd)] = [] from rfl,
      List.append_nil, h.2 w']
    by_cases heq : w' = w
    · subst heq
      rw [Function.update_self, Channel.receive_eq_some hq]
      simp [poppedBy]
    · rw [Function.update_of_ne heq]
      simp [poppedBy, Ne.symm heq]
  | process => exact h.quiet (fun _ => rfl) (fun _ => rfl) rfl rfl

section Run
variable [NeZero numWorkers] {instruments : List Instrument} {alloc : IdAllocator}
  {totalReserveSpace : ℕ} {clock : Clock}

theorem waiting_of_path (hx₀ : x₀ = start instruments alloc totalReserveSpace clock)
    (hr : Path (Guarded ClientCommand Step) x₀ es x) : Waiting x₀.router es x := by
  refine hr.history (I := Waiting x₀.router) (fun es x e x' h hs => h.step hs.2) ⟨rfl, ?_⟩
  intro w
  rw [(start_spec instruments alloc totalReserveSpace clock hx₀).1]
  rfl

omit [Zero P] [NeZero numWorkers] in
/-- As long as no pill is sent, a queue lags behind by what is in it. -/
theorem Waiting.lag (h : Waiting router es x) (hq : Queues router es x)
    (hp : x.producer = .submitting) (w : Fin numWorkers) :
    (acceptedTo router w es).length = (poppedBy w es).length + (x.queues w).items.length := by
  obtain ⟨tail, htail, hno, -⟩ := hq.pills w
  have hnil : tail = [] := hno (by rw [hp]; exact id)
  rw [hnil, List.append_nil] at htail
  rw [← htail, h.2 w, List.length_append]

/-- **When `submit` refuses.**  In every reachable state a call of `submit`
    returns `true` exactly if the instrument is routed and fewer commands than
    the queue has places have been accepted for its worker and not popped. -/
theorem submit_accepts_iff (hx₀ : x₀ = start instruments alloc totalReserveSpace clock)
    (hr : Path (Guarded ClientCommand Step) x₀ es x) {cmd : OrderCommand P} {ok : Bool}
    (hs : Step x (.submit cmd ok) x') :
    ok = true ↔ ∃ w, x₀.router.find? cmd.order.instrument = some w ∧
      (acceptedTo x₀.router w es).length < (poppedBy w es).length + bound := by
  have hwait := waiting_of_path hx₀ hr
  have hrouter := hwait.1
  obtain ⟨hqueues, -⟩ := queues_books_found hx₀ hr
  have hlag := hwait.lag hqueues
  cases hs with
  | submitUnknown cmd hp hw =>
    rw [hrouter] at hw
    simp [hw]
  | submitFull cmd w hp hw hq =>
    rw [hrouter] at hw
    have hfull := Channel.length_eq_of_refused hq
    simp [hw, hlag hp w, hfull]
  | submit cmd w q hp hw hq =>
    rw [hrouter] at hw
    have hroom := Channel.length_lt_of_send hq
    simp [hw, hlag hp w, hroom]

end Run

/-- The first command for `SPY` takes the only place; the second is refused. -/
theorem submit_accepts_iff_fullQueue : ∃ x x' : System ℤ 2 1,
    Path (Guarded ClientCommand Step) (start ["SPY", "QQQ"] (.new 1000) 10 (fun _ => 0))
      [.submit (cancelCmd "SPY") true] x ∧
    Step x (.submit (cancelCmd "SPY") false) x' ∧
    ¬ ∃ w, (start ["SPY", "QQQ"] (.new 1000) 10 (fun _ => 0) : System ℤ 2 1).router.find? "SPY" =
        some w ∧ (acceptedTo (start ["SPY", "QQQ"] (.new 1000) 10 (fun _ => 0) :
          System ℤ 2 1).router w [.submit (cancelCmd "SPY") true]).length <
        (poppedBy w [.submit (cancelCmd "SPY") true]).length + 1 := by
  have hr : ∃ x, [Event.submit (cancelCmd "SPY") true].foldlM next?
      (start ["SPY", "QQQ"] (.new 1000) 10 (fun _ => 0) : System ℤ 2 1) = some x ∧
      ∃ x', x.next? (.submit (cancelCmd "SPY") false) = some x' := ⟨_, rfl, _, rfl⟩
  obtain ⟨x, hx, x', hx'⟩ := hr
  have hpath := path_of_foldlM (by simp [ClientCommand, cancelCmd]) hx
  have hs := step_of_next? hx'
  exact ⟨x, x', hpath, hs, mt (submit_accepts_iff rfl hpath hs).mpr (by decide)⟩

section Run
variable [NeZero numWorkers] {instruments : List Instrument} {alloc : IdAllocator}
  {totalReserveSpace : ℕ} {clock : Clock}

/-- The commands with which `submit` was called for the worker `w`. -/
def submittedTo (router : InstrumentMap (Fin numWorkers)) (w : Fin numWorkers)
    (es : List (Event P numWorkers)) : List (OrderCommand P) :=
  es.filterMap fun e => match e with
    | .submit cmd _ => if router.find? cmd.order.instrument = some w then some cmd else none
    | _ => none

omit [LinearOrder P] [Zero P] [NeZero numWorkers] in
theorem submittedTo_append (router : InstrumentMap (Fin numWorkers)) (w : Fin numWorkers)
    (es es' : List (Event P numWorkers)) :
    submittedTo router w (es ++ es') = submittedTo router w es ++ submittedTo router w es' :=
  List.filterMap_append

omit [LinearOrder P] [Zero P] [NeZero numWorkers] in
theorem submittedTo_length_le (router : InstrumentMap (Fin numWorkers)) (w : Fin numWorkers)
    (es : List (Event P numWorkers)) :
    (submittedTo router w es).length ≤ (Threads.results es).length := by
  have hsome : submittedTo router w es = (Threads.results es).filterMap fun r =>
      if router.find? r.1.order.instrument = some w then some r.1 else none := by
    rw [submittedTo, Threads.results, List.filterMap_filterMap]
    apply List.filterMap_congr
    intro e _
    cases e <;> rfl
  rw [hsome]
  exact List.length_filterMap_le _ _

omit [LinearOrder P] [Zero P] [NeZero numWorkers] in
theorem acceptedTo_length_le (router : InstrumentMap (Fin numWorkers)) (w : Fin numWorkers)
    (es : List (Event P numWorkers)) :
    (acceptedTo router w es).length ≤ (submittedTo router w es).length := by
  induction es with
  | nil => exact Nat.le_refl 0
  | cons e es ih =>
    have hsub := submittedTo_append router w [e] es
    have hacc : acceptedTo router w (e :: es) =
        acceptedTo router w [e] ++ acceptedTo router w es := by
      rw [acceptedTo, ← List.singleton_append, accepted, List.filterMap_append, List.filter_append]
      rfl
    rw [List.singleton_append] at hsub
    rw [hsub, hacc, List.length_append, List.length_append]
    refine Nat.add_le_add ?_ ih
    cases e with
    | submit cmd ok =>
      cases ok <;> by_cases hw : router.find? cmd.order.instrument = some w <;>
        simp [acceptedTo, accepted, submittedTo, hw]
    | _ => exact Nat.le_refl 0

/-- Where every queue has at least as many places as `submit` is called for
    its worker, only a command for an unknown instrument is refused. -/
theorem unrouted_of_refused (hx₀ : x₀ = start instruments alloc totalReserveSpace clock)
    (hr : Path (Guarded ClientCommand Step) x₀ es x)
    (hroom : ∀ w, (submittedTo x₀.router w es).length ≤ bound) :
    ∀ cmd, .submit cmd false ∈ es → x₀.router.find? cmd.order.instrument = none := by
  intro cmd hmem
  obtain ⟨es₁, es₂, rfl⟩ := List.append_of_mem hmem
  obtain ⟨x₁, hr₁, hr₂⟩ := hr.split
  cases hr₂ with
  | cons hs _ =>
    by_contra hne
    obtain ⟨w, hw⟩ := Option.ne_none_iff_exists'.mp hne
    have hwait := waiting_of_path hx₀ hr₁
    obtain ⟨hqueues, -⟩ := queues_books_found hx₀ hr₁
    -- Of the calls for this worker at least the present one was not accepted.
    have hle := acceptedTo_length_le x₀.router w es₁
    have hall := hroom w
    have hone : (submittedTo x₀.router w [.submit cmd false]).length = 1 := by
      simp [submittedTo, hw]
    rw [submittedTo_append, ← List.singleton_append, submittedTo_append, List.length_append,
      List.length_append, hone] at hall
    cases hs.2 with
    | submitUnknown _ hp hnone => exact hne (hwait.1 ▸ hnone)
    | submitFull _ v hp hv hq =>
      rw [hwait.1, hw, Option.some.injEq] at hv
      subst hv
      have hlag := hwait.lag hqueues hp w
      rw [Channel.length_eq_of_refused hq] at hlag
      omega

/-- **Enough room.**  When every queue has at least as many places as `submit`
    is called for its worker in the whole run, no command is refused for want
    of room; with one place more, no pill is either. -/
theorem none_refused (hx₀ : x₀ = start instruments alloc totalReserveSpace clock)
    (hr : Path (Guarded ClientCommand Step) x₀ es x)
    (hroom : ∀ w, (submittedTo x₀.router w es).length ≤ bound) :
    (∀ cmd, .submit cmd false ∈ es → x₀.router.find? cmd.order.instrument = none) ∧
      ((∀ w, (submittedTo x₀.router w es).length < bound) →
        ∀ w cmd, .pushShutdown w cmd false ∉ es) := by
  refine ⟨unrouted_of_refused hx₀ hr hroom, ?_⟩
  intro hroom' w cmd hmem
  obtain ⟨es₁, es₂, rfl⟩ := List.append_of_mem hmem
  obtain ⟨x₁, hr₁, hr₂⟩ := hr.split
  cases hr₂ with
  | cons hs _ =>
    obtain ⟨-, hs⟩ := hs
    obtain ⟨-, hwait⟩ := waiting_of_path hx₀ hr₁
    obtain ⟨hq, -⟩ := queues_books_found hx₀ hr₁
    have hall := hroom' w
    rw [submittedTo_append, List.length_append] at hall
    have hle := acceptedTo_length_le x₀.router w es₁
    have hlen := congrArg List.length (hwait w)
    rw [List.length_append] at hlen
    cases hs with
    | shutdownFull submitted count w now hp hflag hfull =>
      -- The pill of this worker has not been sent before.
      obtain ⟨tail, htail, hno, -⟩ := hq.pills w
      have hnil : tail = [] := hno (by rw [hp]; simp [Pilled, hflag])
      have hbound := Channel.length_eq_of_refused hfull
      rw [htail, hnil, List.append_nil] at hlen
      omega

end Run

/-- Two commands and a pill, and three places. -/
theorem none_refused_buyerMeetsSeller : ∃ x : System ℤ 1 3,
    Path (Guarded ClientCommand Step) (start ["SPY"] (.new 1000) 10 (fun _ => 0))
      (buyerMeetsSeller 0) x ∧
    (∀ cmd, .submit cmd false ∈ (buyerMeetsSeller 0 : List (Event ℤ 1)) →
      cmd.order.instrument ≠ "SPY") ∧
    ∀ w cmd, .pushShutdown w cmd false ∉ (buyerMeetsSeller 0 : List (Event ℤ 1)) := by
  have hr : ∃ x, x ∈ (buyerMeetsSeller 0).foldlM next?
      (start ["SPY"] (.new 1000) 10 (fun _ => 0) : System ℤ 1 3) := by
    simp only [start, buildOrderRoutingSystem, addWorkerContext_eq]
    exact Option.isSome_iff_exists.mp (by decide +kernel)
  obtain ⟨x, hx⟩ := hr
  have hpath := path_of_foldlM (by simp [buyerMeetsSeller, ClientCommand, addCmd]) hx
  have hcount : ∀ w, (submittedTo (start ["SPY"] (.new 1000) 10 (fun _ => 0) :
      System ℤ 1 3).router w (buyerMeetsSeller 0)).length < 3 := by
    decide +kernel
  obtain ⟨hsubmit, hpill⟩ := none_refused rfl hpath fun w => Nat.le_of_lt (hcount w)
  refine ⟨x, hpath, ?_, hpill hcount⟩
  intro cmd hmem heq
  have hnone := hsubmit cmd hmem
  rw [heq] at hnone
  exact absurd hnone (by decide +kernel)

/-- With queues of no place nothing can be sent or received. -/
structure Stuck (es : List (Event P numWorkers)) (x : System P numWorkers 0) : Prop where
  polling : ∀ w, x.workerStates w = .polling
  accepted_eq : accepted es = []
  unsent : match x.producer with
    | .submitting => True
    | .checking submitted count => (∀ w, submitted w = false) ∧ count = 0
    | .visiting submitted count _ => (∀ w, submitted w = false) ∧ count = 0
    | .returned => False

theorem Stuck.step [NeZero numWorkers] {x x' : System P numWorkers 0} (h : Stuck es x)
    {e : Event P numWorkers} (hs : Step x e x') : Stuck (es ++ [e]) x' := by
  have hsend : ∀ (c c' : Channel (OrderCommand P) 0) cmd, c.send cmd ≠ some c' :=
    fun c c' cmd heq => absurd (Channel.length_lt_of_send heq) (Nat.not_lt_zero _)
  have hacc : accepted (es ++ [e]) = accepted [e] := by
    rw [accepted_snoc, h.accepted_eq, List.nil_append]
  have hunsent := h.unsent
  cases hs with
  | submitUnknown cmd hp hw => exact ⟨h.polling, hacc, h.unsent⟩
  | submitFull cmd w hp hw hq => exact ⟨h.polling, hacc, h.unsent⟩
  | submit cmd w q hp hw hq => exact absurd hq (hsend _ _ _)
  | callShutdown hp => exact ⟨h.polling, hacc, fun _ => rfl, rfl⟩
  | enterRound submitted count hp hne =>
    rw [hp] at hunsent
    exact ⟨h.polling, hacc, hunsent⟩
  | shutdownReturn submitted count hp heq =>
    rw [hp] at hunsent
    exact absurd (heq.symm.trans hunsent.2) (NeZero.ne numWorkers)
  | leaveRound submitted count i hp hi =>
    rw [hp] at hunsent
    exact ⟨h.polling, hacc, hunsent⟩
  | skipWorker submitted count w hp hflag =>
    rw [hp] at hunsent
    exact ⟨h.polling, hacc, hunsent⟩
  | shutdownFull submitted count w now hp hflag hq =>
    rw [hp] at hunsent
    exact ⟨h.polling, hacc, hunsent⟩
  | pushShutdown submitted count w now q hp hflag hq => exact absurd hq (hsend _ _ _)
  | popEmpty w hs hq => exact ⟨h.polling, hacc, h.unsent⟩
  | pop w cmd q hs hq =>
    have hle := (x.queues w).length_le
    rw [Channel.receive_eq_some hq] at hle
    exact absurd hle (Nat.not_succ_le_zero _)
  | process w cmd clock found worker alloc hs hok => exact nomatch (h.polling w).symm.trans hs

/-- **Queues of one slot**, which have no place since one slot stays free:
    nothing is ever accepted, and the shutdown neither returns nor stops a
    worker. -/
theorem stuck_of_no_place [NeZero numWorkers] {instruments : List Instrument} {alloc : IdAllocator}
    {totalReserveSpace : ℕ} {clock : Clock} {x : System P numWorkers 0}
    (hr : Path Step (start instruments alloc totalReserveSpace clock) es x) :
    accepted es = [] ∧ x.producer ≠ .returned ∧ ∀ w, x.workerStates w = .polling := by
  have h : Stuck es x := hr.history (I := Stuck) (fun es x e x' h hs => h.step hs)
    ⟨fun _ => rfl, rfl, trivial⟩
  refine ⟨h.accepted_eq, ?_, h.polling⟩
  intro hp
  have hunsent := h.unsent
  rw [hp] at hunsent
  exact hunsent

/-- The producer goes round and round. -/
theorem stuck_of_no_place_twoRounds : ∃ x : System ℤ 1 0,
    Path Step (start ["SPY"] (.new 1000) 10 (fun _ => 0))
      [.submit (cancelCmd "SPY") false, .shutdownLoop, .shutdownLoop,
        .pushShutdown 0 (shutdownCmd 0) false, .shutdownLoop, .shutdownLoop,
        .pushShutdown 0 (shutdownCmd 1) false, .pop 0 none] x ∧
      x.producer ≠ .returned ∧ x.workerStates 0 = .polling := by
  have hr : ∃ x, [Event.submit (cancelCmd "SPY") false, .shutdownLoop, .shutdownLoop,
      .pushShutdown 0 (shutdownCmd 0) false, .shutdownLoop, .shutdownLoop,
      .pushShutdown 0 (shutdownCmd 1) false, .pop 0 none].foldlM next?
      (start ["SPY"] (.new 1000) 10 (fun _ => 0) : System ℤ 1 0) = some x := ⟨_, rfl⟩
  obtain ⟨x, hx⟩ := hr
  have hpath := (path_of_foldlM (by simp [ClientCommand, cancelCmd]) hx).of_guarded
  obtain ⟨-, hproducer, hpolling⟩ := stuck_of_no_place hpath
  exact ⟨x, hpath, hproducer, hpolling 0⟩

end System
end Orderbook
