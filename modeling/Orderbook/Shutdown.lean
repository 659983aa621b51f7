import Orderbook.SystemIds
import Orderbook.Lib.Fairness

/-! # Shutting down

    Once the producer has called `submit_all_shutdown_commands`, and if every
    thread gets its turns, the call returns and all workers stop, whatever is
    still in the queues.  The measure counts the pills that are not sent, the
    commands that are queued or in hand, and, while no worker has anything to
    do, the steps of the producer to the next pill. -/

namespace Orderbook
namespace System
variable {P : Type} [LinearOrder P] {numWorkers bound : ℕ}
  {x x' : System P numWorkers bound}

/-- The steps of a thread: `none` is the producer, the others are workers. -/
def OfThread : Option (Fin numWorkers) → Event P numWorkers → Prop
  | none, .submit _ _ => True
  | none, .shutdownLoop => True
  | none, .pushShutdown _ _ _ => True
  | some w, .pop w' _ => w' = w
  | some w, .process w' _ _ _ => w' = w
  | _, _ => False

/-! ### The measure -/

/-- The worker has a command in hand or in its queue. -/
def busy (x : System P numWorkers bound) (w : Fin numWorkers) : Bool :=
  match x.workerStates w with
  | .popped _ => true
  | .polling => !(x.queues w).items.isEmpty
  | .stopped => false

/-- Whose turn brings the system nearer to its end. -/
def helpful (x : System P numWorkers bound) : Option (Fin numWorkers) :=
  (List.finRange numWorkers).find? x.busy

def commandsInHand : WorkerState P → ℕ
  | .popped _ => 1
  | _ => 0

/-- What a worker has in hand counts once, what is in its queue twice. -/
def workLeft (x : System P numWorkers bound) (w : Fin numWorkers) : ℕ :=
  2 * (x.queues w).items.length + commandsInHand (x.workerStates w)

/-- The workers to which no pill has been sent. -/
def unsent : ProducerState numWorkers → ℕ
  | .submitting => 0
  | .checking submitted _ => (Finset.univ.filter fun w => submitted w = false).card
  | .visiting submitted _ _ => (Finset.univ.filter fun w => submitted w = false).card
  | .returned => 0

/-- How many steps the producer makes at most until it sends the next pill or
    returns, all queues being empty. -/
def distance : ProducerState numWorkers → ℕ
  | .submitting => 0
  | .checking submitted _ => if ∃ w, submitted w = false then numWorkers + 2 else 1
  | .visiting submitted _ i =>
    (numWorkers - i) +
      if ∃ w : Fin numWorkers, i ≤ w ∧ submitted w = false then 1 else numWorkers + 4
  | .returned => 0

/-- The pills to send and the work to do. -/
def total (x : System P numWorkers bound) : ℕ := 3 * unsent x.producer + ∑ w, x.workLeft w

def measure (x : System P numWorkers bound) : ℕ :=
  x.total * (2 * numWorkers + 6) +
    if x.helpful = none then distance x.producer else 2 * numWorkers + 5

theorem workLeft_eq {w : Fin numWorkers} {q : Channel (OrderCommand P) bound} {s : WorkerState P}
    (hq : x.queues w = q) (hs : x.workerStates w = s) :
    x.workLeft w = 2 * q.items.length + commandsInHand s := by
  rw [workLeft, hq, hs]

theorem distance_le (p : ProducerState numWorkers) : distance p ≤ 2 * numWorkers + 4 := by
  cases p with
  | submitting => exact Nat.zero_le _
  | checking submitted count =>
    simp only [distance]
    split <;> omega
  | visiting submitted count i =>
    simp only [distance]
    split <;> omega
  | returned => exact Nat.zero_le _

/-- Every step of the producer without a pill brings it nearer. -/
theorem distance_enterRound {submitted : Fin numWorkers → Bool} {count : ℕ}
    (hex : ∃ w, submitted w = false) :
    distance (.visiting submitted count 0) < distance (.checking submitted count) := by
  have hzero : ∃ w : Fin numWorkers, 0 ≤ (w : ℕ) ∧ submitted w = false := by
    obtain ⟨w, hw⟩ := hex
    exact ⟨w, Nat.zero_le _, hw⟩
  simp only [distance]
  rw [if_pos hzero, if_pos hex]
  omega

theorem distance_return (submitted : Fin numWorkers → Bool) (count : ℕ) :
    distance (.returned : ProducerState numWorkers) < distance (.checking submitted count) := by
  simp only [distance]
  split <;> omega

theorem distance_leaveRound {submitted : Fin numWorkers → Bool} {count i : ℕ}
    (hi : numWorkers ≤ i) :
    distance (.checking submitted count) < distance (.visiting submitted count i) := by
  have hnone : ¬ ∃ w : Fin numWorkers, i ≤ w ∧ submitted w = false := by
    rintro ⟨w, hle, -⟩
    have hlt := w.isLt
    omega
  simp only [distance]
  rw [if_neg hnone]
  split <;> omega

theorem distance_skipWorker {submitted : Fin numWorkers → Bool} {count : ℕ} {w : Fin numWorkers}
    (hflag : submitted w = true) :
    distance (.visiting submitted count (w + 1)) < distance (.visiting submitted count w) := by
  have hiff : (∃ w' : Fin numWorkers, (w : ℕ) + 1 ≤ w' ∧ submitted w' = false) ↔
      ∃ w' : Fin numWorkers, (w : ℕ) ≤ w' ∧ submitted w' = false := by
    constructor
    · rintro ⟨w', hle, hw'⟩
      exact ⟨w', by omega, hw'⟩
    · rintro ⟨w', hle, hw'⟩
      refine ⟨w', ?_, hw'⟩
      have hne : (w : ℕ) ≠ w' := by
        intro heq
        rw [← Fin.ext heq, hflag] at hw'
        cases hw'
      omega
  have hlt := w.isLt
  simp only [distance, hiff]
  omega

theorem measure_lt_of_total (h : x'.total < x.total) : x'.measure < x.measure := by
  have hmul := Nat.mul_le_mul_right (2 * numWorkers + 6) (Nat.succ_le_of_lt h)
  have hdist := distance_le x'.producer
  rw [Nat.succ_mul] at hmul
  unfold measure
  split <;> split <;> omega

/-- A step of the producer that sends nothing: it comes nearer to the next
    pill, or a worker is the one who helps. -/
theorem measure_of_producer {p : ProducerState numWorkers} (hunsent : unsent p = unsent x.producer)
    (hdist : x.helpful = none → distance p < distance x.producer) :
    (x.helpful = none →
        ({ x with producer := p } : System P numWorkers bound).measure < x.measure) ∧
      (x.helpful ≠ none →
        ({ x with producer := p } : System P numWorkers bound).measure = x.measure) := by
  have hhelp : ({ x with producer := p } : System P numWorkers bound).helpful = x.helpful := rfl
  have htotal : ({ x with producer := p } : System P numWorkers bound).total = x.total := by
    unfold total
    rw [hunsent]
    rfl
  constructor
  · intro hnone
    unfold measure
    rw [htotal, hhelp, if_pos hnone, if_pos hnone]
    exact Nat.add_lt_add_left (hdist hnone) _
  · intro hsome
    unfold measure
    rw [htotal, hhelp, if_neg hsome, if_neg hsome]

theorem busy_of_helpful {w : Fin numWorkers} (h : x.helpful = some w) : x.busy w = true :=
  List.find?_some h

theorem not_busy (h : x.helpful = none) (w : Fin numWorkers) : x.busy w = false := by
  have hall := List.find?_eq_none.mp h w (List.mem_finRange w)
  exact Bool.eq_false_of_not_eq_true hall

/-! ### The invariant -/

variable {router : InstrumentMap (Fin numWorkers)} {es : List (Event P numWorkers)}

/-- Nothing is queued behind the pill. -/
theorem Queues.empty_of_stopped (h : Queues router es x) {w : Fin numWorkers}
    (hs : x.workerStates w = .stopped) : (x.queues w).items = [] := by
  obtain ⟨hand, hhand, heq⟩ := h.sent w
  rw [hs] at hhand
  obtain ⟨cmd, rfl, hcmd⟩ := hhand
  -- The pill is the last command sent, and the worker has it in hand.
  obtain ⟨tail, htail, hno, hyes⟩ := h.pills w
  rw [heq, List.append_assoc, List.singleton_append] at htail
  by_cases hp : Pilled w x.producer
  · obtain ⟨pill, rfl, -⟩ := hyes hp
    exact (eq_of_append_pill (G := fun cmd : OrderCommand P => cmd.type ≠ .shutdown) htail
      (by simp [hcmd]) (h.acceptedTo_client w)).2
  · rw [hno hp, List.append_nil] at htail
    have hmem : cmd ∈ acceptedTo router w es := by
      rw [← htail]
      simp
    exact absurd hcmd (h.acceptedTo_client w cmd hmem)

/-- A worker whose pill is sent has it still before it. -/
theorem Queues.pill_waits (h : Queues router es x) {w : Fin numWorkers}
    (hs : x.workerStates w = .polling) (hp : Pilled w x.producer) : (x.queues w).items ≠ [] := by
  intro hnil
  obtain ⟨hand, hhand, heq⟩ := h.sent w
  rw [hs] at hhand
  rw [show hand = [] from hhand, hnil, List.append_nil, List.append_nil] at heq
  obtain ⟨tail, htail, -, hyes⟩ := h.pills w
  obtain ⟨pill, rfl, hpill⟩ := hyes hp
  have hmem : pill ∈ (processedBy w es).map Prod.fst := by
    rw [← heq, htail]
    simp
  obtain ⟨e, he, rfl⟩ := List.mem_map.mp hmem
  exact h.processed w e he hpill

/-- The producer is in `submit_all_shutdown_commands` or past it. -/
structure Called (router : InstrumentMap (Fin numWorkers)) (x : System P numWorkers bound) :
    Prop where
  queues : ∃ es, Queues router es x
  called : x.producer ≠ .submitting

/-- In addition no worker fails. -/
structure Closing [Zero P] (router : InstrumentMap (Fin numWorkers))
    (x : System P numWorkers bound) : Prop extends Called router x where
  goes_on : ∀ w cmd clock, x.workerStates w = .popped cmd →
    ∃ x', Step x (.process w cmd clock true) x'

/-- The shutdown is complete. -/
def Closed (x : System P numWorkers bound) : Prop :=
  x.producer = .returned ∧ ∀ w, x.workerStates w = .stopped

theorem Called.empty_of_not_busy (h : Called router x) {w : Fin numWorkers}
    (hb : x.busy w = false) : (x.queues w).items = [] := by
  obtain ⟨es, hq⟩ := h.queues
  unfold busy at hb
  cases hs : x.workerStates w with
  | polling =>
    rw [hs] at hb
    simpa using hb
  | popped cmd =>
    rw [hs] at hb
    cases hb
  | stopped => exact hq.empty_of_stopped hs

/-- With all flags set the count is the number of workers. -/
theorem Called.count_eq (h : Called router x) {submitted : Fin numWorkers → Bool} {count : ℕ}
    (hp : x.producer = .checking submitted count) (hall : ¬ ∃ w, submitted w = false) :
    count = numWorkers := by
  obtain ⟨es, hq⟩ := h.queues
  have hcounted := hq.counted
  rw [hp] at hcounted
  have hcounted : (Finset.univ.filter fun w => submitted w = true).card = count := hcounted
  rw [← hcounted, Finset.filter_true_of_mem, Finset.card_univ, Fintype.card_fin]
  intro w _
  by_contra hw
  exact hall ⟨w, Bool.eq_false_of_not_eq_true hw⟩

/-- With that count no pill is left to send. -/
theorem Called.unsent_eq_zero (h : Called router x) {submitted : Fin numWorkers → Bool}
    (hp : x.producer = .checking submitted numWorkers) : unsent x.producer = 0 := by
  obtain ⟨es, hq⟩ := h.queues
  have hcounted := hq.counted
  rw [hp] at hcounted ⊢
  have hcounted : (Finset.univ.filter fun w => submitted w = true).card = numWorkers := hcounted
  have hall : (Finset.univ.filter fun w => submitted w = true) = Finset.univ := by
    apply Finset.eq_univ_of_card
    rw [hcounted, Fintype.card_fin]
  refine Finset.card_eq_zero.mpr (Finset.filter_eq_empty_iff.mpr ?_)
  intro w hw
  rw [← hall] at hw
  rw [(Finset.mem_filter.mp hw).2]
  decide

/-- Where nobody has anything to do, no queue is full. -/
theorem Called.send_ne_none (h : Called router x) (hbound : 0 < bound) (hnone : x.helpful = none)
    (w : Fin numWorkers) (cmd : OrderCommand P) : (x.queues w).send cmd ≠ none := by
  have hempty := h.empty_of_not_busy (not_busy hnone w)
  obtain ⟨q, hsend, -⟩ := Channel.send_of_lt cmd (c := x.queues w) (by
    rw [hempty]
    exact hbound)
  rw [hsend]
  exact Option.some_ne_none q

/-- Returned, and nobody has anything to do: the shutdown is complete. -/
theorem Called.closed (h : Called router x) (hp : x.producer = .returned)
    (hb : x.helpful = none) : x.Closed := by
  refine ⟨hp, ?_⟩
  intro w
  obtain ⟨es, hq⟩ := h.queues
  have hbusy := not_busy hb w
  cases hs : x.workerStates w with
  | polling =>
    have hempty := h.empty_of_not_busy hbusy
    exact absurd hempty (hq.pill_waits hs (by rw [hp]; trivial))
  | popped cmd =>
    unfold busy at hbusy
    rw [hs] at hbusy
    cases hbusy
  | stopped => rfl

/-! ### Every step -/

/-- What all steps leave as it is that do not bring the measure down. -/
structure Idles (x x' : System P numWorkers bound) : Prop where
  measure_eq : x'.measure = x.measure
  queues_eq : x'.queues = x.queues
  states_eq : x'.workerStates = x.workerStates
  producer_eq : x.helpful = none → x'.producer = x.producer

theorem Idles.refl (x : System P numWorkers bound) : Idles x x := ⟨rfl, rfl, rfl, fun _ => rfl⟩

theorem Idles.helpful_eq (h : Idles x x') : x'.helpful = x.helpful := by
  have hbusy : x'.busy = x.busy := by
    funext w
    rw [busy, busy, h.states_eq, h.queues_eq]
  rw [helpful, helpful, hbusy]

theorem Idles.trans {x'' : System P numWorkers bound} (h : Idles x x') (h' : Idles x' x'') :
    Idles x x'' where
  measure_eq := h'.measure_eq.trans h.measure_eq
  queues_eq := h'.queues_eq.trans h.queues_eq
  states_eq := h'.states_eq.trans h.states_eq
  producer_eq hnone := (h'.producer_eq (h.helpful_eq.trans hnone)).trans (h.producer_eq hnone)

/-- What a step does to the measure: it comes down, or the step is of a thread
    that is not the one who helps. -/
def Advances (x : System P numWorkers bound) (e : Event P numWorkers)
    (x' : System P numWorkers bound) : Prop :=
  x'.measure < x.measure ∨ (¬ OfThread x.helpful e ∧ Idles x x')

theorem advances_of_producer {e : Event P numWorkers} {p : ProducerState numWorkers}
    (he : ∀ w, ¬ OfThread (some w) e) (hunsent : unsent p = unsent x.producer)
    (hdist : x.helpful = none → distance p < distance x.producer) :
    Advances x e { x with producer := p } := by
  obtain ⟨hlt, heq⟩ := measure_of_producer hunsent hdist
  by_cases hnone : x.helpful = none
  · exact Or.inl (hlt hnone)
  · obtain ⟨w, hw⟩ := Option.ne_none_iff_exists'.mp hnone
    refine Or.inr ⟨?_, heq hnone, rfl, rfl, fun hn => absurd hn hnone⟩
    rw [hw]
    exact he w

/-- A worker does a piece of its work. -/
theorem advances_of_work {e : Event P numWorkers} {w : Fin numWorkers}
    (hproducer : x'.producer = x.producer) (hother : ∀ w', w' ≠ w → x'.workLeft w' = x.workLeft w')
    (hself : x'.workLeft w < x.workLeft w) : Advances x e x' := by
  apply Or.inl
  apply measure_lt_of_total
  have hsum : ∑ w', x'.workLeft w' < ∑ w', x.workLeft w' := by
    refine Finset.sum_lt_sum ?_ ⟨w, Finset.mem_univ w, hself⟩
    intro w' _
    by_cases hw : w' = w
    · rw [hw]
      exact Nat.le_of_lt hself
    · exact Nat.le_of_eq (hother w' hw)
  unfold total
  rw [hproducer]
  omega

theorem unsent_update {submitted : Fin numWorkers → Bool} {w : Fin numWorkers}
    (hw : submitted w = false) :
    (Finset.univ.filter fun w' => Function.update submitted w true w' = false).card + 1 =
      (Finset.univ.filter fun w' => submitted w' = false).card := by
  have hset : (Finset.univ.filter fun w' => submitted w' = false) =
      insert w (Finset.univ.filter fun w' => Function.update submitted w true w' = false) := by
    ext w'
    by_cases heq : w' = w
    · subst heq
      simp [hw]
    · simp [heq]
  rw [hset, Finset.card_insert_of_notMem (by simp)]

/-- A pill costs less in the queue than it did before it was sent. -/
theorem advances_of_pill {e : Event P numWorkers} {submitted : Fin numWorkers → Bool}
    {count : ℕ} {w : Fin numWorkers} {cmd : OrderCommand P} {q : Channel (OrderCommand P) bound}
    (hp : x.producer = .visiting submitted count w) (hflag : submitted w = false)
    (hq : (x.queues w).send cmd = some q) :
    Advances x e { x with
      queues := Function.update x.queues w q
      producer := .visiting (Function.update submitted w true) (count + 1) (w + 1) } := by
  apply Or.inl
  apply measure_lt_of_total
  -- Only the queue of `w` has grown, by the pill.
  have hwork : ∀ w', ({ x with
      queues := Function.update x.queues w q
      producer := .visiting (Function.update submitted w true) (count + 1) (w + 1) } :
        System P numWorkers bound).workLeft w' = x.workLeft w' + if w' = w then 2 else 0 := by
    intro w'
    by_cases hw : w' = w
    · subst hw
      show 2 * (Function.update x.queues w' q w').items.length +
        commandsInHand (x.workerStates w') = _
      rw [Function.update_self, if_pos rfl, workLeft, Channel.send_eq_some hq, List.length_append,
        List.length_singleton]
      omega
    · show 2 * (Function.update x.queues w q w').items.length +
        commandsInHand (x.workerStates w') = _
      rw [Function.update_of_ne hw, if_neg hw]
      rfl
  unfold total
  rw [Finset.sum_congr rfl fun w' _ => hwork w', Finset.sum_add_distrib, Finset.sum_ite_eq',
    if_pos (Finset.mem_univ w), hp]
  have hpills := unsent_update hflag
  simp only [unsent]
  omega

theorem advances_of_pop {w : Fin numWorkers} {cmd : OrderCommand P}
    {q : Channel (OrderCommand P) bound} (hs : x.workerStates w = .polling)
    (hq : (x.queues w).receive = some (cmd, q)) :
    Advances x (.pop w (some cmd)) { x with
      queues := Function.update x.queues w q
      workerStates := Function.update x.workerStates w
        (if cmd.type = .shutdown then .stopped else .popped cmd) } := by
  refine advances_of_work (w := w) rfl ?_ ?_
  · intro w' hw
    exact workLeft_eq (Function.update_of_ne hw q x.queues) (Function.update_of_ne hw _ _)
  · have hle : commandsInHand
        (if cmd.type = .shutdown then .stopped else .popped cmd : WorkerState P) ≤ 1 := by
      split
      · exact Nat.zero_le 1
      · exact Nat.le_refl 1
    rw [workLeft_eq (Function.update_self w q x.queues) (Function.update_self w _ _),
      workLeft_eq rfl hs, Channel.receive_eq_some hq, List.length_cons]
    omega

/-- The one who helps is not a worker that polls an empty queue. -/
theorem not_helpful_of_empty {w : Fin numWorkers} (hs : x.workerStates w = .polling)
    (hq : (x.queues w).receive = none) :
    ¬ OfThread x.helpful (.pop w none : Event P numWorkers) := by
  intro hown
  cases hhelp : x.helpful with
  | none =>
    rw [hhelp] at hown
    exact hown
  | some w' =>
    rw [hhelp] at hown
    have heq : w = w' := hown
    have hbusy := busy_of_helpful hhelp
    rw [← heq, busy, hs] at hbusy
    cases hitems : (x.queues w).items with
    | nil => simp [hitems] at hbusy
    | cons cmd cmds =>
      obtain ⟨q, hrecv, -⟩ := Channel.receive_of_cons hitems
      rw [hq] at hrecv
      cases hrecv

variable [Zero P]

/-- **Every step advances** the shutdown, or it is of a thread that waits. -/
theorem Called.advances (h : Called router x) (hbound : 0 < bound) {e : Event P numWorkers}
    (hs : Step x e x') : Advances x e x' := by
  have hcalled := h.called
  cases hs with
  | submitUnknown cmd hp hw => exact absurd hp hcalled
  | submitFull cmd w hp hw hq => exact absurd hp hcalled
  | submit cmd w q hp hw hq => exact absurd hp hcalled
  | callShutdown hp => exact absurd hp hcalled
  | enterRound submitted count hp hne =>
    -- A round begins only while a flag is not set.
    have hex : ∃ w, submitted w = false := by
      by_contra hall
      exact hne (h.count_eq hp hall)
    refine advances_of_producer (fun w => id) (by rw [hp]; rfl) fun _ => ?_
    rw [hp]
    exact distance_enterRound hex
  | shutdownReturn submitted count hp heq =>
    rw [heq] at hp
    refine advances_of_producer (fun w => id) (h.unsent_eq_zero hp).symm fun _ => ?_
    rw [hp]
    exact distance_return submitted numWorkers
  | leaveRound submitted count i hp hi =>
    refine advances_of_producer (fun w => id) (by rw [hp]; rfl) fun _ => ?_
    rw [hp]
    exact distance_leaveRound (Nat.le_of_not_lt hi)
  | skipWorker submitted count w hp hflag =>
    refine advances_of_producer (fun w => id) (by rw [hp]; rfl) fun _ => ?_
    rw [hp]
    exact distance_skipWorker hflag
  | shutdownFull submitted count w now hp hflag hq =>
    refine advances_of_producer (fun w => id) (by rw [hp]; rfl) fun hnone => ?_
    exact absurd hq (h.send_ne_none hbound hnone w (shutdownCmd now))
  | pushShutdown submitted count w now q hp hflag hq => exact advances_of_pill hp hflag hq
  | popEmpty w hs hq => exact Or.inr ⟨not_helpful_of_empty hs hq, Idles.refl x⟩
  | pop w cmd q hs hq => exact advances_of_pop hs hq
  | process w cmd clock found worker alloc hs hok =>
    refine advances_of_work (w := w) rfl ?_ ?_
    · intro w' hw
      exact workLeft_eq rfl (Function.update_of_ne hw _ _)
    · rw [workLeft_eq rfl (Function.update_self w _ _), workLeft_eq rfl hs]
      exact Nat.lt_succ_self _

theorem enabled_of {e : Event P numWorkers} {t : Option (Fin numWorkers)} (hown : OfThread t e)
    (hclient : ∀ y : System P numWorkers bound, y.ClientCommand e) (hs : Step x e x') :
    Execution.Enabled (Guarded ClientCommand Step) (OfThread t) x :=
  ⟨e, x', hown, hclient x, hs⟩

/-- Whoever helps is able to. -/
theorem Closing.enabled (h : Closing router x) (hbound : 0 < bound) (hopen : ¬ x.Closed) :
    Execution.Enabled (Guarded ClientCommand Step) (OfThread x.helpful) x := by
  cases hhelp : x.helpful with
  | some w =>
    have hbusy := busy_of_helpful hhelp
    unfold busy at hbusy
    cases hs : x.workerStates w with
    | popped cmd =>
      obtain ⟨x', hx'⟩ := h.goes_on w cmd (fun _ => 0) hs
      exact enabled_of (e := .process w cmd (fun _ => 0) true) rfl (fun _ => trivial) hx'
    | polling =>
      rw [hs] at hbusy
      cases hitems : (x.queues w).items with
      | nil => simp [hitems] at hbusy
      | cons cmd cmds =>
        obtain ⟨q, hrecv, -⟩ := Channel.receive_of_cons hitems
        exact enabled_of (e := .pop w (some cmd)) rfl (fun _ => trivial) (.pop x w cmd q hs hrecv)
    | stopped =>
      rw [hs] at hbusy
      cases hbusy
  | none =>
    have hcalled := h.called
    cases hp : x.producer with
    | submitting => exact absurd hp hcalled
    | checking submitted count =>
      by_cases hcount : count = numWorkers
      · exact enabled_of (e := .shutdownLoop) trivial (fun _ => trivial)
          (.shutdownReturn x submitted count hp hcount)
      · exact enabled_of (e := .shutdownLoop) trivial (fun _ => trivial)
          (.enterRound x submitted count hp hcount)
    | visiting submitted count i =>
      by_cases hi : i < numWorkers
      · cases hflag : submitted ⟨i, hi⟩ with
        | true =>
          exact enabled_of (e := .shutdownLoop) trivial (fun _ => trivial)
            (.skipWorker x submitted count ⟨i, hi⟩ hp hflag)
        | false =>
          -- Nobody is busy, so there is room for the pill.
          have hempty := h.empty_of_not_busy (not_busy hhelp ⟨i, hi⟩)
          obtain ⟨q, hsend, -⟩ := Channel.send_of_lt (shutdownCmd 0) (c := x.queues ⟨i, hi⟩) (by
            rw [hempty]
            exact hbound)
          exact enabled_of (e := .pushShutdown ⟨i, hi⟩ (shutdownCmd 0) true) trivial
            (fun _ => trivial) (.pushShutdown x submitted count ⟨i, hi⟩ 0 q hp hflag hsend)
      · exact enabled_of (e := .shutdownLoop) trivial (fun _ => trivial)
          (.leaveRound x submitted count i hp hi)
    | returned => exact absurd (h.closed hp hhelp) hopen

theorem helped (router : InstrumentMap (Fin numWorkers)) (hbound : 0 < bound) :
    Execution.Helped (Guarded ClientCommand Step) OfThread (Closing router)
      (Closed : System P numWorkers bound → Prop) measure helpful where
  enabled x h hopen := h.enabled hbound hopen
  decreases x e x' h _ hs hown := by
    rcases h.advances hbound hs.2 with hlt | ⟨hnot, -⟩
    · exact hlt
    · exact absurd hown hnot
  stays x e x' h _ hs := by
    rcases h.advances hbound hs.2 with hlt | ⟨-, hidles⟩
    · exact Or.inl hlt
    · exact Or.inr ⟨hidles.measure_eq, hidles.helpful_eq⟩

/-! ### Every fair execution -/

/-- The producer does not go back to `submit`. -/
theorem called_step {e : Event P numWorkers} (hs : Step x e x') (h : x.producer ≠ .submitting) :
    x'.producer ≠ .submitting ∧ accepted [e] = [] := by
  cases hs with
  | submitUnknown cmd hp hw => exact absurd hp h
  | submitFull cmd w hp hw hq => exact absurd hp h
  | submit cmd w q hp hw hq => exact absurd hp h
  | callShutdown hp => exact absurd hp h
  | enterRound => exact ⟨nofun, rfl⟩
  | shutdownReturn => exact ⟨nofun, rfl⟩
  | leaveRound => exact ⟨nofun, rfl⟩
  | skipWorker => exact ⟨nofun, rfl⟩
  | shutdownFull => exact ⟨nofun, rfl⟩
  | pushShutdown => exact ⟨nofun, rfl⟩
  | popEmpty => exact ⟨h, rfl⟩
  | pop => exact ⟨h, rfl⟩
  | process => exact ⟨h, rfl⟩

omit [LinearOrder P] [Zero P] in
theorem accepted_append (es es' : List (Event P numWorkers)) :
    accepted (es ++ es') = accepted es ++ accepted es' :=
  List.filterMap_append

theorem called_path (hr : Path (Guarded ClientCommand Step) x es x')
    (h : x.producer ≠ .submitting) : x'.producer ≠ .submitting ∧ accepted es = [] := by
  induction hr with
  | nil x => exact ⟨h, rfl⟩
  | @cons x x₁ x' e es hs _ ih =>
    obtain ⟨hcalled, hnone⟩ := called_step hs.2 h
    obtain ⟨hcalled', hnone'⟩ := ih hcalled
    refine ⟨hcalled', ?_⟩
    rw [← List.singleton_append, accepted_append, hnone, hnone', List.append_nil]

theorem Called.step (h : Called router x) {e : Event P numWorkers}
    (hs : Guarded ClientCommand Step x e x') : Called router x' := by
  obtain ⟨es, hq⟩ := h.queues
  exact ⟨⟨_, hq.step hs⟩, (called_step hs.2 h.called).1⟩

/-- Over several steps the measure comes down, or nobody has helped. -/
theorem Called.advances_path (h : Called router x) (hbound : 0 < bound)
    (hr : Path (Guarded ClientCommand Step) x es x') : x'.measure < x.measure ∨ Idles x x' := by
  induction hr with
  | nil x => exact Or.inr (Idles.refl x)
  | cons hs _ ih =>
    rcases h.advances hbound hs.2 with hlt | ⟨-, hidles⟩
    · refine Or.inl (Nat.lt_of_le_of_lt ?_ hlt)
      rcases ih (h.step hs) with hlt' | hidles'
      · exact Nat.le_of_lt hlt'
      · exact Nat.le_of_eq hidles'.measure_eq
    · rcases ih (h.step hs) with hlt' | hidles'
      · rw [hidles.measure_eq] at hlt'
        exact Or.inl hlt'
      · exact Or.inr (hidles.trans hidles')

section Fair
variable {ex : Execution (System P numWorkers bound) (Event P numWorkers)}

/-- Nothing more is accepted from the call of the shutdown on. -/
theorem accepted_from (hex : ex.Of (Guarded ClientCommand Step)) {i j : ℕ}
    (hcalled : (ex.state i).producer ≠ .submitting) (hij : i ≤ j) :
    (ex.state j).producer ≠ .submitting ∧
      accepted (ex.history j) = accepted (ex.history i) := by
  obtain ⟨es, hes, hpath⟩ := hex.path_between hij
  obtain ⟨hcalled', hnone⟩ := called_path hpath hcalled
  refine ⟨hcalled', ?_⟩
  rw [hes, accepted_append, hnone, List.append_nil]

/-- **Shutdown completes.**  In an execution that is fair to every thread, with
    queues of at least one place, `submit_all_shutdown_commands` returns once
    it is called and all workers stop, every command accepted having been
    applied to its book. -/
theorem shutdown_completes [NeZero numWorkers] {blockSize : OrderId} (hsize : 1 ≤ blockSize)
    (hbound : 0 < bound) {instruments : List Instrument} {totalReserveSpace : ℕ} {clock : Clock}
    (hstart : ex.state 0 = start instruments (.new blockSize) totalReserveSpace clock)
    (hex : ex.Of (Guarded ClientCommand Step))
    (hfair : ∀ thread, ex.FairTo (Guarded ClientCommand Step) (OfThread thread)) {i : ℕ}
    (hcalled : (ex.state i).producer ≠ .submitting)
    (hroom : FIRST_ORDER_ID.toNat +
      blockSize.toNat * (instruments.length + (accepted (ex.history i)).length) < 2 ^ 64) :
    ∃ j, i ≤ j ∧ (ex.state j).Closed ∧
      ∀ instrument w, (ex.state 0).router.find? instrument = some w →
        (appliedTo w instrument (ex.history j)).map Prod.fst =
          acceptedFor instrument (ex.history i) := by
  have hqueues : ∀ j, i ≤ j → Queues (ex.state 0).router (ex.history j) (ex.state j) ∧
      Closing (ex.state 0).router (ex.state j) := by
    intro j hij
    obtain ⟨hcalled', hsame⟩ := accepted_from hex hcalled hij
    obtain ⟨hq, hb, s, hfirst, hsup⟩ := supplied_of_path hsize hstart (hex.path j)
      (by rw [hsame]; exact hroom)
    exact ⟨hq, ⟨⟨_, hq⟩, hcalled'⟩, (hsup.served hfirst hq hb).goes_on⟩
  obtain ⟨j, hij, hclosed⟩ := hex.eventually hfair (helped _ hbound) fun j hij => (hqueues j hij).2
  refine ⟨j, hij, hclosed, ?_⟩
  intro instrument w hw
  have hq := (hqueues j hij).1
  have hsame := (accepted_from hex hcalled hij).2
  rw [appliedTo_map_fst, (hq.processed_in_order w).2 (hclosed.2 w), ← acceptedFor_eq _ hw,
    acceptedFor, acceptedFor, hsame]

end Fair

/-- After the shutdown nothing happens. -/
theorem Closed.final (h : x.Closed) (e : Event P numWorkers) : ¬ Step x e x' := by
  obtain ⟨hp, hs⟩ := h
  intro hstep
  cases hstep with
  | submitUnknown cmd hp' => exact nomatch hp.symm.trans hp'
  | submitFull cmd w hp' => exact nomatch hp.symm.trans hp'
  | submit cmd w q hp' => exact nomatch hp.symm.trans hp'
  | callShutdown hp' => exact nomatch hp.symm.trans hp'
  | enterRound submitted count hp' => exact nomatch hp.symm.trans hp'
  | shutdownReturn submitted count hp' => exact nomatch hp.symm.trans hp'
  | leaveRound submitted count i hp' => exact nomatch hp.symm.trans hp'
  | skipWorker submitted count w hp' => exact nomatch hp.symm.trans hp'
  | shutdownFull submitted count w now hp' => exact nomatch hp.symm.trans hp'
  | pushShutdown submitted count w now q hp' => exact nomatch hp.symm.trans hp'
  | popEmpty w hs' => exact nomatch (hs w).symm.trans hs'
  | pop w cmd q hs' => exact nomatch (hs w).symm.trans hs'
  | process w cmd clock found worker alloc hs' => exact nomatch (hs w).symm.trans hs'

deriving instance DecidableEq for ProducerState
deriving instance DecidableEq for WorkerState

instance (x : System ℤ numWorkers bound) : Decidable x.Closed :=
  inferInstanceAs (Decidable (_ ∧ _))

/-- The queues are not empty when the shutdown is called, and one of them is
    full when its pill is first tried. -/
theorem shutdown_completes_fullQueue : ∃ ex : Execution (System ℤ 2 1) (Event ℤ 2), ∃ j,
    ex.history 7 = fullQueue.take 7 ∧ 7 ≤ j ∧ (ex.state j).Closed := by
  let x₀ : System ℤ 2 1 := start ["SPY", "QQQ", "IWM", "SPY"] (.new 1000) 10 (fun _ => 0)
  have hr : ∃ x ∈ (fullQueue.take 7).foldlM next? x₀, x.producer ≠ .submitting ∧
      ∃ x' ∈ (fullQueue.drop 7).foldlM next? x, x'.Closed := by
    decide +kernel
  obtain ⟨x, hx, hcalled, x', hx', hclosed⟩ := hr
  have hclient : ∀ e ∈ fullQueue, ∀ y : System ℤ 2 1, y.ClientCommand e := by
    simp [fullQueue, ClientCommand, cancelCmd]
  have hpath := path_of_foldlM (fun e he => hclient e (List.mem_of_mem_take he)) hx
  have hpath' := path_of_foldlM (fun e he => hclient e (List.mem_of_mem_drop he)) hx'
  -- The system pauses for ever in its last state, after the two runs.
  obtain ⟨ex', hof', hzero', -, hstate'⟩ := Execution.exists_of_path hpath'
  obtain ⟨ex, hof, hzero, hhist, hstate⟩ := hof'.append (by rw [hzero']; exact hpath)
  have hseven : ex.state 7 = x := (hstate 0).trans hzero'
  have hlast : ∀ i, ex.state (21 + i) = x' := by
    intro i
    have hi := hstate (14 + i)
    rw [← Nat.add_assoc] at hi
    exact hi.trans (hstate' i)
  have hfair : ∀ thread, ex.FairTo (Guarded ClientCommand Step) (OfThread thread) := by
    intro thread
    apply Execution.FairTo.of_disabled
    rintro i ⟨e, y, -, -, hstep⟩
    rw [hlast i] at hstep
    exact hclosed.final e hstep
  have hhist : ex.history 7 = fullQueue.take 7 := hhist 0
  obtain ⟨j, hj, hjclosed, -⟩ := shutdown_completes (by decide) (by decide) hzero hof hfair
    (i := 7) (by rw [hseven]; exact hcalled) (by rw [hhist]; decide)
  exact ⟨ex, j, hhist, hj, hjclosed⟩

end System
end Orderbook
