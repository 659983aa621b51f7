import Orderbook.Outcomes

/-! # No command is forgotten

    If every worker gets its turns, a command that `submit` has accepted is
    applied to its book after some time, whatever else goes on.  For a given
    number of commands, the measure is what the worker has to process until
    it has come that far. -/

namespace Orderbook
namespace System
variable {P : Type} [LinearOrder P] [Zero P] {numWorkers bound : ℕ}
  {x x' : System P numWorkers bound} {es : List (Event P numWorkers)}
  {router : InstrumentMap (Fin numWorkers)} {w : Fin numWorkers} {n : ℕ}

/-! ### One worker -/

omit [Zero P] in
/-- A worker that is behind has a command in hand or in its queue, and the
    next one is not the pill. -/
theorem Queues.next_command (h : Queues router es x)
    (hbehind : (processedBy w es).length < (acceptedTo router w es).length) :
    (∃ cmd, x.workerStates w = .popped cmd) ∨ (x.workerStates w = .polling ∧
      ∃ cmd cmds, (x.queues w).items = cmd :: cmds ∧ cmd.type ≠ .shutdown) := by
  cases hs : x.workerStates w with
  | popped cmd => exact Or.inl ⟨cmd, rfl⟩
  | stopped =>
    have hlen := congrArg List.length ((h.processed_in_order w).2 hs)
    rw [List.length_map] at hlen
    omega
  | polling =>
    obtain ⟨hand, hhand, heq⟩ := h.sent w
    rw [hs] at hhand
    obtain ⟨tail, htail, -, -⟩ := h.pills w
    rw [show hand = [] from hhand, List.append_nil] at heq
    -- With nothing in hand the first command in the queue is the next one accepted.
    have hnext : (acceptedTo router w es)[(processedBy w es).length]? =
        (x.queues w).items[0]? := by
      have hleft : (acceptedTo router w es ++ tail)[(processedBy w es).length]? =
          (acceptedTo router w es)[(processedBy w es).length]? := List.getElem?_append_left hbehind
      rw [← hleft, ← htail, heq, List.getElem?_append_right (by rw [List.length_map]),
        List.length_map, Nat.sub_self]
    rw [List.getElem?_eq_getElem hbehind] at hnext
    cases hitems : (x.queues w).items with
    | nil =>
      rw [hitems] at hnext
      cases hnext
    | cons cmd cmds =>
      rw [hitems] at hnext
      refine Or.inr ⟨rfl, cmd, cmds, rfl, ?_⟩
      rw [← Option.some.inj hnext]
      exact h.acceptedTo_client w _ (List.getElem_mem hbehind)

/-- The steps of the others leave a worker where it is. -/
theorem worker_unchanged {e : Event P numWorkers} (hs : Step x e x')
    (hown : ¬ OfThread (some w) e) :
    processedBy w [e] = [] ∧ x'.workerStates w = x.workerStates w := by
  cases hs with
  | pop w' cmd q hstate hq =>
    have hne : w ≠ w' := fun heq => hown heq.symm
    exact ⟨rfl, Function.update_of_ne hne _ _⟩
  | process w' cmd clock found worker alloc hstate hok =>
    have hne : w' ≠ w := hown
    refine ⟨?_, Function.update_of_ne (Ne.symm hne) _ _⟩
    simp [processedBy, hne]
  | _ => exact ⟨rfl, rfl⟩

/-! ### The measure -/

/-- The worker has processed `n + 1` commands. -/
def CameTo (w : Fin numWorkers) (n : ℕ)
    (s : List (Event P numWorkers) × System P numWorkers bound) : Prop :=
  n < (processedBy w s.1).length

/-- There are `n + 1` commands for the worker. -/
structure Owed (router : InstrumentMap (Fin numWorkers)) (w : Fin numWorkers) (n : ℕ)
    (s : List (Event P numWorkers) × System P numWorkers bound) : Prop where
  queues : Queues router s.1 s.2
  owed : n < (acceptedTo router w s.1).length

/-- In addition the worker does not fail. -/
structure Owes (router : InstrumentMap (Fin numWorkers)) (w : Fin numWorkers) (n : ℕ)
    (s : List (Event P numWorkers) × System P numWorkers bound) : Prop extends
    Owed router w n s where
  goes_on : ∀ cmd clock, s.2.workerStates w = .popped cmd →
    ∃ x', Step s.2 (.process w cmd clock true) x'

def toGo (w : Fin numWorkers) (n : ℕ)
    (s : List (Event P numWorkers) × System P numWorkers bound) : ℕ :=
  2 * (n + 1 - (processedBy w s.1).length) - commandsInHand (s.2.workerStates w)

omit [Zero P] in
/-- Short of `n + 1` commands the worker has a next one. -/
theorem Owed.next_command (h : Owed router w n (es, x)) (hopen : ¬ CameTo w n (es, x)) :
    (∃ cmd, x.workerStates w = .popped cmd) ∨ (x.workerStates w = .polling ∧
      ∃ cmd cmds, (x.queues w).items = cmd :: cmds ∧ cmd.type ≠ .shutdown) :=
  h.queues.next_command (lt_of_le_of_lt (Nat.le_of_not_lt hopen) h.owed)

theorem Owes.enabled (h : Owes router w n (es, x)) (hopen : ¬ CameTo w n (es, x)) :
    Execution.Enabled (Guarded ClientCommand Step) (OfThread (some w)) x := by
  rcases h.next_command hopen with ⟨cmd, hs⟩ | ⟨hs, cmd, cmds, hitems, -⟩
  · obtain ⟨x', hx'⟩ := h.goes_on cmd (fun _ => 0) hs
    exact enabled_of (e := .process w cmd (fun _ => 0) true) rfl (fun _ => trivial) hx'
  · obtain ⟨q, hrecv, -⟩ := Channel.receive_of_cons hitems
    exact enabled_of (e := .pop w (some cmd)) rfl (fun _ => trivial) (.pop x w cmd q hs hrecv)

/-- A step of the worker itself brings it nearer. -/
theorem Owed.decreases (h : Owed router w n (es, x)) (hopen : ¬ CameTo w n (es, x))
    {e : Event P numWorkers} (hs : Step x e x') (hown : OfThread (some w) e) :
    toGo w n (es ++ [e], x') < toGo w n (es, x) := by
  have hle : (processedBy w es).length ≤ n := Nat.le_of_not_lt hopen
  have hnext := h.next_command hopen
  unfold toGo
  rw [processedBy_snoc, List.length_append]
  cases hs with
  | popEmpty w' hstate hq =>
    have hw : w' = w := hown
    subst hw
    rcases hnext with ⟨cmd, hpopped⟩ | ⟨-, cmd, cmds, hitems, -⟩
    · exact nomatch hstate.symm.trans hpopped
    · obtain ⟨q, hrecv, -⟩ := Channel.receive_of_cons hitems
      exact nomatch hq.symm.trans hrecv
  | pop w' cmd q hstate hq =>
    have hw : w' = w := hown
    subst hw
    rcases hnext with ⟨cmd', hpopped⟩ | ⟨-, cmd', cmds, hitems, hclient⟩
    · exact nomatch hstate.symm.trans hpopped
    · -- What is popped is not the pill, so the worker has it in hand.
      have hcmd := Channel.receive_eq_some hq
      have hitems : (x.queues w').items = cmd' :: cmds := hitems
      rw [hitems] at hcmd
      have hsame : cmd' = cmd := (List.cons.inj hcmd).1
      rw [hsame] at hclient
      show 2 * (n + 1 - ((processedBy w' es).length + 0)) - commandsInHand
        (Function.update x.workerStates w'
          (if cmd.type = .shutdown then .stopped else .popped cmd) w') <
          2 * (n + 1 - (processedBy w' es).length) - commandsInHand (x.workerStates w')
      rw [Function.update_self, if_neg hclient, hstate]
      simp only [commandsInHand]
      omega
  | process w' cmd clock found worker alloc hstate hok =>
    have hw : w' = w := hown
    subst hw
    show 2 * (n + 1 - ((processedBy w' es).length +
      (processedBy w' [Event.process w' cmd clock found]).length)) -
        commandsInHand (Function.update x.workerStates w' .polling w') <
          2 * (n + 1 - (processedBy w' es).length) - commandsInHand (x.workerStates w')
    rw [Function.update_self, hstate]
    simp only [commandsInHand, processedBy, List.filterMap_cons, List.filterMap_nil, if_true,
      List.length_singleton]
    have hle : (processedBy w' es).length ≤ n := hle
    unfold processedBy at hle
    omega
  | _ => exact False.elim hown

/-- What a step of another thread leaves as it is. -/
theorem toGo_other {e : Event P numWorkers} (hs : Step x e x') (hown : ¬ OfThread (some w) e) :
    toGo w n (es ++ [e], x') = toGo w n (es, x) := by
  obtain ⟨hproc, hstate⟩ := worker_unchanged hs hown
  unfold toGo
  rw [processedBy_snoc, hproc, List.append_nil, hstate]

theorem Owed.step (h : Owed router w n (es, x)) {e : Event P numWorkers}
    (hs : Guarded ClientCommand Step x e x') : Owed router w n (es ++ [e], x') := by
  refine ⟨h.queues.step hs, lt_of_lt_of_le h.owed ?_⟩
  exact (((List.prefix_append es [e]).filterMap _).filter _).length_le

/-- Over several steps the worker comes nearer, or it has done nothing. -/
theorem Owed.advances_path (h : Owed router w n (es, x)) (hopen : ¬ CameTo w n (es, x))
    {es' : List (Event P numWorkers)} (hr : Path (Guarded ClientCommand Step) x es' x') :
    toGo w n (es ++ es', x') < toGo w n (es, x) ∨
      (toGo w n (es ++ es', x') = toGo w n (es, x) ∧ x'.workerStates w = x.workerStates w) := by
  induction hr generalizing es with
  | nil x =>
    rw [List.append_nil]
    exact Or.inr ⟨rfl, rfl⟩
  | @cons x x₁ x' e es' hs hr ih =>
    rw [← List.singleton_append, ← List.append_assoc]
    by_cases hown : OfThread (some w) e
    · have hlt := h.decreases hopen hs.2 hown
      refine Or.inl (Nat.lt_of_le_of_lt ?_ hlt)
      by_cases hcame : CameTo w n (es ++ [e], x₁)
      · -- Once it has come so far, nothing is left.
        have hcame : n < (processedBy w (es ++ [e])).length := hcame
        have hle : (processedBy w (es ++ [e])).length ≤
            (processedBy w (es ++ [e] ++ es')).length :=
          ((List.prefix_append (es ++ [e]) es').filterMap _).length_le
        have hzero : toGo w n (es ++ [e] ++ es', x') = 0 := by
          simp only [toGo]
          omega
        rw [hzero]
        exact Nat.zero_le _
      · rcases ih (h.step hs) hcame with hlt' | ⟨heq, -⟩
        · exact Nat.le_of_lt hlt'
        · exact Nat.le_of_eq heq
    · obtain ⟨hproc, hstate⟩ := worker_unchanged hs.2 hown
      have hopen' : ¬ CameTo w n (es ++ [e], x₁) := by
        show ¬ n < (processedBy w (es ++ [e])).length
        rw [processedBy_snoc, hproc, List.append_nil]
        exact hopen
      have hih := ih (h.step hs) hopen'
      rw [toGo_other hs.2 hown, hstate] at hih
      exact hih

theorem owes_helped (router : InstrumentMap (Fin numWorkers)) (w : Fin numWorkers) (n : ℕ) :
    Execution.Helped (Execution.Recorded (Guarded ClientCommand Step))
      (fun (_ : Unit) => OfThread (some w)) (Owes router w n)
      (fun s : List (Event P numWorkers) × System P numWorkers bound => CameTo w n s) (toGo w n)
      (fun _ => ()) where
  enabled s h hopen := (h.enabled hopen).recorded _
  decreases := by
    rintro ⟨es, x⟩ e ⟨es', x'⟩ h hopen ⟨⟨-, hs⟩, heq⟩ hown
    have hes : es' = es ++ [e] := heq
    rw [hes]
    exact h.decreases hopen hs hown
  stays := by
    rintro ⟨es, x⟩ e ⟨es', x'⟩ h hopen ⟨⟨-, hs⟩, heq⟩
    have hes : es' = es ++ [e] := heq
    rw [hes]
    by_cases hown : OfThread (some w) e
    · exact Or.inl (h.decreases hopen hs hown)
    · exact Or.inr ⟨toGo_other hs hown, rfl⟩

/-! ### Every fair execution -/

section Fair
variable {ex : Execution (System P numWorkers bound) (Event P numWorkers)}

omit [Zero P] in
/-- What has been accepted stays accepted. -/
theorem acceptedTo_grows {i j : ℕ} (hij : i ≤ j) :
    acceptedTo router w (ex.history i) <+: acceptedTo router w (ex.history j) :=
  ((ex.history_grows hij).filterMap _).filter _

/-- **No command is forgotten.**  In an execution that is fair to every worker
    and never accepts more commands than there are ids, what has been accepted
    for an instrument at a moment has been applied to its book at a later one. -/
theorem accepted_applied [NeZero numWorkers] {instruments : List Instrument} {blockSize : OrderId}
    (hsize : 1 ≤ blockSize) {totalReserveSpace : ℕ} {clock : Clock}
    (hstart : ex.state 0 = start instruments (.new blockSize) totalReserveSpace clock)
    (hex : ex.Of (Guarded ClientCommand Step))
    (hfair : ∀ w, ex.FairTo (Guarded ClientCommand Step) (OfThread (some w)))
    (hroom : ∀ i, FIRST_ORDER_ID.toNat +
      blockSize.toNat * (instruments.length + (accepted (ex.history i)).length) < 2 ^ 64)
    (i : ℕ) {instrument : Instrument} {w : Fin numWorkers}
    (hw : (ex.state 0).router.find? instrument = some w) :
    ∃ j, i ≤ j ∧ acceptedFor instrument (ex.history i) <+:
      (appliedTo w instrument (ex.history j)).map Prod.fst := by
  have hserved : ∀ j, Queues (ex.state 0).router (ex.history j) (ex.state j) ∧
      Served (ex.history j) (ex.state j) := by
    intro j
    obtain ⟨hq, hb, s, hfirst, hsup⟩ := supplied_of_path hsize hstart (hex.path j) (hroom j)
    exact ⟨hq, hsup.served hfirst hq hb⟩
  -- The worker comes to process as many commands as are accepted now.
  have hcome : ∃ j, i ≤ j ∧ (acceptedTo (ex.state 0).router w (ex.history i)).length ≤
      (processedBy w (ex.history j)).length := by
    rcases Nat.eq_zero_or_pos (acceptedTo (ex.state 0).router w (ex.history i)).length with
      hnone | hsome
    · rw [hnone]
      exact ⟨i, Nat.le_refl i, Nat.zero_le _⟩
    · have howes : ∀ j, i ≤ j → Owes (ex.state 0).router w
          ((acceptedTo (ex.state 0).router w (ex.history i)).length - 1) (ex.recorded.state j) := by
        intro j hij
        have hle : (acceptedTo (ex.state 0).router w (ex.history i)).length ≤
            (acceptedTo (ex.state 0).router w (ex.history j)).length :=
          (acceptedTo_grows hij).length_le
        refine ⟨⟨(hserved j).1, ?_⟩, (hserved j).2.goes_on w⟩
        show _ < (acceptedTo (ex.state 0).router w (ex.history j)).length
        omega
      obtain ⟨j, hij, hcame⟩ := hex.recorded.eventually (fun _ => (hfair w).recorded)
        (owes_helped _ w _) howes
      exact ⟨j, hij, Nat.le_of_pred_lt hcame⟩
  obtain ⟨j, hij, hle⟩ := hcome
  refine ⟨j, hij, ?_⟩
  rw [appliedTo_map_fst, acceptedFor_eq _ hw]
  refine List.IsPrefix.filter _ ?_
  refine List.prefix_of_prefix_length_le (acceptedTo_grows hij)
    ((hserved j).1.processed_in_order w).1 ?_
  rw [List.length_map]
  exact hle

end Fair

/-- Two commands are in the queue when the worker has its first turn. -/
theorem accepted_applied_buyerMeetsSeller :
    ∃ ex : Execution (System ℤ 1 3) (Event ℤ 1), ∃ j, ex.history 2 = (buyerMeetsSeller 0).take 2 ∧
      2 ≤ j ∧ [addCmd "SPY" .buy 100, addCmd "SPY" .sell 100] <+:
        (appliedTo 0 "SPY" (ex.history j)).map Prod.fst := by
  let x₀ : System ℤ 1 3 := start ["SPY"] (.new 1000) 10 (fun _ => 0)
  let rest : List (Event ℤ 1) := (buyerMeetsSeller 0).drop 2 ++ [.shutdownLoop, .shutdownLoop]
  have hr : ∃ x ∈ ((buyerMeetsSeller 0).take 2).foldlM next? x₀, ∃ x' ∈ rest.foldlM next? x,
      x'.Closed := by
    simp only [x₀, start, buildOrderRoutingSystem, addWorkerContext_eq]
    decide +kernel
  obtain ⟨x, hx, x', hx', hclosed⟩ := hr
  have hpath := path_of_foldlM (by simp [buyerMeetsSeller, ClientCommand, addCmd]) hx
  have hpath' := path_of_foldlM (by simp [rest, buyerMeetsSeller, ClientCommand]) hx'
  obtain ⟨ex', hof', hzero', hhist', hstate'⟩ := Execution.exists_of_path hpath'
  obtain ⟨ex, hof, hzero, hhist, hstate⟩ := hof'.append (by rw [hzero']; exact hpath)
  have hfair : ∀ w, ex.FairTo (Guarded ClientCommand Step) (OfThread (some w)) := by
    intro w
    apply Execution.FairTo.of_disabled (n := 2 + rest.length)
    rintro i ⟨e, y, -, -, hstep⟩
    have hlast : ex.state (2 + rest.length + i) = x' := by
      rw [Nat.add_assoc]
      exact (hstate _).trans (hstate' i)
    rw [hlast] at hstep
    exact hclosed.final e hstep
  have hroom : ∀ i, FIRST_ORDER_ID.toNat + (1000 : OrderId).toNat *
      (["SPY"].length + (accepted (ex.history i)).length) < 2 ^ 64 := by
    intro i
    have hpre := ex.history_grows (Nat.le_add_left i (2 + rest.length))
    have hall : ex.history (2 + rest.length + i) = (buyerMeetsSeller 0).take 2 ++ rest := by
      rw [Nat.add_assoc]
      exact (hhist _).trans (congrArg _ (hhist' i))
    rw [hall] at hpre
    have hle : (accepted (ex.history i)).length ≤ 2 := (List.IsPrefix.filterMap _ hpre).length_le
    have hfirst : FIRST_ORDER_ID.toNat = 1 := rfl
    have hsize : (1000 : OrderId).toNat = 1000 := rfl
    rw [hfirst, hsize, List.length_singleton]
    omega
  have htwo : ex.history 2 = (buyerMeetsSeller 0).take 2 := hhist 0
  obtain ⟨j, hj, happlied⟩ := accepted_applied (by decide) hzero hof hfair hroom 2
    (show (ex.state 0).router.find? "SPY" = some 0 by rw [hzero]; decide +kernel)
  rw [htwo] at happlied
  exact ⟨ex, j, htwo, hj, happlied⟩

end System
end Orderbook
