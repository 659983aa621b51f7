import Orderbook.Outcomes
import Orderbook.Atomicity
import Orderbook.Lib.Table

/-! # The final report

    `worker.h`: when a worker leaves its polling loop it prints a line for
    each of its books, with the trades done and the orders still in the
    book.  For limit orders these numbers are a function of the orders that
    were accepted, and of nothing else. -/

namespace Orderbook

section Report
variable {P : Type} [LinearOrder P]

/-- One line of the report. -/
def reportLine (instrument : Instrument) (trades bidOrders askOrders : ℕ) : Text :=
  "Instrument: ".toList ++ instrument.toList ++ ", trades done: ".toList ++ Table.ofNat trades ++
    ", total orders in ob: (".toList ++ Table.ofNat bidOrders ++ ", ".toList ++
    Table.ofNat askOrders ++ ")\n".toList

/-- What `run` prints after its loop.  The order of the books, which the
    source leaves open, is that of the instruments. -/
def Worker.report (worker : Worker P) : Text :=
  worker.books.entries.flatMap fun e =>
    reportLine e.1 e.2.tradesCompleted.toNat (e.2.getTotalOrders .buy) (e.2.getTotalOrders .sell)

/-- The book of an instrument has its line. -/
theorem Worker.report_of_find? {worker : Worker P} {instrument : Instrument} {book : OrderBook P}
    (h : worker.books.find? instrument = some book) :
    reportLine instrument book.tradesCompleted.toNat (book.getTotalOrders .buy)
      (book.getTotalOrders .sell) <:+: worker.report := by
  obtain ⟨before, after, hsplit⟩ := List.append_of_mem (SortedMap.mem_entries_iff.mpr h)
  rw [report, hsplit, List.flatMap_append, List.flatMap_cons]
  exact ⟨_, _, List.append_assoc _ _ _⟩

namespace Reference

/-- Every order arrives. -/
theorem foldl_add_arrivals (orders : List (Order P)) (ref : Reference P) :
    (orders.foldl (fun ref order => ref.add DEFAULT_ORDER_ID order.side order.price
      order.quantity.toNat) ref).arrivals = ref.arrivals + orders.length := by
  induction orders generalizing ref with
  | nil => rfl
  | cons order orders ih =>
    rw [List.foldl_cons, ih, add_arrivals, List.length_cons]
    omega

end Reference

variable [Zero P]

/-- The totals of a book that refines the reference are the lengths of its queues. -/
theorem Session.Refines.getTotalOrders {s : Session P} {ref : Reference P} (h : s.Refines ref)
    (side : OrderSide) : s.book.getTotalOrders side = (ref.resting side).length := by
  have hmem : ∀ i, i ∈ s.book.liveSlots side ↔ i ∈ ref.resting side := by
    intro i
    rw [h.resting, h.tidy.mem_queue_iff h.sound]
    simp [OrderBook.liveSlots, OrderBook.Accepted]
  have hperm : (s.book.liveSlots side).Perm (ref.resting side) :=
    (List.perm_ext_iff_of_nodup (List.nodup_range.filter _) (h.wf.sorted side).nodup).mpr hmem
  rw [h.tidy.linked.total h.sound, hperm.length_eq]

end Report

namespace System
open OrderBook
variable {P : Type} [LinearOrder P] [Zero P] {numWorkers bound : ℕ} [NeZero numWorkers]
  {x₀ x : System P numWorkers bound} {es : List (Event P numWorkers)}
  {instruments : List Instrument} {blockSize : OrderId} {totalReserveSpace : ℕ} {clock : Clock}

/-- The report of a worker that has stopped, in the system whose queues are channels. -/
theorem reports_ofOrders (hsize : 1 ≤ blockSize)
    (hx₀ : x₀ = start instruments (.new blockSize) totalReserveSpace clock)
    (hr : Path (Guarded ClientCommand Step) x₀ es x)
    (hroom : FIRST_ORDER_ID.toNat +
      blockSize.toNat * (instruments.length + (accepted es).length) < 2 ^ 64)
    {instrument : Instrument} (hlimit : ∀ cmd ∈ acceptedFor instrument es, cmd.Limit)
    {w : Fin numWorkers} (hw : x₀.router.find? instrument = some w)
    (hstopped : x.workerStates w = .stopped) :
    let ref := Reference.ofOrders ((acceptedFor instrument es).map (·.order))
    reportLine instrument ref.trades (ref.resting .buy).length (ref.resting .sell).length <:+:
        (x.workers w).report ∧
      ref.trades + (ref.resting .buy).length + (ref.resting .sell).length ≤
        (acceptedFor instrument es).length := by
  obtain ⟨book, ref, hbook, hrefines, hreads, halike⟩ :=
    reads_ofOrders hsize hx₀ hr hroom hlimit hw hstopped
  have htrades : ref.trades = _ := congrArg Ledger.trades halike.ledger
  have harrivals : ref.arrivals = (acceptedFor instrument es).length := by
    rw [halike.arrivals, Reference.ofOrders, Reference.foldl_add_arrivals, List.length_map]
    exact Nat.zero_add _
  have hcount := hrefines.wf.count
  have hline : _ <:+: (x.workers w).report := Worker.report_of_find? hbook
  rw [hreads.trades, hrefines.getTotalOrders .buy, hrefines.getTotalOrders .sell] at hline
  rw [htrades, halike.resting] at hline hcount
  rw [harrivals] at hcount
  exact ⟨hline, hcount⟩

end System

namespace Threads
variable {P : Type} [LinearOrder P] [Zero P] {numWorkers : ℕ} [NeZero numWorkers]
  {moved : OrderCommand P → OrderCommand P → OrderCommand P} {capacity : ℕ}
  {es : List (Event P numWorkers)} {t₀ t : Threads P numWorkers}
  {instruments : List Instrument} {blockSize : OrderId} {totalReserveSpace : ℕ} {clock : Clock}
  {blank : OrderCommand P}

/-- The commands for one instrument for which `submit` has returned `true`. -/
def acceptedFor (instrument : Instrument) (es : List (Event P numWorkers)) :
    List (OrderCommand P) :=
  (accepted es).filter fun cmd => cmd.order.instrument = instrument

omit [NeZero numWorkers] [Zero P] in
theorem Linearizes.acceptedFor_eq {cs : List (System.Event P numWorkers)}
    {x : System P numWorkers (capacity - 1)} (h : Linearizes es t cs x) (instrument : Instrument) :
    System.acceptedFor instrument cs = acceptedFor instrument es := by
  rw [System.acceptedFor, h.accepted_eq, acceptedFor]

/-- **The final report.**  Where limit orders were accepted for an instrument
    and its worker has stopped, the worker's report has the line that the
    reference exchange gives for these orders, however the accesses of the
    threads were interleaved.  Trades and orders left are no more than orders
    accepted. -/
theorem final_report (hsize : 1 ≤ blockSize) (hcap : 1 ≤ capacity)
    (ht₀ : t₀ = start instruments (.new blockSize) capacity totalReserveSpace clock blank)
    (hr : Path (Guarded ClientCommand (Step moved)) t₀ es t)
    (hroom : FIRST_ORDER_ID.toNat +
      blockSize.toNat * (instruments.length + (accepted es).length) < 2 ^ 64)
    {instrument : Instrument} (hlimit : ∀ cmd ∈ acceptedFor instrument es, cmd.Limit)
    {w : Fin numWorkers} (hw : t₀.router.find? instrument = some w)
    (hstopped : t.workerStates w = .stopped) :
    let ref := Reference.ofOrders ((acceptedFor instrument es).map (·.order))
    reportLine instrument ref.trades (ref.resting .buy).length (ref.resting .sell).length <:+:
        (t.workers w).report ∧
      ref.trades + (ref.resting .buy).length + (ref.resting .sell).length ≤
        (acceptedFor instrument es).length := by
  obtain ⟨-, cs, x, hpath, hlin⟩ := linearizes_of_path hcap ht₀ hr
  have hfor := hlin.acceptedFor_eq instrument
  rw [ht₀] at hw
  rw [← hlin.accepted_eq] at hroom
  rw [← hlin.states_eq] at hstopped
  rw [← hfor] at hlimit
  rw [← hfor, ← hlin.workers_eq]
  exact System.reports_ofOrders hsize rfl hpath hroom hlimit hw hstopped

/-- A buyer and a seller have met, and the report says so. -/
theorem final_report_buyerMeetsSeller : ∃ es, ∃ t : Threads ℤ 1,
    Path (Guarded ClientCommand (Step fun source _ => source))
      (start ["SPY"] (.new 1000) 4 10 (fun _ => 0) (System.shutdownCmd 0)) es t ∧
    acceptedFor "SPY" es = [System.addCmd "SPY" .buy 100, System.addCmd "SPY" .sell 100] ∧
    reportLine "SPY" 1 0 0 <:+: (t.workers 0).report := by
  have hr : ∃ x ∈ (System.buyerMeetsSeller 0).foldlM System.next?
      (.start ["SPY"] (.new 1000) 10 (fun _ => 0) : System ℤ 1 (4 - 1)),
      x.workerStates 0 = .stopped := by
    simp only [System.start, buildOrderRoutingSystem, addWorkerContext_eq]
    decide +kernel
  obtain ⟨x, hx, hstopped⟩ := hr
  have hrun := System.path_of_foldlM
    (by simp [System.buyerMeetsSeller, System.ClientCommand, System.addCmd]) hx
  obtain ⟨es, t, hpath, hlin, -⟩ := realized (by decide) ["SPY"] (.new 1000) 10 (fun _ => 0)
    (System.shutdownCmd 0) hrun
  have haccepted : accepted es = [System.addCmd "SPY" .buy 100, System.addCmd "SPY" .sell 100] := by
    rw [← hlin.accepted_eq]
    decide
  have hfor : acceptedFor "SPY" es =
      [System.addCmd "SPY" .buy 100, System.addCmd "SPY" .sell 100] := by
    rw [acceptedFor, haccepted]
    decide
  have hlimit : ∀ cmd ∈ acceptedFor "SPY" es, cmd.Limit := by
    rw [hfor]
    intro cmd hcmd
    simp only [List.mem_cons, List.not_mem_nil, or_false] at hcmd
    rcases hcmd with rfl | rfl <;> exact ⟨rfl, by decide, by decide⟩
  rw [hlin.states_eq] at hstopped
  obtain ⟨hline, -⟩ := final_report (by decide) (by decide) rfl hpath (by rw [haccepted]; decide)
    hlimit (by decide +kernel) hstopped
  rw [hfor] at hline
  exact ⟨es, t, hpath, hfor, hline⟩

end Threads
end Orderbook
