import Orderbook.Shutdown
import Orderbook.PriceTime

/-! # What the books end with

    A book of the running system is where the reference exchange is that
    receives the commands for its instrument.  When these are all `ADD`
    commands, the outcome is a function of the orders: the threads, the
    queues, the ids and the clocks have no part in it. -/

namespace Orderbook

/-- What the client asks for. -/
def Order.terms {P : Type} (order : Order P) : OrderSide × P × Quantity :=
  (order.side, order.price, order.quantity)

/-! ### The reference without ids -/

namespace Reference
variable {P : Type} {ref ref' : Reference P}

/-- The same orders, trades and queues, whatever the ids are. -/
structure Alike (ref ref' : Reference P) : Prop where
  ledger : ref.toLedger = ref'.toLedger
  arrivals : ref.arrivals = ref'.arrivals
  resting : ref.resting = ref'.resting

theorem Alike.refl (ref : Reference P) : Alike ref ref := ⟨rfl, rfl, rfl⟩

theorem Alike.symm (h : Alike ref ref') : Alike ref' ref :=
  ⟨h.ledger.symm, h.arrivals.symm, h.resting.symm⟩

theorem Alike.trans {ref'' : Reference P} (h : Alike ref ref') (h' : Alike ref' ref'') :
    Alike ref ref'' :=
  ⟨h.ledger.trans h'.ledger, h.arrivals.trans h'.arrivals, h.resting.trans h'.resting⟩

variable [LinearOrder P]

/-- Matching does not look at ids. -/
theorem Alike.settle (h : Alike ref ref') (i : ℕ) : Alike (ref.settle i) (ref'.settle i) := by
  obtain ⟨ledger, arrivals, lookup, resting⟩ := ref
  obtain ⟨ledger', arrivals', lookup', resting'⟩ := ref'
  obtain ⟨rfl, rfl, rfl⟩ := h
  unfold Reference.settle rest
  by_cases hlive : (Ledger.account (walk ⟨ledger, arrivals, lookup, resting⟩ i).toLedger i).Live
  · have hlive' : (Ledger.account (walk ⟨ledger, arrivals, lookup', resting⟩ i).toLedger i).Live :=
      hlive
    rw [if_pos hlive, if_pos hlive']
    exact ⟨rfl, rfl, rfl⟩
  · have hlive' :
        ¬ (Ledger.account (walk ⟨ledger, arrivals, lookup', resting⟩ i).toLedger i).Live :=
      hlive
    rw [if_neg hlive, if_neg hlive']
    exact ⟨rfl, rfl, rfl⟩

theorem Alike.add (h : Alike ref ref') (id id' : OrderId) (side : OrderSide) (price : P) (qty : ℕ) :
    Alike (ref.add id side price qty) (ref'.add id' side price qty) := by
  have haccept : Alike (ref.accept id side price qty) (ref'.accept id' side price qty) := by
    obtain ⟨ledger, arrivals, lookup, resting⟩ := ref
    obtain ⟨ledger', arrivals', lookup', resting'⟩ := ref'
    obtain ⟨rfl, rfl, rfl⟩ := h
    exact ⟨rfl, rfl, rfl⟩
  unfold Reference.add
  rw [h.arrivals]
  exact haccept.settle _

variable [Zero P]

/-- The exchange after these orders, none of which is asked for by its id. -/
def ofOrders (orders : List (Order P)) : Reference P :=
  orders.foldl (fun ref order => ref.add DEFAULT_ORDER_ID order.side order.price
    order.quantity.toNat) .empty

/-- Only the terms of the orders matter. -/
theorem ofOrders_congr {orders orders' : List (Order P)}
    (h : orders.map Order.terms = orders'.map Order.terms) :
    ofOrders orders = ofOrders orders' := by
  have hterms : ∀ orders : List (Order P), ofOrders orders = (orders.map Order.terms).foldl
      (fun ref t => ref.add DEFAULT_ORDER_ID t.1 t.2.1 t.2.2.toNat) .empty := by
    intro orders
    rw [List.foldl_map]
    rfl
  rw [hterms, hterms, h]

omit [Zero P] in
/-- A run of `add_order` calls, draws of ids aside. -/
theorem alike_of_adds {ref ref' : Reference P} {ls : List (Session.Label P)}
    (hr : Path Step ref ls ref') {t : Reference P} (ht : Alike ref t)
    {orders : List (Order P × Clock)}
    (hcalls : Session.calls ls = orders.map fun o => .addOrder o.1 o.2) :
    Alike ref' ((orders.map Prod.fst).foldl (fun ref order => ref.add DEFAULT_ORDER_ID order.side
      order.price order.quantity.toNat) t) := by
  induction hr generalizing t orders with
  | nil ref =>
    have hnil : orders = [] := List.map_eq_nil_iff.mp hcalls.symm
    rw [hnil]
    exact ht
  | @cons ref ref₁ ref' l ls hs _ ih =>
    obtain ⟨e, r⟩ := l
    cases e with
    | otherDraws =>
      have hsame : ref₁ = ref := by
        unfold Reference.Step at hs
        cases r with
        | silent => exact hs
        | orderId id => exact hs.elim
        | done b => exact hs.elim
      rw [hsame] at ih
      exact ih ht hcalls
    | cancelOrder id clock =>
      cases orders <;> cases hcalls
    | modifyOrder id price qty clock =>
      cases orders <;> cases hcalls
    | addOrder client clock =>
      cases orders with
      | nil => cases hcalls
      | cons o orders =>
        have hcons : Event.addOrder client clock :: Session.calls ls =
            .addOrder o.1 o.2 :: orders.map fun o => .addOrder o.1 o.2 := hcalls
        obtain ⟨hhead, htail⟩ := List.cons.inj hcons
        cases hhead
        unfold Reference.Step at hs
        cases r with
        | silent => exact hs.elim
        | done b => exact hs.elim
        | orderId id =>
          have hadd : ref₁ = ref.add id o.1.side o.1.price o.1.quantity.toNat := hs
          rw [hadd] at ih
          exact ih (ht.add _ _ _ _ _) htail

end Reference

namespace OrderBook
variable {P : Type} [LinearOrder P] [Zero P] {book book' : OrderBook P} {ref ref' : Reference P}

/-- The same orders in the same slots with the same fills and statuses, the
    same number of trades, and the same queues. -/
structure SameOutcome (book book' : OrderBook P) : Prop where
  arrivals : book.orderPool.nextFreeIndex = book'.orderPool.nextFreeIndex
  account : ∀ k, book.Accepted k → Account.ofOrder (book.slot k) = .ofOrder (book'.slot k)
  trades : book.tradesCompleted = book'.tradesCompleted
  queue : ∀ side, book.queue side = book'.queue side

omit [Zero P] in
theorem Reads.sameOutcome (h : book.Reads ref) (h' : book'.Reads ref') (hsame : ref.Alike ref') :
    SameOutcome book book' where
  arrivals := by rw [← h.arrivals, ← h'.arrivals, hsame.arrivals]
  account k hk := by
    have hk' : book'.Accepted k := by
      unfold Accepted at hk ⊢
      rwa [← h'.arrivals, ← hsame.arrivals, h.arrivals]
    rw [← h.account k hk, ← h'.account k hk', hsame.ledger]
  trades := by
    apply UInt64.toNat_inj.mp
    rw [h.trades, h'.trades, hsame.ledger]
  queue side := by rw [← h.resting, ← h'.resting, hsame.resting]

end OrderBook

namespace OrderCommand
variable {P : Type} [LinearOrder P] [Zero P]

/-- An `ADD` with a positive price and quantity. -/
def Limit (cmd : OrderCommand P) : Prop :=
  cmd.type = .add ∧ 0 < cmd.order.price ∧ 1 ≤ cmd.order.quantity

/-- A command whose effect on the exchange depends on nothing but the exchange:
    amendments may not be lowered, and are left out. -/
def Plain (cmd : OrderCommand P) : Prop := cmd.Limit ∨ cmd.type = .cancel

end OrderCommand

/-! ### One book -/

namespace Session
open OrderBook
variable {P : Type} [LinearOrder P] [Zero P] {s s' : Session P} {ls : List (Label P)}

omit [LinearOrder P] [Zero P] in
theorem mem_calls {l : Label P} (hl : l ∈ ls) (hne : l.1 ≠ .otherDraws) : l.1 ∈ calls ls := by
  refine List.mem_filterMap.mpr ⟨l, hl, ?_⟩
  split
  · next heq => exact absurd heq hne
  · rfl

/-- A run of plain commands is ordinary. -/
theorem ordinary_of_plain (hr : Path Step s ls s') {cmds : List (OrderCommand P × Clock)}
    (hcalls : calls ls = cmds.filterMap fun e => e.1.call e.2) (hplain : ∀ e ∈ cmds, e.1.Plain) :
    Path (Guarded Ordinary Step) s ls s' := by
  apply hr.mono_of_mem
  intro l hl s s' hs
  refine ⟨?_, hs⟩
  by_cases hdraws : l.1 = .otherDraws
  · unfold Ordinary
    rw [hdraws]
    trivial
  · have hmem := mem_calls hl hdraws
    rw [hcalls] at hmem
    obtain ⟨e, he, hcall⟩ := List.mem_filterMap.mp hmem
    unfold OrderCommand.call at hcall
    unfold Ordinary
    rcases hplain e he with ⟨hadd, hprice, hqty⟩ | hcancel
    · rw [hadd] at hcall
      rw [← Option.some.inj hcall]
      exact ⟨hprice, hqty⟩
    · rw [hcancel] at hcall
      rw [← Option.some.inj hcall]
      trivial

/-- An `add_order` call. -/
def IsAdd : Event P → Bool
  | .addOrder _ _ => true
  | _ => false

/-- The ids returned are as many as the orders added. -/
theorem length_addedIds (hr : Path Step s ls s') (h : s.book.Sound) :
    (addedIds ls).length = ((calls ls).filter IsAdd).length := by
  induction hr with
  | nil s => rfl
  | @cons s s₁ s' l ls hs _ ih =>
    have hcalls : calls (l :: ls) = calls [l] ++ calls ls := calls_append [l] ls
    rw [addedIds_cons, ih (hs.sound h), hcalls, List.filter_append, List.length_append]
    congr 1
    cases hs.outcome h with
    | added client clock id => rfl
    | cancelled id clock b => rfl
    | modified id price qty clock b => rfl
    | drew => rfl

omit [LinearOrder P] [Zero P] in
theorem length_adds (cmds : List (OrderCommand P × Clock)) :
    ((cmds.filterMap fun e => e.1.call e.2).filter IsAdd).length =
      (cmds.filter fun e => e.1.type = .add).length := by
  rw [← List.countP_eq_length_filter, List.countP_filterMap, ← List.countP_eq_length_filter]
  apply List.countP_congr
  intro e _
  unfold OrderCommand.call
  cases e.1.type <;> simp [IsAdd]

/-- **One book.**  In an ordinary run with distinct ids the reference makes the
    same calls and is refined at the end. -/
theorem Fresh.refines_path (hf : Fresh s) (hr : Path (Guarded Ordinary Step) s ls s')
    (hids : (addedIds ls).Nodup) :
    ∃ ref, Path Reference.Step .empty ls ref ∧ Refines s' ref := by
  have hfresh := hf.freshId_path hr.of_guarded hids
  obtain ⟨ref, hpath, h⟩ := (hr.guarded_and Step.deterministic hfresh).simulation (f := id)
    (R := Refines) (fun s l s' ref h hs => h.step hs.1.1 hs.1.2 hs.2) hf.refines
  rw [List.map_id] at hpath
  exact ⟨ref, hpath, h⟩

theorem Fresh.reads (hf : Fresh s) (hr : Path (Guarded Ordinary Step) s ls s')
    (hids : (addedIds ls).Nodup) :
    ∃ ref, Path Reference.Step .empty ls ref ∧ Refines s' ref ∧ s'.book.Reads ref := by
  obtain ⟨ref, hpath, h⟩ := hf.refines_path hr hids
  refine ⟨ref, hpath, h, h.agrees.arrivals, h.agrees.account, h.agrees.lookup, ?_, h.resting⟩
  -- A trade finishes an order, and the ids bound the orders.
  have hlt : ref.trades < 2 ^ 64 := by
    have harrivals : ref.arrivals = 0 + (addedIds ls).length := reference_arrivals hpath
    have hle := length_le_of_nodup hids
    have htrades := h.wf.trades_lt
    omega
  rw [h.agrees.trades]
  exact UInt64.toNat_ofNat_of_lt hlt

end Session

/-! ### Executing the system

    The blank orders of a pool are written one after the other.  Runs are
    executed from books whose storage is given in closed form. -/

section Opened
variable {P : Type} [LinearOrder P] [Zero P] {numWorkers bound : ℕ}

/-- `OrderBook.new` with the storage of its pool written out.  This form and
    the two that are built on it can be computed; they serve to run the
    examples and nothing else. -/
def OrderBook.opened (instrument : Instrument) (alloc : IdAllocator) (clock : Clock) :
    OrderBook P × IdAllocator :=
  let (block, alloc) := alloc.getNextIdBlock
  ({ instrument           := instrument
     levels               := fun _ => .empty
     orderRegistry        := .empty
     orderPool            := ⟨0, ⟨1, SPACE_RESERVE, SPACE_RESERVE, fun i =>
       if i < SPACE_RESERVE then Order.blank (clock i) else Order.blank 0, Nat.le_refl _⟩⟩
     orderIdBlock         := block
     nextAvailableOrderId := block.start
     tradesCompleted      := 0
     tryMatchFlag         := false }, alloc)

/-- `buildOrderbooks` in the form that the examples run. -/
def openBooks (instruments : List Instrument) (alloc : IdAllocator) (clock : Clock) :
    List (OrderBook P) × IdAllocator × Clock :=
  match instruments with
  | [] => ([], alloc, clock)
  | instrument :: instruments =>
    let (book, alloc) := OrderBook.opened instrument alloc clock
    let (books, alloc, clock) := openBooks instruments alloc (clock.skip SPACE_RESERVE)
    (book :: books, alloc, clock)

theorem buildOrderbooks_eq (instruments : List Instrument) (alloc : IdAllocator) (clock : Clock) :
    (buildOrderbooks instruments alloc clock : List (OrderBook P) × IdAllocator × Clock) =
      openBooks instruments alloc clock := by
  induction instruments generalizing alloc clock with
  | nil => rfl
  | cons instrument instruments ih =>
    have hnew : (OrderBook.new instrument alloc clock : OrderBook P × IdAllocator) =
        OrderBook.opened instrument alloc clock := by
      simp only [OrderBook.new, OrderPool.new_eq, OrderBook.opened]
      rfl
    simp only [buildOrderbooks, openBooks, hnew, ih]

/-- `addWorkerContext` in the form that the examples run. -/
def addOpened (sets : Fin numWorkers → List Instrument) (reserveSpace : ℕ)
    (acc : (Fin numWorkers → WorkerContext P bound) × IdAllocator × Clock)
    (w : Fin numWorkers) : (Fin numWorkers → WorkerContext P bound) × IdAllocator × Clock :=
  let (books, alloc, clock) := openBooks (sets w) acc.2.1 acc.2.2
  (Function.update acc.1 w
    { orderbooks := books, queue := .empty, reserveSpacePerInstrument := reserveSpace },
    alloc, clock)

theorem addWorkerContext_eq (sets : Fin numWorkers → List Instrument) (reserveSpace : ℕ) :
    (addWorkerContext sets reserveSpace :
      (Fin numWorkers → WorkerContext P bound) × IdAllocator × Clock → _) =
      addOpened sets reserveSpace := by
  funext acc w
  simp only [addWorkerContext, addOpened, buildOrderbooks_eq]

end Opened

/-! ### The running system -/

namespace System
open OrderBook
variable {P : Type} [LinearOrder P] [Zero P] {numWorkers bound : ℕ}
  {x₀ x : System P numWorkers bound} {es : List (Event P numWorkers)}

/-- The run that leads to a book has distinct ids, since the registry has an
    entry of its own for each `ADD`. -/
theorem Served.addedIds_nodup (h : Served es x) {k : Fin numWorkers × Instrument}
    {book : OrderBook P} (hbook : x.bookAt k = some book) {s₀ : Session P}
    {ls : List (Session.Label P)} (hf : Session.Fresh s₀)
    (hr : Path Session.Step s₀ ls ⟨book, x.alloc⟩)
    (hcalls : Session.calls ls = (appliedTo k.1 k.2 es).filterMap fun e => e.1.call e.2) :
    (Session.addedIds ls).Nodup := by
  obtain ⟨ids, hnodup, hlength, hreg⟩ := h.every_add k book hbook
  have hsub : ids ⊆ Session.addedIds ls := by
    intro id hid
    exact (hf.registered_iff hr id).mp ((hreg id).mpr hid)
  have hcount : (Session.addedIds ls).length = ids.length := by
    rw [hlength, Session.length_addedIds hr hf.sound, hcalls, Session.length_adds, addsTo]
  have hperm := (List.subperm_of_subset hnodup hsub).perm_of_length_le (Nat.le_of_eq hcount)
  exact hperm.nodup_iff.mp hnodup

section Run
variable [NeZero numWorkers] {instruments : List Instrument} {blockSize : OrderId}
  {totalReserveSpace : ℕ} {clock : Clock}

omit [NeZero numWorkers] [Zero P] in
/-- What a command applied to a book was accepted as. -/
theorem Queues.applied_of_accepted {router : InstrumentMap (Fin numWorkers)}
    (h : Queues router es x) {Q : OrderCommand P → Prop} {instrument : Instrument}
    (hacc : ∀ cmd ∈ acceptedFor instrument es, Q cmd) {w : Fin numWorkers} :
    ∀ e ∈ appliedTo w instrument es, Q e.1 := by
  intro e he
  obtain ⟨hproc, hinstr⟩ := List.mem_filter.mp he
  have hmem := (h.processed_in_order w).1.subset (List.mem_map_of_mem hproc)
  obtain ⟨hacc', -⟩ := List.mem_filter.mp hmem
  exact hacc e.1 (List.mem_filter.mpr ⟨hacc', hinstr⟩)

/-- The book of an instrument at any moment. -/
theorem refines_of_path (hsize : 1 ≤ blockSize)
    (hx₀ : x₀ = start instruments (.new blockSize) totalReserveSpace clock)
    (hr : Path (Guarded ClientCommand Step) x₀ es x)
    (hroom : FIRST_ORDER_ID.toNat +
      blockSize.toNat * (instruments.length + (accepted es).length) < 2 ^ 64)
    {instrument : Instrument} (hplain : ∀ cmd ∈ acceptedFor instrument es, cmd.Plain)
    {w : Fin numWorkers} (hw : x₀.router.find? instrument = some w) :
    ∃ book ls ref, x.bookAt (w, instrument) = some book ∧
      Session.calls ls = (appliedTo w instrument es).filterMap (fun e => e.1.call e.2) ∧
      Path Reference.Step .empty ls ref ∧ Session.Refines ⟨book, x.alloc⟩ ref ∧
      book.Reads ref := by
  obtain ⟨hq, hb, s, hfirst, hsup⟩ := supplied_of_path hsize hx₀ hr hroom
  obtain ⟨book, hbook⟩ := Option.ne_none_iff_exists'.mp (hb.kept instrument w hw)
  obtain ⟨s₀, ls, hfresh, -, hpath, hcalls⟩ := hb.runs w instrument book hbook
  have hnodup := (hsup.served hfirst hq hb).addedIds_nodup (k := (w, instrument)) hbook hfresh hpath
    hcalls
  obtain ⟨ref, href, hrefines, hreads⟩ := hfresh.reads
    (Session.ordinary_of_plain hpath hcalls (hq.applied_of_accepted hplain)) hnodup
  exact ⟨book, ls, ref, hbook, hcalls, href, hrefines, hreads⟩

/-- **Every book refines the reference exchange.**  While the commands that
    `submit` accepts for an instrument are `ADD`s with positive prices and
    quantities and `CANCEL`s, its book reads at every moment as the reference
    to which the commands applied so far have been given, and no others. -/
theorem reads_of_path (hsize : 1 ≤ blockSize)
    (hx₀ : x₀ = start instruments (.new blockSize) totalReserveSpace clock)
    (hr : Path (Guarded ClientCommand Step) x₀ es x)
    (hroom : FIRST_ORDER_ID.toNat +
      blockSize.toNat * (instruments.length + (accepted es).length) < 2 ^ 64)
    {instrument : Instrument} (hplain : ∀ cmd ∈ acceptedFor instrument es, cmd.Plain)
    {w : Fin numWorkers} (hw : x₀.router.find? instrument = some w) :
    ∃ book ls ref, x.bookAt (w, instrument) = some book ∧
      Session.calls ls = (appliedTo w instrument es).filterMap (fun e => e.1.call e.2) ∧
      Path Reference.Step .empty ls ref ∧ book.Reads ref := by
  obtain ⟨book, ls, ref, hbook, hcalls, href, -, hreads⟩ :=
    refines_of_path hsize hx₀ hr hroom hplain hw
  exact ⟨book, ls, ref, hbook, hcalls, href, hreads⟩

end Run

/-- A buyer is in the book and cancels by the id that the book has given him,
    while a seller is still in the queue. -/
def buyerCancels (w : Fin numWorkers) : List (Event ℤ numWorkers) :=
  [.submit (addCmd "SPY" .buy 100) true, .pop w (some (addCmd "SPY" .buy 100)),
    .process w (addCmd "SPY" .buy 100) (fun _ => 0) true,
    .submit ⟨.cancel, { (addCmd "SPY" .buy 100).order with id := 1 }⟩ true,
    .submit (addCmd "SPY" .sell 100) true,
    .pop w (some ⟨.cancel, { (addCmd "SPY" .buy 100).order with id := 1 }⟩),
    .process w ⟨.cancel, { (addCmd "SPY" .buy 100).order with id := 1 }⟩ (fun _ => 5) true]

theorem reads_of_path_buyerCancels : ∃ (x : System ℤ 1 3) (book : OrderBook ℤ)
    (ls : List (Session.Label ℤ)) (ref : Reference ℤ),
    Path (Guarded ClientCommand Step) (start ["SPY"] (.new 1000) 10 (fun _ => 0))
      (buyerCancels 0) x ∧
    x.bookAt (0, "SPY") = some book ∧ (Session.calls ls).length = 2 ∧
    Path Reference.Step .empty ls ref ∧ book.Reads ref := by
  have hr : ∃ x, x ∈ (buyerCancels 0).foldlM next?
      (start ["SPY"] (.new 1000) 10 (fun _ => 0) : System ℤ 1 3) := by
    simp only [start, buildOrderRoutingSystem, addWorkerContext_eq]
    exact Option.isSome_iff_exists.mp (by decide +kernel)
  obtain ⟨x, hx⟩ := hr
  have hpath := path_of_foldlM (by simp [buyerCancels, ClientCommand, addCmd]) hx
  obtain ⟨book, ls, ref, hbook, hcalls, href, hreads⟩ :=
    reads_of_path (by decide) rfl hpath (by decide)
      (by
        intro cmd hcmd
        have hmem : cmd ∈ [addCmd "SPY" .buy 100,
          ⟨.cancel, { (addCmd "SPY" .buy 100).order with id := 1 }⟩, addCmd "SPY" .sell 100] := hcmd
        simp only [List.mem_cons, List.not_mem_nil, or_false] at hmem
        rcases hmem with rfl | rfl | rfl
        · exact Or.inl ⟨rfl, by decide, by decide⟩
        · exact Or.inr rfl
        · exact Or.inl ⟨rfl, by decide, by decide⟩)
      (show (start ["SPY"] (.new 1000) 10 (fun _ => 0) :
          System ℤ 1 3).router.find? "SPY" = some 0 by
        decide +kernel)
  exact ⟨x, book, ls, ref, hpath, hbook, congrArg List.length hcalls, href, hreads⟩

section Run
variable [NeZero numWorkers] {instruments : List Instrument} {blockSize : OrderId}
  {totalReserveSpace : ℕ} {clock : Clock}

/-- With `ADD` commands only, the book holds the outcome of the orders. -/
theorem reads_ofOrders (hsize : 1 ≤ blockSize)
    (hx₀ : x₀ = start instruments (.new blockSize) totalReserveSpace clock)
    (hr : Path (Guarded ClientCommand Step) x₀ es x)
    (hroom : FIRST_ORDER_ID.toNat +
      blockSize.toNat * (instruments.length + (accepted es).length) < 2 ^ 64)
    {instrument : Instrument} (hlimit : ∀ cmd ∈ acceptedFor instrument es, cmd.Limit)
    {w : Fin numWorkers} (hw : x₀.router.find? instrument = some w)
    (hstopped : x.workerStates w = .stopped) :
    ∃ book ref, x.bookAt (w, instrument) = some book ∧ Session.Refines ⟨book, x.alloc⟩ ref ∧
      book.Reads ref ∧ ref.Alike (.ofOrders ((acceptedFor instrument es).map (·.order))) := by
  obtain ⟨hq, -⟩ := supplied_of_path hsize hx₀ hr hroom
  have happlied := hq.applied_of_accepted (w := w) hlimit
  obtain ⟨book, ls, ref, hbook, hcalls, href, hrefines, hreads⟩ :=
    refines_of_path hsize hx₀ hr hroom (fun cmd hcmd => Or.inl (hlimit cmd hcmd)) hw
  refine ⟨book, ref, hbook, hrefines, hreads, ?_⟩
  -- The worker has applied all the commands, and they are `add_order` calls.
  have hall : (appliedTo w instrument es).map Prod.fst = acceptedFor instrument es := by
    rw [appliedTo_map_fst, acceptedFor_eq es hw, (hq.processed_in_order w).2 hstopped]
  have hadds : Session.calls ls =
      ((appliedTo w instrument es).map fun e => (e.1.order, e.2)).map fun o =>
        .addOrder o.1 o.2 := by
    rw [hcalls, List.map_map, ← List.filterMap_eq_map]
    apply List.filterMap_congr
    intro e he
    unfold OrderCommand.call
    rw [(happlied e he).1]
    rfl
  have halike := Reference.alike_of_adds href (.refl _) hadds
  rw [← hall, List.map_map]
  rw [List.map_map] at halike
  exact halike

end Run

/-- **The schedule does not matter.**  Two systems, with whatever workers,
    queues, id blocks and clocks, run in whatever order of steps: where the
    same limit orders have been accepted for an instrument and its workers
    have stopped, the two books hold the same outcome. -/
theorem same_outcome {numWorkers' bound' : ℕ} [NeZero numWorkers] [NeZero numWorkers']
    {instruments instruments' : List Instrument} {blockSize blockSize' : OrderId}
    {totalReserveSpace totalReserveSpace' : ℕ} {clock clock' : Clock}
    {x₀' x' : System P numWorkers' bound'} {es' : List (Event P numWorkers')}
    (hsize : 1 ≤ blockSize) (hsize' : 1 ≤ blockSize')
    (hx₀ : x₀ = start instruments (.new blockSize) totalReserveSpace clock)
    (hx₀' : x₀' = start instruments' (.new blockSize') totalReserveSpace' clock')
    (hr : Path (Guarded ClientCommand Step) x₀ es x)
    (hr' : Path (Guarded ClientCommand Step) x₀' es' x')
    (hroom : FIRST_ORDER_ID.toNat +
      blockSize.toNat * (instruments.length + (accepted es).length) < 2 ^ 64)
    (hroom' : FIRST_ORDER_ID.toNat +
      blockSize'.toNat * (instruments'.length + (accepted es').length) < 2 ^ 64)
    {instrument : Instrument} {w : Fin numWorkers} {w' : Fin numWorkers'}
    (hw : x₀.router.find? instrument = some w) (hw' : x₀'.router.find? instrument = some w')
    (hstopped : x.workerStates w = .stopped) (hstopped' : x'.workerStates w' = .stopped)
    (hlimit : ∀ cmd ∈ acceptedFor instrument es, cmd.Limit)
    (hlimit' : ∀ cmd ∈ acceptedFor instrument es', cmd.Limit)
    (hsame : (acceptedFor instrument es).map (·.order.terms) =
      (acceptedFor instrument es').map (·.order.terms)) :
    ∃ book book', x.bookAt (w, instrument) = some book ∧ x'.bookAt (w', instrument) = some book' ∧
      book.SameOutcome book' := by
  obtain ⟨book, ref, hbook, -, hreads, halike⟩ :=
    reads_ofOrders hsize hx₀ hr hroom hlimit hw hstopped
  obtain ⟨book', ref', hbook', -, hreads', halike'⟩ :=
    reads_ofOrders hsize' hx₀' hr' hroom' hlimit' hw' hstopped'
  refine ⟨book, book', hbook, hbook', hreads.sameOutcome hreads' ?_⟩
  have horders : Reference.ofOrders ((acceptedFor instrument es).map (·.order)) =
      .ofOrders ((acceptedFor instrument es').map (·.order)) := by
    apply Reference.ofOrders_congr
    rw [List.map_map, List.map_map]
    exact hsame
  rw [horders] at halike
  exact halike.trans halike'.symm

/-- A buyer and a seller meet; the queue has room for all commands. -/
def buyerMeetsSeller (w : Fin numWorkers) : List (Event ℤ numWorkers) :=
  [.submit (addCmd "SPY" .buy 100) true, .submit (addCmd "SPY" .sell 100) true, .shutdownLoop,
    .shutdownLoop, .pushShutdown w (shutdownCmd 0) true, .pop w (some (addCmd "SPY" .buy 100)),
    .process w (addCmd "SPY" .buy 100) (fun _ => 0) true,
    .pop w (some (addCmd "SPY" .sell 100)),
    .process w (addCmd "SPY" .sell 100) (fun _ => 0) true, .pop w (some (shutdownCmd 0))]

/-- The same two orders, submitted through a queue of one place. -/
def sellerWaits (v w : Fin numWorkers) : List (Event ℤ numWorkers) :=
  [.submit (addCmd "SPY" .buy 100) true, .submit (addCmd "SPY" .sell 100) false,
    .pop w (some (addCmd "SPY" .buy 100)), .submit (addCmd "SPY" .sell 100) true,
    .process w (addCmd "SPY" .buy 100) (fun i => 7 + i) true,
    .pop w (some (addCmd "SPY" .sell 100)), .shutdownLoop, .shutdownLoop,
    .pushShutdown v (shutdownCmd 0) true, .pushShutdown w (shutdownCmd 0) true,
    .process w (addCmd "SPY" .sell 100) (fun i => 9 + i) true, .pop w (some (shutdownCmd 0))]

theorem same_outcome_twoSystems :
    ∃ (x : System ℤ 1 3) (x' : System ℤ 2 1) (book book' : OrderBook ℤ),
    Path (Guarded ClientCommand Step) (start ["SPY"] (.new 1000) 10 (fun _ => 0))
      (buyerMeetsSeller 0) x ∧
    Path (Guarded ClientCommand Step) (start ["QQQ", "SPY"] (.new 1) 20 (fun i => i))
      (sellerWaits 0 1) x' ∧
    x.bookAt (0, "SPY") = some book ∧ x'.bookAt (1, "SPY") = some book' ∧
    book.SameOutcome book' := by
  have hr : ∃ x ∈ (buyerMeetsSeller 0).foldlM next?
      (start ["SPY"] (.new 1000) 10 (fun _ => 0) : System ℤ 1 3), x.workerStates 0 = .stopped := by
    simp only [start, buildOrderRoutingSystem, addWorkerContext_eq]
    decide +kernel
  have hr' : ∃ x ∈ (sellerWaits 0 1).foldlM next?
      (start ["QQQ", "SPY"] (.new 1) 20 (fun i => i) : System ℤ 2 1),
      x.workerStates 1 = .stopped := by
    simp only [start, buildOrderRoutingSystem, addWorkerContext_eq]
    decide +kernel
  obtain ⟨x, hx, hstopped⟩ := hr
  obtain ⟨x', hx', hstopped'⟩ := hr'
  have hpath := path_of_foldlM (by simp [buyerMeetsSeller, ClientCommand, addCmd]) hx
  have hpath' := path_of_foldlM (by simp [sellerWaits, ClientCommand, addCmd]) hx'
  have hlimit : ∀ side, (addCmd "SPY" side 100).Limit := fun side =>
    ⟨rfl, (by decide : (0 : ℤ) < 100), (by decide : (1 : Quantity) ≤ 10)⟩
  obtain ⟨book, book', hbook, hbook', hsame⟩ :=
    same_outcome (by decide) (by decide) rfl rfl hpath hpath' (by decide) (by decide)
      (show (start ["SPY"] (.new 1000) 10 (fun _ => 0) :
          System ℤ 1 3).router.find? "SPY" = some 0 by
        decide +kernel)
      (show (start ["QQQ", "SPY"] (.new 1) 20 (fun i => i) : System ℤ 2 1).router.find? "SPY" =
        some 1 by decide +kernel)
      hstopped hstopped'
      (by
        intro cmd hcmd
        have hmem : cmd ∈ [addCmd "SPY" .buy 100, addCmd "SPY" .sell 100] := hcmd
        simp only [List.mem_cons, List.not_mem_nil, or_false] at hmem
        rcases hmem with rfl | rfl <;> exact hlimit _)
      (by
        intro cmd hcmd
        have hmem : cmd ∈ [addCmd "SPY" .buy 100, addCmd "SPY" .sell 100] := hcmd
        simp only [List.mem_cons, List.not_mem_nil, or_false] at hmem
        rcases hmem with rfl | rfl <;> exact hlimit _)
      rfl
  exact ⟨x, x', book, book', hpath, hpath', hbook, hbook', hsame⟩

end System
end Orderbook
