import Orderbook.OpeningBlocks
import Orderbook.Delivery
import Orderbook.Placement

/-! # Ids in the running system

    The running system refines a supply of ids whose holders are the books of
    the workers.  Until the counter of the allocator wraps, the ids of all the
    books are distinct, so every book stays consistent and every command that
    a worker pops can be processed. -/

namespace Orderbook
variable {P : Type} [LinearOrder P]

/-! ### One draw -/

/-- `get_order_id` of the book of `k` is a step or two of the supply. -/
theorem getOrderId_supply {H : Type} (s : Supply H) (k : H) {book : OrderBook P}
    {alloc : IdAllocator} (hheld : ∀ n, n ∈ s.held k ↔ book.Holds n)
    (hle : book.nextAvailableOrderId ≤ book.orderIdBlock.stop)
    (hnext : s.next = alloc.globalCounter.toNat) (hsize : 1 ≤ alloc.blockSize)
    (hroom : alloc.globalCounter.toNat + alloc.blockSize.toNat < 2 ^ 64) :
    ∃ s' : Supply H, s'.first = s.first ∧
      s'.next = (book.getOrderId alloc).2.2.globalCounter.toNat ∧
      (∀ k', k' ≠ k → ∀ n, n ∈ s'.held k' ↔ n ∈ s.held k') ∧
      (∀ n, n ∈ s'.held k ↔ (book.getOrderId alloc).2.1.Holds n) ∧
      (book.getOrderId alloc).2.1.nextAvailableOrderId ≤
        (book.getOrderId alloc).2.1.orderIdBlock.stop ∧
      s'.issued = s.issued ++ [(k, (book.getOrderId alloc).1.toNat)] := by
  -- The first of what is held from `id` up to `stop` is issued.
  have hissue : ∀ (s₁ : Supply H) (id stop : OrderId), id < stop →
      (∀ n, n ∈ s₁.held k ↔ id.toNat ≤ n ∧ n < stop.toNat) →
      ∃ s' : Supply H, s'.first = s₁.first ∧ s'.next = s₁.next ∧
        (∀ k', k' ≠ k → ∀ n, n ∈ s'.held k' ↔ n ∈ s₁.held k') ∧
        (∀ n, n ∈ s'.held k ↔ (id + 1).toNat ≤ n ∧ n < stop.toNat) ∧
        s'.issued = s₁.issued ++ [(k, id.toNat)] := by
    intro s₁ id stop hlt hheld₁
    rw [UInt64.lt_iff_toNat_lt] at hlt
    have hmem : id.toNat ∈ s₁.held k := (hheld₁ _).mpr ⟨Nat.le_refl _, hlt⟩
    refine ⟨s₁.issue k id.toNat hmem fun n hn => ((hheld₁ n).mp hn).1, rfl, rfl, ?_, ?_, rfl⟩
    · intro k' hne n
      show n ∈ s₁.held k' ∧ n ≠ id.toNat ↔ _
      refine and_iff_left_of_imp ?_
      intro hn heq
      exact hne (s₁.disjoint k' k n hn (by rw [heq]; exact hmem))
    · intro n
      show n ∈ s₁.held k ∧ n ≠ id.toNat ↔ _
      rw [hheld₁, Exchange.succ_toNat (UInt64.lt_iff_toNat_lt.mpr hlt)]
      omega
  by_cases hend : book.nextAvailableOrderId = book.orderIdBlock.stop
  · -- The block is used up: a new one is granted first.
    have hstop := Exchange.block_toNat hroom
    rw [UInt64.le_iff_toNat_le, UInt64.toNat_one] at hsize
    have hlt : alloc.globalCounter < alloc.globalCounter + alloc.blockSize := by
      rw [UInt64.lt_iff_toNat_lt, hstop]
      omega
    have hgranted : ∀ n, n ∈ (s.grant k alloc.blockSize.toNat).held k ↔
        alloc.globalCounter.toNat ≤ n ∧ n < (alloc.globalCounter + alloc.blockSize).toNat := by
      intro n
      show n ∈ s.held k ∨ (k = k ∧ s.next ≤ n ∧ n < s.next + alloc.blockSize.toNat) ↔ _
      rw [hheld, OrderBook.Holds, hend, hstop, hnext]
      simp only [true_and]
      omega
    obtain ⟨s', hfirst, hnext', hother, hself, hissued⟩ := hissue _ _ _ hlt hgranted
    simp only [OrderBook.getOrderId, hend, if_true]
    refine ⟨s', hfirst, ?_, ?_, hself, ?_, hissued⟩
    · rw [hnext']
      show s.next + alloc.blockSize.toNat = (alloc.globalCounter + alloc.blockSize).toNat
      rw [hstop, hnext]
    · intro k' hne n
      rw [hother k' hne n]
      show n ∈ s.held k' ∨ (k' = k ∧ _) ↔ _
      simp [hne]
    · show alloc.globalCounter + 1 ≤ alloc.globalCounter + alloc.blockSize
      rw [UInt64.le_iff_toNat_le, Exchange.succ_toNat hlt, hstop]
      omega
  · have hlt : book.nextAvailableOrderId < book.orderIdBlock.stop :=
      UInt64.lt_of_le_of_ne hle hend
    obtain ⟨s', hfirst, hnext', hother, hself, hissued⟩ := hissue s _ _ hlt hheld
    simp only [OrderBook.getOrderId, hend, if_false]
    refine ⟨s', hfirst, hnext'.trans hnext, hother, hself, ?_, hissued⟩
    show book.nextAvailableOrderId + 1 ≤ book.orderIdBlock.stop
    rw [UInt64.le_iff_toNat_le, Exchange.succ_toNat hlt]
    rw [UInt64.lt_iff_toNat_lt] at hlt
    omega

theorem getOrderId_blockSize (book : OrderBook P) (alloc : IdAllocator) :
    (book.getOrderId alloc).2.2.blockSize = alloc.blockSize := by
  unfold OrderBook.getOrderId
  split <;> rfl

/-! ### What one command does to the block of its book -/

namespace OrderBook

/-- The block and the cursor are what they were. -/
def SameIds (book book' : OrderBook P) : Prop :=
  book'.orderIdBlock = book.orderIdBlock ∧
    book'.nextAvailableOrderId = book.nextAvailableOrderId

theorem SameIds.holds_iff {book book' : OrderBook P} (h : book.SameIds book') (n : ℕ) :
    book'.Holds n ↔ book.Holds n := by
  unfold Holds
  rw [h.1, h.2]

theorem Iteration.sameIds {book book' : OrderBook P} (x : Iteration book book') :
    book.SameIds book' := by
  have hblock := congrArg OrderBook.orderIdBlock x.rest
  have hnext := congrArg OrderBook.nextAvailableOrderId x.rest
  exact ⟨hblock, hnext⟩

theorem CancelOutcome.sameIds {book book' : OrderBook P} {id : OrderId} {b : Bool}
    (ho : CancelOutcome book id b book') : book.SameIds book' := by
  cases ho <;> exact ⟨rfl, rfl⟩

theorem loop_sameIds {book last : OrderBook P} (h : book.Sound)
    (hsteps : Relation.ReflTransGen LoopStep book last) : book.SameIds last :=
  (loop_invariant (I := fun b => book.SameIds b)
    (fun _ _ x _ _ hI => ⟨x.sameIds.1.trans hI.1, x.sameIds.2.trans hI.2⟩) hsteps h ⟨rfl, rfl⟩).2

variable [Zero P]

theorem ModifyOutcome.sameIds {book book' : OrderBook P} {id : OrderId} {price : P}
    {qty : Quantity} {b : Bool} (ho : ModifyOutcome book id price qty b book') :
    book.SameIds book' := by
  cases ho <;> exact ⟨rfl, rfl⟩

/-- `enqueueOrder` draws its id before it touches anything else. -/
theorem enqueueOrder_ids (book : OrderBook P) (alloc : IdAllocator) (client : Order P)
    (clock : Clock) :
    (book.enqueueOrder alloc client clock).1 = (book.getOrderId alloc).1 ∧
      (book.getOrderId alloc).2.1.SameIds (book.enqueueOrder alloc client clock).2.1 ∧
      (book.enqueueOrder alloc client clock).2.2.1 = (book.getOrderId alloc).2.2 := by
  by_cases hend : book.nextAvailableOrderId = book.orderIdBlock.stop
  · simp only [enqueueOrder, getOrderId, hend, if_true]
    exact ⟨trivial, ⟨rfl, rfl⟩, trivial⟩
  · simp only [enqueueOrder, getOrderId, hend, if_false]
    exact ⟨trivial, ⟨rfl, rfl⟩, trivial⟩

/-- The id that `add_order` returns is the one that `get_order_id` gives. -/
theorem addOrder_ids {book book' : OrderBook P} (h : book.Sound) {alloc alloc' : IdAllocator}
    {client : Order P} {clock : Clock} {id : OrderId}
    (hok : book.addOrder alloc client clock = .ok (id, book', alloc')) :
    id = (book.getOrderId alloc).1 ∧ (book.getOrderId alloc).2.1.SameIds book' ∧
      alloc' = (book.getOrderId alloc).2.2 := by
  obtain ⟨hid, hsame, halloc⟩ := enqueueOrder_ids book alloc client clock
  obtain ⟨p, hq⟩ := enqueueOrder_spec h.pool alloc client clock
  obtain ⟨m, last, book₂, hmatch, hsteps, -, -, hor⟩ :=
    tryMatch_ok (hq.sound h) (book.enqueueOrder alloc client clock).2.2.2
  simp only [addOrder, hmatch, bind, Except.bind, Except.ok.injEq, Prod.mk.injEq] at hok
  obtain ⟨rfl, rfl, rfl⟩ := hok
  have hlast := loop_sameIds (hq.sound h) hsteps
  have hall : (book.getOrderId alloc).2.1.SameIds last :=
    ⟨hlast.1.trans hsame.1, hlast.2.trans hsame.2⟩
  refine ⟨hid, ?_, halloc⟩
  rcases hor with rfl | rfl <;> exact hall

end OrderBook

variable [Zero P]

/-- What a command does to the ids of its book and to the allocator. -/
inductive IdOutcome (book : OrderBook P) (alloc : IdAllocator) (cmd : OrderCommand P)
    (book' : OrderBook P) (alloc' : IdAllocator) : Prop where
  /-- An `ADD` takes the next id. -/
  | took (clock : Clock) : cmd.type = .add →
      (book.getOrderId alloc).2.1.SameIds book' → alloc' = (book.getOrderId alloc).2.2 →
      Session.Step ⟨book, alloc⟩
        (.addOrder cmd.order clock, .orderId (book.getOrderId alloc).1) ⟨book', alloc'⟩ →
      IdOutcome book alloc cmd book' alloc'
  | kept (ls : List (Session.Label P)) : cmd.type ≠ .add → book.SameIds book' → alloc' = alloc →
      Path Session.Step ⟨book, alloc⟩ ls ⟨book', alloc⟩ → Session.addedIds ls = [] →
      IdOutcome book alloc cmd book' alloc'

theorem Worker.applyCommand_ids {book book' : OrderBook P} (h : book.Sound)
    {alloc alloc' : IdAllocator} {cmd : OrderCommand P} {clock : Clock}
    (hok : Worker.applyCommand book alloc cmd clock = .ok (book', alloc')) :
    IdOutcome book alloc cmd book' alloc' := by
  unfold Worker.applyCommand at hok
  cases htype : cmd.type with
  | add =>
    simp only [htype, bind, Except.bind] at hok
    split at hok
    · cases hok
    · next r hadd =>
      cases hok
      obtain ⟨id, book', alloc'⟩ := r
      obtain ⟨rfl, hsame, halloc⟩ := OrderBook.addOrder_ids h hadd
      exact .took clock htype hsame halloc (by
        simp only [Session.Step, Session.step, hadd, bind, Except.bind])
  | modify =>
    simp only [htype, bind, Except.bind] at hok
    split at hok
    · cases hok
    · next r hmodify =>
      cases hok
      obtain ⟨b, book'⟩ := r
      have hstep : Session.Step ⟨book, alloc⟩
          (.modifyOrder cmd.order.id cmd.order.price cmd.order.quantity clock, .done b)
          ⟨book', alloc⟩ := by
        simp only [Session.Step, Session.step, hmodify, bind, Except.bind]
      have hsame : book.SameIds book' := by
        cases hstep.outcome h with
        | modified _ _ _ _ _ _ ho => exact ho.sameIds
      exact .kept [_] (by simp [htype]) hsame rfl (.cons hstep (.nil _)) rfl
  | cancel =>
    simp only [htype, bind, Except.bind] at hok
    split at hok
    · cases hok
    · next r hcancel =>
      cases hok
      obtain ⟨b, book'⟩ := r
      have hstep : Session.Step ⟨book, alloc⟩ (.cancelOrder cmd.order.id clock, .done b)
          ⟨book', alloc⟩ := by
        simp only [Session.Step, Session.step, hcancel, bind, Except.bind]
      have hsame : book.SameIds book' := by
        cases hstep.outcome h with
        | cancelled _ _ _ _ ho => exact ho.sameIds
      exact .kept [_] (by simp [htype]) hsame rfl (.cons hstep (.nil _)) rfl
  | shutdown =>
    simp only [htype, Except.ok.injEq, Prod.mk.injEq] at hok
    obtain ⟨rfl, rfl⟩ := hok
    exact .kept [] (by simp [htype]) ⟨rfl, rfl⟩ rfl (.nil _) rfl

/-! ### A book alone -/

namespace Session
variable {s s' : Session P} {l : Label P} {ls : List (Label P)}

/-- No other book draws. -/
def Alone (_ : Session P) (l : Label P) : Prop := l.1 ≠ .otherDraws

omit [Zero P] in
/-- Where its block ends the next one begins. -/
theorem getOrderId_alone {book : OrderBook P} {alloc : IdAllocator}
    (h : book.orderIdBlock.stop = alloc.globalCounter) :
    (book.getOrderId alloc).1 = book.nextAvailableOrderId ∧
      (book.getOrderId alloc).2.1.nextAvailableOrderId = book.nextAvailableOrderId + 1 ∧
      (book.getOrderId alloc).2.1.orderIdBlock.stop =
        (book.getOrderId alloc).2.2.globalCounter := by
  by_cases hend : book.nextAvailableOrderId = book.orderIdBlock.stop
  · simp only [OrderBook.getOrderId, hend, if_true, h]
    exact ⟨rfl, rfl, rfl⟩
  · simp only [OrderBook.getOrderId, hend, if_false]
    exact ⟨trivial, trivial, h⟩

/-- The next id, and what is next after the call. -/
theorem Step.alone (hs : Step s l s') (hl : Alone s l) (hsound : s.book.Sound)
    (h : s.book.orderIdBlock.stop = s.alloc.globalCounter) :
    s'.book.orderIdBlock.stop = s'.alloc.globalCounter ∧
      addedIds [l] = (List.range (addedIds [l]).length).map
        (fun i => s.book.nextAvailableOrderId + UInt64.ofNat i) ∧
      s'.book.nextAvailableOrderId =
        s.book.nextAvailableOrderId + UInt64.ofNat (addedIds [l]).length := by
  have hkept : ∀ {book : OrderBook P}, s.book.SameIds book →
      book.orderIdBlock.stop = s.alloc.globalCounter ∧ book.nextAvailableOrderId =
        s.book.nextAvailableOrderId + UInt64.ofNat 0 := by
    intro book hsame
    rw [hsame.1, hsame.2]
    exact ⟨h, (UInt64.add_zero _).symm⟩
  cases hs.outcome hsound with
  | added client clock id p queued last book' alloc' =>
    unfold Step step at hs
    simp only [bind, Except.bind] at hs
    split at hs
    · cases hs
    · next r hadd =>
      obtain ⟨id', book₂, alloc₂⟩ := r
      cases hs
      obtain ⟨hid, hsame, halloc⟩ := OrderBook.addOrder_ids hsound hadd
      obtain ⟨hfirst, hnext, hstop⟩ := getOrderId_alone h
      rw [hsame.1, hsame.2, halloc, hstop, hnext]
      refine ⟨rfl, ?_, rfl⟩
      show [id'] = [s.book.nextAvailableOrderId + UInt64.ofNat 0]
      rw [hid, hfirst, show UInt64.ofNat 0 = 0 from rfl, UInt64.add_zero]
  | cancelled id clock b book' ho =>
    obtain ⟨hstop, hnext⟩ := hkept ho.sameIds
    exact ⟨hstop, rfl, hnext⟩
  | modified id price qty clock b book' ho =>
    obtain ⟨hstop, hnext⟩ := hkept ho.sameIds
    exact ⟨hstop, rfl, hnext⟩
  | drew => exact absurd rfl hl

theorem addedIds_of_alone (hr : Path (Guarded Alone Step) s ls s') (hsound : s.book.Sound)
    (h : s.book.orderIdBlock.stop = s.alloc.globalCounter) :
    addedIds ls = (List.range (addedIds ls).length).map
      (fun i => s.book.nextAvailableOrderId + UInt64.ofNat i) := by
  induction hr with
  | nil s => rfl
  | @cons s s₁ s' l ls hs _ ih =>
    obtain ⟨hstop, hfirst, hnext⟩ := hs.2.alone hs.1 hsound h
    have happend : addedIds (l :: ls) = addedIds [l] ++ addedIds ls :=
      List.filterMap_append (l := [l])
    have hrest := ih (hs.2.sound hsound) hstop
    rw [happend, List.length_append, List.range_add, List.map_append, ← hfirst, List.map_map]
    congr 1
    rw [hrest, List.length_map, List.length_range, hnext]
    apply List.map_congr_left
    intro i _
    show _ = s.book.nextAvailableOrderId + UInt64.ofNat ((addedIds [l]).length + i)
    rw [UInt64.ofNat_add, UInt64.add_assoc]

/-- **No gaps.**  The book of a process that has no other book numbers its
    orders one after the other from the first id on, whatever the size of the
    blocks, and from 2^64 on from the beginning again. -/
theorem gapless {instrument : Instrument} {blockSize : OrderId} {clock : Clock}
    (hnew : OrderBook.new instrument (.new blockSize) clock = (s.book, s.alloc))
    (hr : Path (Guarded Alone Step) s ls s') :
    addedIds ls = (List.range (addedIds ls).length).map
      (fun i => FIRST_ORDER_ID + UInt64.ofNat i) := by
  have hf : Fresh s := ⟨instrument, .new blockSize, clock, hnew⟩
  have hbook : s.book = (OrderBook.new instrument (.new blockSize) clock).1 := by rw [hnew]
  have halloc : s.alloc = (OrderBook.new (P := P) instrument (.new blockSize) clock).2 := by
    rw [hnew]
  have hstop : s.book.orderIdBlock.stop = s.alloc.globalCounter := by
    rw [hbook, halloc]
    rfl
  have hall := addedIds_of_alone hr hf.sound hstop
  rwa [hbook, show
    (OrderBook.new (P := P) instrument (.new blockSize) clock).1.nextAvailableOrderId =
    FIRST_ORDER_ID from rfl] at hall

/-- Three orders and a cancel, with blocks of two ids. -/
def shortBlocks : List (Label ℤ) :=
  [(limit .buy 100 10, .orderId 1), (limit .sell 101 10, .orderId 2), (cancel 2, .done true),
    (limit .sell 100 5, .orderId 3)]

theorem gapless_shortBlocks : ∃ s : Session ℤ, Path Step (opening 2) shortBlocks s ∧
    addedIds shortBlocks = (List.range 3).map (fun i => FIRST_ORDER_ID + UInt64.ofNat i) := by
  obtain ⟨s, hs, -⟩ := exists_path (opening 2) shortBlocks (fun _ => true) (by
    simp only [opening, OrderBook.new, OrderPool.new_eq]
    decide +kernel)
  have hpath : Path (Guarded Alone Step) (opening 2) shortBlocks s := by
    apply hs.mono_of_mem
    intro l hl s s' hstep
    refine ⟨?_, hstep⟩
    simp only [shortBlocks, List.mem_cons, List.not_mem_nil, or_false] at hl
    rcases hl with rfl | rfl | rfl | rfl <;> (intro hdraws; cases hdraws)
  exact ⟨s, hs, gapless rfl hpath⟩

end Session

/-! ### The system refines a supply -/

namespace System
variable {numWorkers bound : ℕ} {es : List (Event P numWorkers)}
  {x x' : System P numWorkers bound} {blockSize : OrderId}

/-- The book that a worker keeps for an instrument. -/
def bookAt (x : System P numWorkers bound) (k : Fin numWorkers × Instrument) :
    Option (OrderBook P) :=
  (x.workers k.1).books.find? k.2

/-- The `ADD` commands applied to a book. -/
def addsTo (k : Fin numWorkers × Instrument) (es : List (Event P numWorkers)) :
    List (OrderCommand P × Clock) :=
  (appliedTo k.1 k.2 es).filter fun e => e.1.type = .add

/-- The system stands in the state `s` of a supply whose holders are the
    books, and every book is where a run has led it that returned the ids
    issued to it. -/
structure Supplied (blockSize : OrderId) (es : List (Event P numWorkers))
    (x : System P numWorkers bound) (s : Supply (Fin numWorkers × Instrument)) : Prop where
  size_eq : x.alloc.blockSize = blockSize
  next_eq : s.next = x.alloc.globalCounter.toNat
  held_iff : ∀ k book, x.bookAt k = some book → ∀ n, n ∈ s.held k ↔ book.Holds n
  cursor_le : ∀ k book, x.bookAt k = some book →
    book.nextAvailableOrderId ≤ book.orderIdBlock.stop
  runs : ∀ k book, x.bookAt k = some book → ∃ s₀ ls, Session.Fresh s₀ ∧
    Path Session.Step s₀ ls ⟨book, x.alloc⟩ ∧
    (Session.addedIds ls).map UInt64.toNat = s.issuedTo k
  count : ∀ k, x.bookAt k ≠ none → (s.issuedTo k).length = (addsTo k es).length

omit [LinearOrder P] [Zero P] in
theorem addedIds_append (ls ls' : List (Session.Label P)) :
    Session.addedIds (ls ++ ls') = Session.addedIds ls ++ Session.addedIds ls' :=
  List.filterMap_append

omit [LinearOrder P] [Zero P] in
theorem addsTo_snoc (k : Fin numWorkers × Instrument) (es : List (Event P numWorkers))
    (e : Event P numWorkers) : addsTo k (es ++ [e]) = addsTo k es ++ addsTo k [e] := by
  rw [addsTo, appliedTo, processedBy_snoc, List.filter_append, List.filter_append]
  rfl

omit [LinearOrder P] [Zero P] in
theorem addsTo_process (k : Fin numWorkers × Instrument) (w : Fin numWorkers)
    (cmd : OrderCommand P) (clock : Clock) (found : Bool) :
    addsTo k [.process w cmd clock found] =
      if (w, cmd.order.instrument) = k ∧ cmd.type = .add then [(cmd, clock)] else [] := by
  have happlied := appliedTo_process w k.1 k.2 cmd clock found []
  rw [List.nil_append] at happlied
  rw [addsTo, happlied]
  show List.filter _ ([] ++ _) = _
  rw [List.nil_append]
  by_cases hk : w = k.1 ∧ cmd.order.instrument = k.2
  · by_cases htype : cmd.type = .add <;> simp [hk, htype]
  · have hk' : (w, cmd.order.instrument) ≠ k := by
      rintro rfl
      exact hk ⟨rfl, rfl⟩
    simp [hk, hk']

/-- A step that changes no book and no counter. -/
theorem Supplied.quiet {s : Supply (Fin numWorkers × Instrument)} (h : Supplied blockSize es x s)
    {e : Event P numWorkers} (hadds : ∀ k, x.bookAt k ≠ none → addsTo k [e] = [])
    (hworkers : x'.workers = x.workers) (halloc : x'.alloc = x.alloc) :
    Supplied blockSize (es ++ [e]) x' s := by
  have hbook : ∀ k, x'.bookAt k = x.bookAt k := by
    intro k
    rw [bookAt, bookAt, hworkers]
  constructor
  case size_eq => rw [halloc, h.size_eq]
  case next_eq => rw [halloc, h.next_eq]
  case held_iff =>
    intro k book hk
    exact h.held_iff k book (by rw [← hbook]; exact hk)
  case cursor_le =>
    intro k book hk
    exact h.cursor_le k book (by rw [← hbook]; exact hk)
  case runs =>
    intro k book hk
    rw [halloc]
    exact h.runs k book (by rw [← hbook]; exact hk)
  case count =>
    intro k hk
    rw [hbook] at hk
    rw [addsTo_snoc, hadds k hk, List.append_nil]
    exact h.count k hk

omit [Zero P] in
/-- The book of `k` is replaced, the others stay. -/
theorem bookAt_update {y : System P numWorkers bound} {k : Fin numWorkers × Instrument}
    {b : OrderBook P}
    (hworkers : y.workers = Function.update x.workers k.1
      ⟨(x.workers k.1).books.insert k.2 b⟩) (k' : Fin numWorkers × Instrument) :
    y.bookAt k' = if k = k' then some b else x.bookAt k' := by
  rw [bookAt, hworkers, find?_update_workers]
  by_cases hk : k = k'
  · subst hk
    simp
  · rw [if_neg hk, if_neg fun heq => hk (Prod.ext heq.1 heq.2)]
    rfl

/-- The book that the command names is called and takes no id. -/
theorem Supplied.kept {s : Supply (Fin numWorkers × Instrument)} (h : Supplied blockSize es x s)
    {k : Fin numWorkers × Instrument} {e : Event P numWorkers} {book book' : OrderBook P}
    {ls : List (Session.Label P)} (hbook : x.bookAt k = some book)
    (hadds : ∀ k, addsTo k [e] = []) (hsame : book.SameIds book')
    (hpath : Path Session.Step ⟨book, x.alloc⟩ ls ⟨book', x.alloc⟩)
    (hnone : Session.addedIds ls = []) (halloc : x'.alloc = x.alloc)
    (hat : ∀ k', x'.bookAt k' = if k = k' then some book' else x.bookAt k') :
    Supplied blockSize (es ++ [e]) x' s := by
  constructor
  case size_eq => rw [halloc, h.size_eq]
  case next_eq => rw [halloc, h.next_eq]
  case held_iff =>
    intro k' b hb n
    rw [hat] at hb
    split at hb
    · next hk =>
      cases hb
      rw [← hk, h.held_iff k book hbook, hsame.holds_iff]
    · exact h.held_iff k' b hb n
  case cursor_le =>
    intro k' b hb
    rw [hat] at hb
    split at hb
    · cases hb
      rw [hsame.1, hsame.2]
      exact h.cursor_le k book hbook
    · exact h.cursor_le k' b hb
  case runs =>
    intro k' b hb
    rw [hat] at hb
    rw [halloc]
    split at hb
    · next hk =>
      cases hb
      obtain ⟨s₀, ls₀, hfresh, hpath₀, hids₀⟩ := h.runs k book hbook
      refine ⟨s₀, ls₀ ++ ls, hfresh, hpath₀.append hpath, ?_⟩
      rw [addedIds_append, hnone, List.append_nil, hids₀, hk]
    · exact h.runs k' b hb
  case count =>
    intro k' hk
    rw [addsTo_snoc, hadds, List.append_nil]
    apply h.count k'
    rw [hat] at hk
    split at hk
    · next heq =>
      rw [← heq, hbook]
      exact Option.some_ne_none _
    · exact hk

/-- What the other books see of an `add_order`. -/
theorem draws_of_getOrderId (book b : OrderBook P) (alloc : IdAllocator) :
    ∃ ls, Path Session.Step ⟨b, alloc⟩ ls ⟨b, (book.getOrderId alloc).2.2⟩ ∧
      Session.addedIds ls = [] := by
  have hdraw : (book.getOrderId alloc).2.2 = alloc ∨
      (book.getOrderId alloc).2.2 = alloc.getNextIdBlock.2 := by
    unfold OrderBook.getOrderId
    split
    · exact Or.inr rfl
    · exact Or.inl rfl
  rcases hdraw with heq | heq
  · rw [heq]
    exact ⟨[], .nil _, rfl⟩
  · rw [heq]
    exact ⟨[(.otherDraws, .silent)], .cons rfl (.nil _), rfl⟩

/-- The book that the command names is called and takes the next id. -/
theorem Supplied.took {s : Supply (Fin numWorkers × Instrument)} (h : Supplied blockSize es x s)
    (hsize : 1 ≤ blockSize) {k : Fin numWorkers × Instrument} {e : Event P numWorkers}
    {book book' : OrderBook P} {cmd : OrderCommand P} {clock clock' : Clock}
    (hbook : x.bookAt k = some book)
    (hadds : ∀ k', addsTo k' [e] = if k = k' then [(cmd, clock)] else [])
    (hsame : (book.getOrderId x.alloc).2.1.SameIds book')
    (halloc : x'.alloc = (book.getOrderId x.alloc).2.2)
    (hstep : Session.Step ⟨book, x.alloc⟩
      (.addOrder cmd.order clock', .orderId (book.getOrderId x.alloc).1) ⟨book', x'.alloc⟩)
    (hat : ∀ k', x'.bookAt k' = if k = k' then some book' else x.bookAt k')
    (hroom : x.alloc.globalCounter.toNat + x.alloc.blockSize.toNat < 2 ^ 64) :
    ∃ s', s'.first = s.first ∧ Supplied blockSize (es ++ [e]) x' s' := by
  obtain ⟨s', hfirst, hnext, hother, hself, hle, hissued⟩ := getOrderId_supply s k
    (h.held_iff k book hbook) (h.cursor_le k book hbook) h.next_eq
    (by rw [h.size_eq]; exact hsize) hroom
  refine ⟨s', hfirst, ?_⟩
  constructor
  case size_eq => rw [halloc, getOrderId_blockSize, h.size_eq]
  case next_eq => rw [halloc, hnext]
  case held_iff =>
    intro k' b hb n
    rw [hat] at hb
    split at hb
    · next hk =>
      cases hb
      rw [← hk, hself, hsame.holds_iff]
    · next hk => rw [hother k' (Ne.symm hk), h.held_iff k' b hb]
  case cursor_le =>
    intro k' b hb
    rw [hat] at hb
    split at hb
    · cases hb
      rw [hsame.1, hsame.2]
      exact hle
    · exact h.cursor_le k' b hb
  case runs =>
    intro k' b hb
    rw [hat] at hb
    rw [Supply.issuedTo_of_snoc hissued]
    split at hb
    · next hk =>
      cases hb
      obtain ⟨s₀, ls₀, hfresh, hpath₀, hids₀⟩ := h.runs k book hbook
      refine ⟨s₀, ls₀ ++ [_], hfresh, hpath₀.snoc hstep, ?_⟩
      rw [addedIds_append, List.map_append, hids₀, if_pos hk, hk]
      rfl
    · next hk =>
      obtain ⟨s₁, ls₁, hfresh₁, hpath₁, hids₁⟩ := h.runs k' b hb
      obtain ⟨ls, hpath, hnone⟩ := draws_of_getOrderId book b x.alloc
      refine ⟨s₁, ls₁ ++ ls, hfresh₁, ?_, ?_⟩
      · rw [halloc]
        exact hpath₁.append hpath
      · rw [addedIds_append, hnone, List.append_nil, hids₁, if_neg hk, List.append_nil]
  case count =>
    intro k' hk
    rw [Supply.issuedTo_of_snoc hissued, addsTo_snoc, hadds, List.length_append,
      List.length_append]
    rw [hat] at hk
    split at hk
    · next heq =>
      rw [if_pos heq, if_pos heq, ← heq, h.count k (by rw [hbook]; simp)]
      rfl
    · next heq =>
      rw [if_neg heq, if_neg heq, h.count k' hk]
      rfl

/-- The commands processed so far, by whichever worker. -/
def processedCommands (es : List (Event P numWorkers)) : List (OrderCommand P) :=
  es.filterMap fun e => match e with
    | .process _ cmd _ _ => some cmd
    | _ => none

theorem Supplied.step {s : Supply (Fin numWorkers × Instrument)} (h : Supplied blockSize es x s)
    (hsize : 1 ≤ blockSize) {router : InstrumentMap (Fin numWorkers)} (hb : Books router es x)
    {e : Event P numWorkers} (hs : Step x e x')
    (hroom : processedCommands [e] ≠ [] →
      x.alloc.globalCounter.toNat + x.alloc.blockSize.toNat < 2 ^ 64) :
    ∃ s', s'.first = s.first ∧ Supplied blockSize (es ++ [e]) x' s' := by
  cases hs with
  | process w cmd clock found worker alloc hstate hok =>
    have hblock := hroom (List.cons_ne_nil _ _)
    unfold Worker.processCommand at hok
    split at hok
    · next hnone =>
      cases hok
      refine ⟨s, rfl, h.quiet ?_ (Function.update_eq_self _ _) rfl⟩
      intro k hk
      rw [addsTo_process, if_neg]
      rintro ⟨rfl, -⟩
      exact hk hnone
    · next book hbook =>
      simp only [bind, Except.bind] at hok
      split at hok
      · cases hok
      · next r happly =>
        obtain ⟨book', alloc'⟩ := r
        cases hok
        obtain ⟨s₀, ls, hfresh, -, hpath, -⟩ := hb.runs w _ book hbook
        have hbook : x.bookAt (w, cmd.order.instrument) = some book := hbook
        have hat := bookAt_update (k := (w, cmd.order.instrument)) (b := book') (x := x)
          (y := { x with
            alloc := alloc'
            workers := Function.update x.workers w
              ⟨(x.workers w).books.insert cmd.order.instrument book'⟩
            workerStates := Function.update x.workerStates w .polling }) rfl
        cases Worker.applyCommand_ids (Session.sound_of_path hfresh hpath) happly with
        | took clock' htype hsame halloc hstep =>
          have hadds : ∀ k, addsTo k [.process w cmd clock true] =
              if (w, cmd.order.instrument) = k then [(cmd, clock)] else [] := by
            intro k
            rw [addsTo_process]
            simp [htype]
          exact h.took hsize hbook hadds hsame halloc hstep hat hblock
        | kept ls' htype hsame halloc hpath' hnone =>
          refine ⟨s, rfl, h.kept hbook (fun k => ?_) hsame hpath' hnone halloc hat⟩
          rw [addsTo_process, if_neg fun hk => htype hk.2]
  | _ => exact ⟨s, rfl, h.quiet (fun _ _ => rfl) rfl rfl⟩

/-! ### Until the counter wraps -/

omit [LinearOrder P] [Zero P] in
theorem sum_processedBy (es : List (Event P numWorkers)) :
    ∑ w, (processedBy w es).length = (processedCommands es).length := by
  induction es with
  | nil => simp [processedBy, processedCommands]
  | cons e es ih =>
    cases e with
    | process w' cmd clock found =>
      have hone : ∀ w, (processedBy w (.process w' cmd clock found :: es)).length =
          (if w = w' then 1 else 0) + (processedBy w es).length := by
        intro w
        by_cases hw : w = w'
        · simp [processedBy, hw, Nat.add_comm]
        · simp [processedBy, hw, Ne.symm hw]
      rw [Finset.sum_congr rfl fun w _ => hone w, Finset.sum_add_distrib, ih,
        Finset.sum_ite_eq']
      simp [processedCommands, Nat.add_comm]
    | _ => exact ih

omit [LinearOrder P] [Zero P] in
/-- An instrument is routed to one worker at most. -/
theorem sum_acceptedTo (router : InstrumentMap (Fin numWorkers))
    (es : List (Event P numWorkers)) :
    ∑ w, (acceptedTo router w es).length ≤ (accepted es).length := by
  unfold acceptedTo
  induction accepted es with
  | nil => simp
  | cons cmd cmds ih =>
    have hone : ∀ w, ((cmd :: cmds).filter
        fun cmd => router.find? cmd.order.instrument = some w).length =
        (if router.find? cmd.order.instrument = some w then 1 else 0) +
          (cmds.filter fun cmd => router.find? cmd.order.instrument = some w).length := by
      intro w
      by_cases hw : router.find? cmd.order.instrument = some w <;> simp [hw, Nat.add_comm]
    have hle : (∑ w, if router.find? cmd.order.instrument = some w then 1 else 0) ≤ 1 := by
      cases router.find? cmd.order.instrument with
      | none => simp
      | some w' => simp
    rw [Finset.sum_congr rfl fun w _ => hone w, Finset.sum_add_distrib, List.length_cons]
    omega

omit [Zero P] in
/-- No more commands are processed than were accepted. -/
theorem Queues.processed_le {router : InstrumentMap (Fin numWorkers)} (h : Queues router es x) :
    (processedCommands es).length ≤ (accepted es).length := by
  rw [← sum_processedBy]
  refine (Finset.sum_le_sum fun w _ => ?_).trans (sum_acceptedTo router es)
  have hle := (h.processed_in_order w).1.length_le
  rwa [List.length_map] at hle

omit [LinearOrder P] [Zero P] in
theorem processedCommands_snoc (es : List (Event P numWorkers)) (e : Event P numWorkers) :
    processedCommands (es ++ [e]) = processedCommands es ++ processedCommands [e] :=
  List.filterMap_append

/-- Only processing a command moves the counter, by a block at most. -/
theorem counter_step {e : Event P numWorkers} (hs : Step x e x')
    (hroom : processedCommands [e] ≠ [] →
      x.alloc.globalCounter.toNat + x.alloc.blockSize.toNat < 2 ^ 64) :
    x'.alloc.globalCounter.toNat ≤
      x.alloc.globalCounter.toNat + x.alloc.blockSize.toNat * (processedCommands [e]).length := by
  cases hs with
  | process w cmd clock found worker alloc hstate hok =>
    show alloc.globalCounter.toNat ≤ _ + _ * 1
    rw [Nat.mul_one]
    unfold Worker.processCommand at hok
    split at hok
    · cases hok
      exact Nat.le_add_right _ _
    · simp only [bind, Except.bind] at hok
      split at hok
      · cases hok
      · next r happly =>
        obtain ⟨book', alloc'⟩ := r
        cases hok
        rcases (Worker.applyCommand_path happly).1 with rfl | rfl
        · exact Nat.le_add_right _ _
        · exact Nat.le_of_eq (Exchange.block_toNat (hroom (List.cons_ne_nil _ _)))
  | _ => exact Nat.le_add_right _ _

/-- What distinct ids give the running system. -/
structure Served (es : List (Event P numWorkers)) (x : System P numWorkers bound) : Prop where
  placed : ∀ k book, x.bookAt k = some book → book.Placed
  /-- An id is registered with one book. -/
  one_book : ∀ k k' book book' id, x.bookAt k = some book → x.bookAt k' = some book' →
    book.orderRegistry.find? id ≠ none → book'.orderRegistry.find? id ≠ none → k = k'
  /-- Every `ADD` that was applied to a book has an id of its own there. -/
  every_add : ∀ k book, x.bookAt k = some book → ∃ ids : List OrderId, ids.Nodup ∧
    ids.length = (addsTo k es).length ∧ ∀ id, book.orderRegistry.find? id ≠ none ↔ id ∈ ids
  valid : ∀ k book id, x.bookAt k = some book → book.orderRegistry.find? id ≠ none →
    id ≠ DEFAULT_ORDER_ID ∧ id ≠ INVALID_ORDER_ID
  /-- No command that a worker has popped makes it fail. -/
  goes_on : ∀ w cmd clock, x.workerStates w = .popped cmd →
    ∃ x', Step x (.process w cmd clock true) x'

/-- The registry of a book holds the ids that the supply has issued to it. -/
theorem Supplied.registered_iff {s : Supply (Fin numWorkers × Instrument)}
    (h : Supplied blockSize es x s) {k : Fin numWorkers × Instrument} {book : OrderBook P}
    (hbook : x.bookAt k = some book) (id : OrderId) :
    book.orderRegistry.find? id ≠ none ↔ id.toNat ∈ s.issuedTo k := by
  obtain ⟨s₀, ls, hfresh, hpath, hids⟩ := h.runs k book hbook
  rw [hfresh.registered_iff hpath, ← hids]
  constructor
  · exact fun hmem => List.mem_map_of_mem hmem
  · intro hmem
    obtain ⟨id', hmem', heq⟩ := List.mem_map.mp hmem
    rwa [← UInt64.toNat_inj.mp heq]

omit [LinearOrder P] [Zero P] in
theorem Supplied.addedIds_nodup {s : Supply (Fin numWorkers × Instrument)}
    {k : Fin numWorkers × Instrument} {ls : List (Session.Label P)}
    (hids : (Session.addedIds ls).map UInt64.toNat = s.issuedTo k) :
    (Session.addedIds ls).Nodup := by
  have hnodup := s.issuedTo_nodup k
  rw [← hids] at hnodup
  exact hnodup.of_map _

theorem Supplied.served {s : Supply (Fin numWorkers × Instrument)}
    (h : Supplied blockSize es x s) (hfirst : s.first = FIRST_ORDER_ID.toNat)
    {router : InstrumentMap (Fin numWorkers)} (hq : Queues router es x) (hb : Books router es x) :
    Served es x := by
  -- Every book is reached by a run whose ids are distinct.
  have hlinked : ∀ k book, x.bookAt k = some book → book.Sound ∧ book.Linked := by
    intro k book hbook
    obtain ⟨s₀, ls, hfresh, hpath, hids⟩ := h.runs k book hbook
    exact ⟨Session.sound_of_path hfresh hpath,
      Session.linked_of_path hfresh hpath (addedIds_nodup hids)⟩
  constructor
  case placed =>
    intro k book hbook
    obtain ⟨hsound, hlink⟩ := hlinked k book hbook
    exact hlink.toPlaced hsound
  case one_book =>
    intro k k' book book' id hbook hbook' hid hid'
    exact Supply.eq_of_mem_issuedTo ((h.registered_iff hbook id).mp hid)
      ((h.registered_iff hbook' id).mp hid')
  case every_add =>
    intro k book hbook
    obtain ⟨s₀, ls, hfresh, hpath, hids⟩ := h.runs k book hbook
    refine ⟨Session.addedIds ls, addedIds_nodup hids, ?_, hfresh.registered_iff hpath⟩
    have hcount := h.count k (by rw [hbook]; exact Option.some_ne_none _)
    rw [← hids, List.length_map] at hcount
    exact hcount
  case valid =>
    intro k book id hbook hid
    have hmem := Supply.mem_issuedTo.mp ((h.registered_iff hbook id).mp hid)
    obtain ⟨hlo, hhi⟩ := s.issued_mem _ hmem
    have hlast := x.alloc.globalCounter.toNat_lt
    rw [hfirst] at hlo
    rw [h.next_eq] at hhi
    constructor
    · rintro rfl
      have hlo : 1 ≤ DEFAULT_ORDER_ID.toNat := hlo
      exact absurd hlo (by decide)
    · rintro rfl
      have hinvalid : INVALID_ORDER_ID.toNat = 2 ^ 64 - 1 := rfl
      have hhi : INVALID_ORDER_ID.toNat < x.alloc.globalCounter.toNat := hhi
      omega
  case goes_on =>
    intro w cmd clock hstate
    obtain ⟨book, hbook, hor⟩ := process_goes_on hq hb hstate clock
    obtain ⟨hsound, hlink⟩ := hlinked (w, cmd.order.instrument) book hbook
    exact hor.resolve_right fun hnot => hnot (hlink.findable hsound)

section Run
variable [NeZero numWorkers] {instruments : List Instrument} {totalReserveSpace : ℕ}
  {clock : Clock} {x₀ : System P numWorkers bound}

/-- At the start the books hold the blocks drawn so far, and no id is issued. -/
theorem supplied_start
    (hx₀ : x₀ = start instruments (.new blockSize) totalReserveSpace clock)
    (hroom : FIRST_ORDER_ID.toNat + blockSize.toNat * instruments.length < 2 ^ 64) :
    ∃ s, s.first = FIRST_ORDER_ID.toNat ∧ Supplied blockSize [] x₀ s := by
  obtain ⟨hsize, -, hwithin, hapart⟩ := start_blocks instruments _ totalReserveSpace clock hx₀ hroom
  obtain ⟨-, -, hunused, -⟩ := start_spec instruments _ totalReserveSpace clock hx₀
  have hheld : ∀ k n, (∃ book, x₀.bookAt k = some book ∧ book.Holds n) →
      FIRST_ORDER_ID.toNat ≤ n ∧ n < x₀.alloc.globalCounter.toNat := by
    rintro k n ⟨book, hbook, hlo, hhi⟩
    have hin := hwithin k.1 k.2 book hbook
    exact ⟨hin.lo_le.trans hlo, hhi.trans_le hin.le_hi⟩
  have hstart := (start_blocks (P := P) instruments (.new blockSize) totalReserveSpace clock hx₀
    hroom).2.1
  refine ⟨{ first := FIRST_ORDER_ID.toNat
            next := x₀.alloc.globalCounter.toNat
            held := fun k => {n | ∃ book, x₀.bookAt k = some book ∧ book.Holds n}
            issued := []
            first_le := by rw [hstart]; exact Nat.le_add_right _ _
            held_mem := hheld
            disjoint := ?_
            issued_mem := by simp
            not_held := by simp
            issued_nodup := by simp
            ahead := by simp
            rising := by simp }, rfl, ?_⟩
  · rintro k k' n ⟨book, hbook, hn⟩ ⟨book', hbook', hn'⟩
    by_contra hne
    exact hapart k.1 k.2 book k'.1 k'.2 book' hbook hbook' hne n hn hn'
  · constructor
    case size_eq => exact hsize
    case next_eq => rfl
    case held_iff =>
      intro k book hbook n
      show (∃ b, x₀.bookAt k = some b ∧ b.Holds n) ↔ _
      simp [hbook]
    case cursor_le => exact fun k book hbook => (hwithin k.1 k.2 book hbook).cursor_le
    case runs =>
      intro k book hbook
      obtain ⟨-, alloc₀, n, hfresh, hpath⟩ := hunused k.1 k.2 book hbook
      refine ⟨⟨book, alloc₀⟩, Session.draws n, hfresh, hpath, ?_⟩
      have hnone : Session.addedIds (Session.draws (P := P) n) = [] := by
        apply List.filterMap_eq_nil_iff.mpr
        intro l hl
        rw [List.eq_of_mem_replicate hl]
      rw [hnone]
      rfl
    case count => exact fun _ _ => rfl

/-- Along every run that accepts no more commands than there are blocks left. -/
theorem supplied_of_path (hsize : 1 ≤ blockSize)
    (hx₀ : x₀ = start instruments (.new blockSize) totalReserveSpace clock)
    (hr : Path (Guarded ClientCommand Step) x₀ es x)
    (hroom : FIRST_ORDER_ID.toNat +
      blockSize.toNat * (instruments.length + (accepted es).length) < 2 ^ 64) :
    Queues x₀.router es x ∧ Books x₀.router es x ∧
      ∃ s, s.first = FIRST_ORDER_ID.toNat ∧ Supplied blockSize es x s := by
  obtain ⟨hqueues, hrouted, hbooks, -⟩ := start_spec instruments _ totalReserveSpace clock hx₀
  have hproducer : x₀.producer = .submitting := by rw [hx₀]; rfl
  have hstates : ∀ w, x₀.workerStates w = .polling := by rw [hx₀]; exact fun _ => rfl
  let Left (es : List (Event P numWorkers)) : Prop := FIRST_ORDER_ID.toNat +
    blockSize.toNat * (instruments.length + (accepted es).length) < 2 ^ 64
  have hall : Queues x₀.router es x ∧ Books x₀.router es x ∧
      (Left es → ∃ s, s.first = FIRST_ORDER_ID.toNat ∧ Supplied blockSize es x s ∧
        x.alloc.globalCounter.toNat ≤ FIRST_ORDER_ID.toNat +
          blockSize.toNat * (instruments.length + (processedCommands es).length)) := by
    refine hr.history (I := fun es x => Queues x₀.router es x ∧ Books x₀.router es x ∧
      (Left es → ∃ s, s.first = FIRST_ORDER_ID.toNat ∧ Supplied blockSize es x s ∧
        x.alloc.globalCounter.toNat ≤ FIRST_ORDER_ID.toNat +
          blockSize.toNat * (instruments.length + (processedCommands es).length))) ?_ ?_
    · intro es x e x' h hs
      obtain ⟨hq, hb, hsupply⟩ := h
      have hq' := hq.step hs
      refine ⟨hq', hb.step hs.2, ?_⟩
      intro hleft
      have hle' := hq'.processed_le
      rw [accepted_snoc, List.length_append] at hle'
      have hleft' : FIRST_ORDER_ID.toNat + blockSize.toNat *
          (instruments.length + (accepted (es ++ [e])).length) < 2 ^ 64 := hleft
      rw [accepted_snoc, List.length_append] at hleft'
      have hbefore : Left es := by
        refine lt_of_le_of_lt (Nat.add_le_add_left (Nat.mul_le_mul_left _ ?_) _) hleft'
        omega
      obtain ⟨s, hfirst, hsup, hcounter⟩ := hsupply hbefore
      rw [processedCommands_snoc, List.length_append] at hle' ⊢
      -- What is processed now was accepted, so its block is paid for.
      have hblock : processedCommands [e] ≠ [] →
          x.alloc.globalCounter.toNat + x.alloc.blockSize.toNat < 2 ^ 64 := by
        intro hne
        have hone : 1 ≤ (processedCommands [e]).length := List.length_pos_of_ne_nil hne
        have hmul := Nat.mul_le_mul_left blockSize.toNat
          (show instruments.length + (processedCommands es).length + 1 ≤
            instruments.length + ((accepted es).length + (accepted [e]).length) by omega)
        rw [Nat.mul_succ] at hmul
        rw [hsup.size_eq]
        omega
      obtain ⟨s', hfirst', hsup'⟩ := hsup.step hsize hb hs.2 hblock
      refine ⟨s', hfirst'.trans hfirst, hsup', ?_⟩
      have hstep := counter_step hs.2 hblock
      rw [hsup.size_eq] at hstep
      rw [← Nat.add_assoc, Nat.mul_add]
      omega
    · refine ⟨.start hproducer hstates hqueues, .start hrouted hbooks, ?_⟩
      intro hleft
      have hroom₀ : FIRST_ORDER_ID.toNat + blockSize.toNat * instruments.length < 2 ^ 64 := hleft
      obtain ⟨s, hfirst, hsup⟩ := supplied_start hx₀ hroom₀
      exact ⟨s, hfirst, hsup, Nat.le_of_eq (start_blocks (P := P) instruments (.new blockSize)
        totalReserveSpace clock hx₀ hroom₀).2.1⟩
  obtain ⟨s, hfirst, hsup, -⟩ := hall.2.2 hroom
  exact ⟨hall.1, hall.2.1, s, hfirst, hsup⟩

/-- **The running system keeps its orders apart.**  As long as the commands
    accepted are no more than there are id blocks left, no id is registered
    with two books or twice with one, and no worker ever fails. -/
theorem served_of_path (hsize : 1 ≤ blockSize)
    (hx₀ : x₀ = start instruments (.new blockSize) totalReserveSpace clock)
    (hr : Path (Guarded ClientCommand Step) x₀ es x)
    (hroom : FIRST_ORDER_ID.toNat +
      blockSize.toNat * (instruments.length + (accepted es).length) < 2 ^ 64) :
    Served es x := by
  obtain ⟨hq, hb, s, hfirst, hsup⟩ := supplied_of_path hsize hx₀ hr hroom
  exact hsup.served hfirst hq hb

end Run

/-- An `ADD` of an order for an instrument. -/
def addCmd (instrument : Instrument) (side : OrderSide) (price : ℤ) : OrderCommand ℤ :=
  ⟨.add, .ofClient instrument side price 10 0⟩

/-- Two orders for the books of two workers. -/
def twoAdds (v w : Fin numWorkers) : List (Event ℤ numWorkers) :=
  [.submit (addCmd "SPY" .buy 100) true, .submit (addCmd "QQQ" .sell 50) true,
    .pop v (some (addCmd "SPY" .buy 100)), .pop w (some (addCmd "QQQ" .sell 50))]

/-- With blocks of one id, the first orders of the two books use them up. -/
theorem served_twoAdds : ∃ x x₁ x₂ : System ℤ 2 2, Served (twoAdds 0 1) x ∧
    Step x (.process 1 (addCmd "QQQ" .sell 50) (fun _ => 0) true) x₁ ∧
    Step x₁ (.process 0 (addCmd "SPY" .buy 100) (fun _ => 0) true) x₂ ∧
    Served (twoAdds 0 1 ++ [.process 1 (addCmd "QQQ" .sell 50) (fun _ => 0) true] ++
      [.process 0 (addCmd "SPY" .buy 100) (fun _ => 0) true]) x₂ := by
  let x₀ : System ℤ 2 2 := start ["SPY", "QQQ", "IWM"] (.new 1) 10 (fun _ => 0)
  have hr : ∃ x, (twoAdds 0 1).foldlM next? x₀ = some x ∧
      x.workerStates 0 = .popped (addCmd "SPY" .buy 100) ∧
      x.workerStates 1 = .popped (addCmd "QQQ" .sell 50) := ⟨_, rfl, rfl, rfl⟩
  obtain ⟨x, hx, hzero, hone⟩ := hr
  have hclient : ∀ e ∈ (twoAdds 0 1 : List (Event ℤ 2)), ∀ y : System ℤ 2 2, y.ClientCommand e := by
    simp [twoAdds, ClientCommand, addCmd]
  have hpath := path_of_foldlM hclient hx
  have hserved := served_of_path (by decide) rfl hpath (by decide)
  obtain ⟨x₁, hx₁⟩ := hserved.goes_on 1 _ (fun _ => 0) hone
  have hstep₁ : Guarded ClientCommand Step x (.process 1 (addCmd "QQQ" .sell 50) (fun _ => 0) true)
      x₁ := ⟨trivial, hx₁⟩
  have hpath₁ := hpath.snoc hstep₁
  have hserved₁ := served_of_path (by decide) rfl hpath₁ (by decide)
  have hzero₁ : x₁.workerStates 0 = .popped (addCmd "SPY" .buy 100) := by
    cases hx₁ with
    | process => simpa using hzero
  obtain ⟨x₂, hx₂⟩ := hserved₁.goes_on 0 _ (fun _ => 0) hzero₁
  have hstep₂ : Guarded ClientCommand Step x₁ (.process 0 (addCmd "SPY" .buy 100) (fun _ => 0) true)
      x₂ := ⟨trivial, hx₂⟩
  have hpath₂ := hpath₁.snoc hstep₂
  exact ⟨x, x₁, x₂, hserved, hx₁, hx₂, served_of_path (by decide) rfl hpath₂ (by decide)⟩

end System
end Orderbook
