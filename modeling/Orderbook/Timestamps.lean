import Orderbook.PoolStability

/-! # What the orders say about their times

    `Stamps` is what should be known of the times of the orders: when the
    client order was submitted and which reading of the clock belongs to the
    last change.  It is kept beside a run and looks only at the inputs of
    the calls and at which orders they change.  What an order reports is
    something else: the reading with which its slot of the pool was built. -/

namespace Orderbook
open OrderBook

/-- The times of the orders, by slot. -/
structure Stamps where
  /-- The reading with which the blank order in the slot was built. -/
  built     : ℕ → TimePoint
  /-- The submission time of the client order. -/
  submitted : ℕ → TimePoint
  /-- The reading of the last operation that changed the order, or its
      submission time. -/
  changed   : ℕ → TimePoint

/-- The fields whose changes count. -/
def Order.facts {P : Type} (o : Order P) : P × Quantity × Quantity × OrderStatus :=
  (o.price, o.quantity, o.quantityFilled, o.status)

namespace Stamps
variable {P : Type} [LinearOrder P]

/-- The times when a book is opened, whose pool takes these readings. -/
def new (clock : Clock) : Stamps := ⟨clock, fun _ => 0, fun _ => 0⟩

/-- The orders that differ between two books were changed, the one in slot `i`
    at the reading `now i`. -/
def note (st : Stamps) (book book' : OrderBook P) (now : ℕ → TimePoint) : Stamps :=
  { st with changed := fun i =>
      if (book'.slot i).facts = (book.slot i).facts then st.changed i else now i }

/-- A client order goes to the next slot of the pool, which may have to build
    blank orders first. -/
def added (st : Stamps) (pool : OrderPool P) (client : Order P) (clock : Clock) : Stamps where
  built := fun i =>
    if pool.orders.size ≤ pool.nextFreeIndex ∧ pool.orders.size ≤ i ∧ i < 2 * pool.orders.size
      then clock (i - pool.orders.size) else st.built i
  submitted := Function.update st.submitted pool.nextFreeIndex client.timeSubmitted
  changed := Function.update st.changed pool.nextFreeIndex client.timeSubmitted

/-- Along the loop of `try_match`: the first reading of an iteration is that
    of the bid, the second that of the ask. -/
def matched (fuel : ℕ) (clock : Clock) (book : OrderBook P) (st : Stamps) : Stamps :=
  match fuel with
  | 0 => st
  | fuel + 1 =>
    match book.bids.front?, book.asks.front? with
    | some bidIt, some askIt =>
      if askIt.1 ≤ bidIt.1 then
        match book.matchBest bidIt askIt clock with
        | .ok book' => matched fuel (clock.skip 2) book'
            (st.note book book' fun i => (book.slot i).side.pick (clock 0) (clock 1))
        | .error _ => st
      else st
    | _, _ => st

/-- One event.  The reading of a `cancel_order` or a `modify_order` is the
    first that it would take. -/
def after [Zero P] (st : Stamps) (s : Session P) : Event P → Stamps
  | .addOrder client clock =>
    let (_, queued, _, rest) := s.book.enqueueOrder s.alloc client clock
    let st := st.added s.book.orderPool client clock
    if queued.tryMatchFlag then st.matched queued.matchFuel rest queued else st
  | .cancelOrder orderId clock =>
    match s.book.cancelOrder orderId clock with
    | .ok (_, book') => st.note s.book book' fun _ => clock 0
    | .error _ => st
  | .modifyOrder orderId price quantity clock =>
    match s.book.modifyOrder orderId price quantity clock with
    | .ok (_, book') => st.note s.book book' fun _ => clock 0
    | .error _ => st
  | .otherDraws => st

/-- A list of events. -/
def along [Zero P] (st : Stamps) (s : Session P) : List (Event P) → Stamps
  | [] => st
  | e :: es =>
    match s.step e with
    | .ok (s', _) => (st.after s e).along s' es
    | .error _ => st

/-- The order in the slot reports what happened to it. -/
def Reported (st : Stamps) (book : OrderBook P) (i : ℕ) : Prop :=
  (book.slot i).getTimeSubmitted = st.submitted i ∧ (book.slot i).getUpdatedTime = st.changed i

/-- The slot was built at the time when its order was submitted, which is also
    when it was changed last. -/
def Coincide (st : Stamps) (i : ℕ) : Prop :=
  st.built i = st.submitted i ∧ st.built i = st.changed i

/-- The submission time of every slot is the reading it was built with. -/
def FromPool (st : Stamps) (book : OrderBook P) : Prop :=
  ∀ i, i < book.orderPool.orders.size → (book.slot i).timeSubmitted = st.built i

/-! ### What a call leaves of the slots -/

/-- The slots of one book are those of the other, with the same submission
    times. -/
structure SameSlots (book book' : OrderBook P) : Prop where
  size : book'.orderPool.orders.size = book.orderPool.orders.size
  time : ∀ i, (book'.slot i).timeSubmitted = (book.slot i).timeSubmitted

theorem SameSlots.refl (book : OrderBook P) : SameSlots book book := ⟨rfl, fun _ => rfl⟩

theorem SameSlots.trans {book book' book'' : OrderBook P} (h : SameSlots book book')
    (h' : SameSlots book' book'') : SameSlots book book'' :=
  ⟨h'.size.trans h.size, fun i => (h'.time i).trans (h.time i)⟩

theorem SameSlots.fromPool {book book' : OrderBook P} {st : Stamps} (h : SameSlots book book')
    (hst : st.FromPool book) : st.FromPool book' := by
  intro i hi
  rw [h.size] at hi
  rw [h.time]
  exact hst i hi

theorem sameSlots_setOrder {book : OrderBook P} {p : OrderPtr} {o : Order P}
    (htime : o.timeSubmitted = (book.order p).timeSubmitted) :
    SameSlots book (book.setOrder p o) := by
  refine ⟨rfl, ?_⟩
  intro i
  rw [setOrder_slot]
  split
  · next heq =>
    rw [htime, heq]
    rfl
  · rfl

theorem sameSlots_of_cancel {book book' : OrderBook P} {id : OrderId} {b : Bool}
    (ho : CancelOutcome book id b book') : SameSlots book book' := by
  cases ho with
  | unknown _ => exact .refl book
  | dead _ _ _ => exact .refl book
  | cancelled p lvl lvl' now hreg hlive hlvl hrem hwf =>
    have h : SameSlots book (book.setOrder p ((book.order p).cancelledAt now)) :=
      sameSlots_setOrder rfl
    exact ⟨h.size, h.time⟩

theorem sameSlots_of_modify [Zero P] {book book' : OrderBook P} {id : OrderId} {price : P}
    {qty : Quantity} {b : Bool} (ho : ModifyOutcome book id price qty b book') :
    SameSlots book book' := by
  cases ho with
  | unknown _ => exact .refl book
  | dead _ _ _ => exact .refl book
  | invalid _ _ _ _ => exact .refl book
  | same _ _ _ _ _ _ _ => exact .refl book
  | reduced p hreg hlive hpos hqty hprice hlt =>
    exact sameSlots_setOrder (o := (book.order p).setQuantity qty) rfl
  | requeued p lvl lvl' hreg hlive hpos hqty hprice hgt hlvl hrem hwf =>
    have h : SameSlots book (book.setOrder p ((book.order p).setQuantity qty)) :=
      sameSlots_setOrder rfl
    exact ⟨h.size, h.time⟩
  | moved p lvl lvl' now hreg hlive hpos hqty hprice hlvl hrem hwf =>
    have h : SameSlots book
        (book.setOrder p (((book.order p).setPrice price now).setQuantity qty)) :=
      sameSlots_setOrder rfl
    exact ⟨h.size, h.time⟩

theorem sameSlots_of_iteration {book book' : OrderBook P} (x : Iteration book book') :
    SameSlots book book' := by
  refine ⟨x.stays.size, ?_⟩
  intro i
  rcases x.slot_cases i with ⟨-, hsame⟩ | ⟨side, now, -, hfilled⟩
  · rw [hsame]
  · rw [hfilled]
    rfl

/-- Matching keeps the slots. -/
theorem sameSlots_of_tryMatch {queued book' : OrderBook P} (h : queued.Sound) {clock : Clock}
    {m : Bool} (hok : queued.tryMatch clock = .ok (m, book')) : SameSlots queued book' := by
  obtain ⟨m', last, book'', hok', hsteps, -, -, hor⟩ := tryMatch_ok h clock
  rw [hok, Except.ok.injEq, Prod.mk.injEq] at hok'
  obtain ⟨-, rfl⟩ := hok'
  have hlast : SameSlots queued last :=
    (loop_invariant (I := fun b => SameSlots queued b)
      (fun _ _ x _ _ hinv => hinv.trans (sameSlots_of_iteration x)) hsteps h (.refl queued)).2
  rcases hor with rfl | rfl
  · exact hlast
  · exact ⟨hlast.size, hlast.time⟩

/-! ### Queueing: the slot keeps the time it was built with -/

variable [Zero P]

/-- New blank orders have the readings they were built with. -/
theorem fromPool_allocate {book : OrderBook P} {st : Stamps} (hst : st.FromPool book)
    (client : Order P) (clock : Clock) {i : ℕ}
    (hi : i < (book.orderPool.allocate clock).2.1.orders.size) :
    ((book.orderPool.allocate clock).2.1.orders.cells i).timeSubmitted =
      (st.added book.orderPool client clock).built i := by
  unfold OrderPool.allocate at hi ⊢
  split
  · next hfull =>
    obtain ⟨-, hsize, hcells⟩ := OrderPool.reserveMore_spec book.orderPool clock
    rw [if_pos hfull] at hi
    simp only [hsize] at hi
    simp only [added, hcells]
    by_cases hnew : book.orderPool.orders.size ≤ i
    · rw [if_pos ⟨hnew, hi⟩, if_pos ⟨hfull, hnew, hi⟩]
      rfl
    · rw [if_neg (fun hc => hnew hc.1), if_neg (fun hc => hnew hc.2.1)]
      exact hst i (Nat.not_le.mp hnew)
  · next hroom =>
    rw [if_neg hroom] at hi
    simp only [added]
    rw [if_neg (fun hc => hroom hc.1)]
    exact hst i hi

/-- `copy_from_client` leaves the times of the slot alone. -/
theorem fromPool_enqueueOrder {book : OrderBook P} {st : Stamps} (hst : st.FromPool book)
    (alloc : IdAllocator) (client : Order P) (clock : Clock) :
    (st.added book.orderPool client clock).FromPool
      (book.enqueueOrder alloc client clock).2.1 := by
  obtain ⟨id, block, next, alloc', heq⟩ := enqueueOrder_eq book alloc client clock
  rw [heq]
  intro i hi
  have hi : i < (book.orderPool.allocate clock).2.1.orders.size := hi
  have hbuilt := fromPool_allocate hst client clock hi
  show ((book.queuedPool client id clock).orders.cells i).timeSubmitted = _
  simp only [queuedPool, OrderPool.set_cells]
  split
  · next hself =>
    rw [hself] at hbuilt ⊢
    exact hbuilt
  · exact hbuilt

/-! ### Along a run -/

omit [Zero P] in
theorem matched_built (fuel : ℕ) (clock : Clock) (book : OrderBook P) (st : Stamps) :
    (st.matched fuel clock book).built = st.built := by
  induction fuel generalizing clock book st with
  | zero => rfl
  | succ fuel ih =>
    unfold matched
    split
    · split
      · split
        · exact ih _ _ _
        · rfl
      · rfl
    · rfl

theorem fromPool_step {s s' : Session P} {l : Session.Label P} (hs : Session.Step s l s')
    (h : s.book.Sound) {st : Stamps} (hst : st.FromPool s.book) :
    (st.after s l.1).FromPool s'.book := by
  obtain ⟨e, r⟩ := l
  simp only [Session.Step] at hs
  cases e with
  | addOrder client clock =>
    obtain ⟨p, hq⟩ := enqueueOrder_spec h.pool s.alloc client clock
    have hqueued := fromPool_enqueueOrder hst s.alloc client clock
    have hbuilt : (st.after s (.addOrder client clock)).built =
        (st.added s.book.orderPool client clock).built := by
      simp only [after]
      split
      · exact matched_built _ _ _ _
      · rfl
    simp only [Session.step, addOrder] at hs
    cases htry : (s.book.enqueueOrder s.alloc client clock).2.1.tryMatch
        (s.book.enqueueOrder s.alloc client clock).2.2.2 with
    | error err => simp [htry, bind, Except.bind] at hs
    | ok r' =>
      obtain ⟨m, book'⟩ := r'
      simp only [htry, bind, Except.bind, Except.ok.injEq, Prod.mk.injEq] at hs
      obtain ⟨rfl, -⟩ := hs
      have hsame := (sameSlots_of_tryMatch (hq.sound h) htry).fromPool hqueued
      intro i hi
      rw [hbuilt]
      exact hsame i hi
  | cancelOrder id clock =>
    rcases cancelOrder_cases h id clock with ⟨b, book', hok, ho⟩ | ⟨herr, -⟩
    · simp only [Session.step, hok, bind, Except.bind, Except.ok.injEq, Prod.mk.injEq] at hs
      obtain ⟨rfl, -⟩ := hs
      have hsame := (sameSlots_of_cancel ho).fromPool hst
      intro i hi
      simp only [after, hok]
      exact hsame i hi
    · simp [Session.step, herr, bind, Except.bind] at hs
  | modifyOrder id price qty clock =>
    rcases modifyOrder_cases h id price qty clock with ⟨b, book', hok, ho⟩ | ⟨herr, -⟩
    · simp only [Session.step, hok, bind, Except.bind, Except.ok.injEq, Prod.mk.injEq] at hs
      obtain ⟨rfl, -⟩ := hs
      have hsame := (sameSlots_of_modify ho).fromPool hst
      intro i hi
      simp only [after, hok]
      exact hsame i hi
    · simp [Session.step, herr, bind, Except.bind] at hs
  | otherDraws =>
    simp only [Session.step, Except.ok.injEq, Prod.mk.injEq] at hs
    obtain ⟨rfl, -⟩ := hs
    exact hst

theorem along_cons {s s' : Session P} {l : Session.Label P} (hs : Session.Step s l s')
    (st : Stamps) (es : List (Event P)) :
    st.along s (l.1 :: es) = (st.after s l.1).along s' es := by
  have hok : s.step l.1 = .ok (s', l.2) := hs
  simp only [along, hok]

/-- In every run a slot keeps the reading it was built with. -/
theorem fromPool_path {s s' : Session P} {ls : List (Session.Label P)}
    (hr : Path Session.Step s ls s') (h : s.book.Sound) {st : Stamps}
    (hst : st.FromPool s.book) : (st.along s (ls.map Prod.fst)).FromPool s'.book := by
  induction hr generalizing st with
  | nil s => exact hst
  | cons hs _ ih =>
    rw [List.map_cons, along_cons hs]
    exact ih (hs.sound h) (fromPool_step hs h hst)

theorem fromPool_new {s : Session P} {instrument : Instrument} {alloc : IdAllocator}
    {clock : Clock} (hnew : OrderBook.new instrument alloc clock = (s.book, s.alloc)) :
    (Stamps.new clock).FromPool s.book := by
  obtain ⟨-, hsize, -, hcells⟩ := OrderPool.new_spec (P := P) SPACE_RESERVE clock
  have hpool : s.book.orderPool = OrderPool.new SPACE_RESERVE clock :=
    congrArg (fun x => x.1.orderPool) hnew.symm
  intro i hi
  rw [hpool, hsize] at hi
  rw [slot, hpool, hcells i hi]
  rfl

end Stamps

/-! ### What the orders report -/

namespace Session
open Stamps
variable {P : Type} [LinearOrder P] [Zero P]

/-- **When an order reports its times.**  In every run of a book whose pool
    was built with the readings of `clock`, an order that the book holds
    reports its submission and its last change exactly when its slot was built
    at the time of both. -/
theorem reported_iff_coincide {s s' : Session P} {instrument : Instrument} {alloc : IdAllocator}
    {clock : Clock} {ls : List (Label P)}
    (hnew : OrderBook.new instrument alloc clock = (s.book, s.alloc))
    (hr : Path Step s ls s') {i : ℕ} (hi : s'.book.Accepted i) :
    ((Stamps.new clock).along s (ls.map Prod.fst)).Reported s'.book i ↔
      ((Stamps.new clock).along s (ls.map Prod.fst)).Coincide i := by
  have hf : Fresh s := ⟨instrument, alloc, clock, hnew⟩
  have hs' := sound_of_path hf hr
  have hpool := fromPool_path hr hf.sound (fromPool_new hnew)
  have htime := hpool i (Nat.lt_of_lt_of_le hi hs'.pool.next_le)
  -- Both accessors return the time of submission.
  have hupdated : (s'.book.slot i).getUpdatedTime = (s'.book.slot i).timeSubmitted := rfl
  have hsubmitted : (s'.book.slot i).getTimeSubmitted = (s'.book.slot i).timeSubmitted := rfl
  rw [Reported, Coincide, hupdated, hsubmitted, htime]

/-- A book whose pool is built with one reading. -/
def openedAt (now : TimePoint) : Session ℤ :=
  let (book, alloc) := OrderBook.new "SPY" (.new 1000) fun _ => now
  ⟨book, alloc⟩

/-- A buyer submits at 5 and cancels, by which time the clock may have moved. -/
def buyerCancels (now : TimePoint) : List (Label ℤ) :=
  [(.addOrder (.ofClient "SPY" .buy 100 10 5) fun _ => 6, .orderId 1),
    (.cancelOrder 1 fun _ => now, .done true)]

theorem reported_iff_coincide_buyerCancels : ∃ s : Session ℤ,
    Path Step (openedAt 5) (buyerCancels 5) s ∧ s.book.Accepted 0 ∧
      ((Stamps.new fun _ => 5).along (openedAt 5) ((buyerCancels 5).map Prod.fst)).Reported
        s.book 0 := by
  obtain ⟨s, hs, hf⟩ := exists_path (openedAt 5) (buyerCancels 5)
    (fun s => decide (0 < s.book.orderPool.nextFreeIndex)) (by
      simp only [openedAt, OrderBook.new, OrderPool.new_eq]
      decide +kernel)
  have hfree : 0 < s.book.orderPool.nextFreeIndex := of_decide_eq_true hf
  have hacc : s.book.Accepted 0 := hfree
  refine ⟨s, hs, hacc, (reported_iff_coincide rfl hs hacc).mpr ?_⟩
  simp only [Coincide, openedAt, OrderBook.new, OrderPool.new_eq]
  decide +kernel

/-- In a book that was opened at 0 the order reports 0 for both, after it was
    submitted at 5 and cancelled at 7. -/
theorem buyerCancels_unreported : ∃ (s : Session ℤ) (st : Stamps),
    Path Step (openedAt 0) (buyerCancels 7) s ∧ s.book.Accepted 0 ∧
      (Stamps.new fun _ => 0).along (openedAt 0) ((buyerCancels 7).map Prod.fst) = st ∧
      st.submitted 0 = 5 ∧ st.changed 0 = 7 ∧
      (s.book.slot 0).getTimeSubmitted = 0 ∧ (s.book.slot 0).getUpdatedTime = 0 ∧
      ¬ st.Reported s.book 0 := by
  obtain ⟨s, hs, hf⟩ := exists_path (openedAt 0) (buyerCancels 7)
    (fun s => decide (0 < s.book.orderPool.nextFreeIndex ∧
      (s.book.slot 0).getTimeSubmitted = 0 ∧ (s.book.slot 0).getUpdatedTime = 0)) (by
      simp only [openedAt, OrderBook.new, OrderPool.new_eq]
      decide +kernel)
  obtain ⟨hacc, hsub, hupd⟩ := of_decide_eq_true hf
  obtain ⟨st, hst⟩ : ∃ st, (Stamps.new fun _ => 0).along (openedAt 0)
    ((buyerCancels 7).map Prod.fst) = st := ⟨_, rfl⟩
  have hstamps : st.submitted 0 = 5 ∧ st.changed 0 = 7 := by
    rw [← hst]
    simp only [openedAt, OrderBook.new, OrderPool.new_eq]
    decide +kernel
  refine ⟨s, st, hs, hacc, hst, hstamps.1, hstamps.2, hsub, hupd, ?_⟩
  intro hrep
  have hzero : st.submitted 0 = 0 := by rw [← hrep.1, hsub]
  rw [hstamps.1] at hzero
  exact absurd hzero (by decide)

end Session
end Orderbook
