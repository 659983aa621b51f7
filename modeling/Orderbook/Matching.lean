import Orderbook.BookSteps

/-! # The matching loop

    One iteration of `try_match` on a sound book, and what follows for the
    loop as a whole: it never throws, it never reads past a vector, and it
    ends, since every iteration uses up an entry of one of the two queues. -/

namespace Orderbook
/-- One value for each side. -/
def OrderSide.pick {α : Type} (bid ask : α) : OrderSide → α
  | .buy => bid
  | .sell => ask

namespace OrderBook
variable {P : Type}

/-! ### One trade -/

/-- `std::min` of the two open quantities. -/
def tradeQty (bid ask : Order P) : Quantity :=
  if ask.available < bid.available then ask.available else bid.available

theorem tradeQty_le_bid (bid ask : Order P) : tradeQty bid ask ≤ bid.available := by
  unfold tradeQty
  split
  · next h => exact UInt64.le_of_lt h
  · exact UInt64.le_refl _

theorem tradeQty_le_ask (bid ask : Order P) : tradeQty bid ask ≤ ask.available := by
  unfold tradeQty
  split
  · exact UInt64.le_refl _
  · next h => exact UInt64.not_lt.mp h

theorem tradeQty_eq_or (bid ask : Order P) :
    tradeQty bid ask = bid.available ∨ tradeQty bid ask = ask.available := by
  unfold tradeQty
  split
  · exact Or.inr rfl
  · exact Or.inl rfl

variable [LinearOrder P]

/-- Both orders credited with the traded quantity, and the trade counted. -/
def traded (book : OrderBook P) (b a : OrderPtr) (clock : Clock) : OrderBook P :=
  let qty := tradeQty (book.order b) (book.order a)
  { (book.setOrder b ((book.order b).filled qty (clock 0))).setOrder a
      ((book.order a).filled qty (clock 1)) with
    tradesCompleted := book.tradesCompleted + 1 }

theorem traded_slot (book : OrderBook P) {b a : OrderPtr} (hne : b.slot ≠ a.slot) (clock : Clock)
    (i : ℕ) : (book.traded b a clock).slot i =
      if i = b.slot then (book.order b).filled (tradeQty (book.order b) (book.order a)) (clock 0)
      else if i = a.slot then
        (book.order a).filled (tradeQty (book.order b) (book.order a)) (clock 1)
      else book.slot i := by
  show ((book.setOrder b _).setOrder a _).slot i = _
  rw [setOrder_slot, setOrder_slot]
  by_cases hb : i = b.slot
  · rw [if_pos hb, if_pos hb, if_neg (fun h => hne (hb.symm.trans h))]
  · rw [if_neg hb, if_neg hb]

/-- A trade leaves all ids alone. -/
theorem traded_id (book : OrderBook P) {b a : OrderPtr} (hne : b.slot ≠ a.slot) (clock : Clock)
    (q : OrderPtr) :
    ((book.traded b a clock).orderPool.get q).id = (book.orderPool.get q).id := by
  show ((book.traded b a clock).slot q.slot).id = (book.slot q.slot).id
  rw [traded_slot book hne]
  split
  · next heq => simp [heq, order, OrderPool.get]
  · split
    · next heq => simp [heq, order, OrderPool.get]
    · rfl

/-- Two orders that are not overfilled trade without an exception. -/
theorem matchOrders_eq {book : OrderBook P} {b a : OrderPtr} (hne : b.slot ≠ a.slot)
    (hb : (book.order b).quantityFilled ≤ (book.order b).quantity)
    (ha : (book.order a).quantityFilled ≤ (book.order a).quantity) (clock : Clock) :
    book.matchOrders b a clock = .ok
      ((book.setOrder b ((book.order b).filled (tradeQty (book.order b) (book.order a))
          (clock 0))).setOrder a
        ((book.order a).filled (tradeQty (book.order b) (book.order a)) (clock 1))) := by
  have hbid := Order.matchFill_of_le (clock 0) hb (tradeQty_le_bid (book.order b) (book.order a))
  have hask := Order.matchFill_of_le (clock 1) ha (tradeQty_le_ask (book.order b) (book.order a))
  -- The second order is read after the first was written.
  have hkeep : ∀ o, (book.setOrder b o).order a = book.order a :=
    fun o => OrderPool.get_set_ne _ (Ne.symm hne) o
  simp only [matchOrders]
  show (Order.matchFill (book.order b) (tradeQty (book.order b) (book.order a))
    (clock 0)).bind _ = _
  rw [hbid]
  simp only [Except.bind, hkeep]
  show (Order.matchFill (book.order a) (tradeQty (book.order b) (book.order a))
    (clock 1)).bind _ = _
  rw [hask]
  rfl

theorem matchOrders_ok {book : OrderBook P} {b a : OrderPtr} (hne : b.slot ≠ a.slot)
    (hb : (book.order b).quantityFilled ≤ (book.order b).quantity)
    (ha : (book.order a).quantityFilled ≤ (book.order a).quantity) (clock : Clock) :
    ({ book with
        tradesCompleted := book.tradesCompleted + 1 } : OrderBook P).matchOrders b a clock =
      .ok (book.traded b a clock) := by
  obtain ⟨counted, hcounted⟩ : ∃ counted : OrderBook P,
      counted = { book with tradesCompleted := book.tradesCompleted + 1 } := ⟨_, rfl⟩
  have horder : counted.order = book.order := by rw [hcounted]
  rw [← hcounted, matchOrders_eq hne (by rw [horder]; exact hb) (by rw [horder]; exact ha) clock,
    hcounted]
  rfl

/-! ### One iteration -/

/-- One iteration of the loop: for both sides the level `it` at the front of
    the map, the entry at its head, and the level after the pop. -/
structure Iteration (book book' : OrderBook P) where
  it     : OrderSide → P × PriceLevel P
  entry  : OrderSide → OrderEntry
  lvl'   : OrderSide → PriceLevel P
  clock  : Clock
  front  : ∀ side, (book.levels side).front? = some (it side)
  head   : ∀ side, (it side).2.orderEntries[(it side).2.queueHeadIndex]? = some (entry side)
  ne     : (entry .buy).order.slot ≠ (entry .sell).order.slot
  popped : ∀ side, PriceLevel.Popped book'.orderPool.get (it side).2 (entry side) (lvl' side)
  wf     : ∀ side, (lvl' side).WF book'.orderPool.get
  levels : ∀ side, book'.levels side = putLevel (book.levels side) (it side).1 (lvl' side)
  rest   : book' = { book.traded (entry .buy).order (entry .sell).order clock with
                     levels := book'.levels }

namespace Iteration
variable {book book' : OrderBook P}

/-- The order that trades on a side. -/
abbrev ptr (x : Iteration book book') (side : OrderSide) : OrderPtr := (x.entry side).order

/-- The quantity that is traded. -/
def qty (x : Iteration book book') : Quantity :=
  tradeQty (book.order (x.ptr .buy)) (book.order (x.ptr .sell))

theorem find (x : Iteration book book') (side : OrderSide) :
    (book.levels side).find? (x.it side).1 = some (x.it side).2 :=
  (SortedMap.front?_eq_some_iff.mp (x.front side)).1

theorem orderPool_eq (x : Iteration book book') :
    book'.orderPool = (book.traded (x.ptr .buy) (x.ptr .sell) x.clock).orderPool := by
  have h := congrArg OrderBook.orderPool x.rest
  exact h

theorem slot_ptr (x : Iteration book book') (side : OrderSide) :
    ∃ now, book'.order (x.ptr side) = (book.order (x.ptr side)).filled x.qty now := by
  have hslot := traded_slot book x.ne x.clock (x.ptr side).slot
  rw [slot, ← x.orderPool_eq] at hslot
  cases side
  · exact ⟨x.clock 0, hslot.trans (if_pos rfl)⟩
  · exact ⟨x.clock 1, hslot.trans ((if_neg x.ne.symm).trans (if_pos rfl))⟩

theorem slot_other (x : Iteration book book') {i : ℕ} (h : ∀ side, i ≠ (x.ptr side).slot) :
    book'.slot i = book.slot i := by
  have hslot := traded_slot book x.ne x.clock i
  rw [if_neg (h .buy), if_neg (h .sell), slot, ← x.orderPool_eq] at hslot
  exact hslot

/-- A slot is left alone, or it holds one of the two orders that trade. -/
theorem slot_cases (x : Iteration book book') (i : ℕ) :
    ((∀ side, i ≠ (x.ptr side).slot) ∧ book'.slot i = book.slot i) ∨
      ∃ side now, i = (x.ptr side).slot ∧ book'.slot i = (book.slot i).filled x.qty now := by
  by_cases hother : ∀ side, i ≠ (x.ptr side).slot
  · exact Or.inl ⟨hother, x.slot_other hother⟩
  · push Not at hother
    obtain ⟨side, rfl⟩ := hother
    obtain ⟨now, hnow⟩ := x.slot_ptr side
    exact Or.inr ⟨side, now, rfl, hnow⟩

/-- Of every order only the fill, the status and the time can change. -/
theorem slot_same (x : Iteration book book') (i : ℕ) :
    (book'.slot i).id = (book.slot i).id ∧ (book'.slot i).side = (book.slot i).side ∧
      (book'.slot i).price = (book.slot i).price ∧
      (book'.slot i).quantity = (book.slot i).quantity := by
  rcases x.slot_cases i with ⟨-, hsame⟩ | ⟨side, now, -, hfilled⟩
  · rw [hsame]
    exact ⟨rfl, rfl, rfl, rfl⟩
  · rw [hfilled]
    exact ⟨rfl, rfl, rfl, rfl⟩

theorem nextFreeIndex_eq (x : Iteration book book') :
    book'.orderPool.nextFreeIndex = book.orderPool.nextFreeIndex := by
  rw [x.orderPool_eq]
  rfl

theorem accepted_iff (x : Iteration book book') (i : ℕ) : book'.Accepted i ↔ book.Accepted i := by
  unfold Accepted
  rw [x.nextFreeIndex_eq]

theorem registry_eq (x : Iteration book book') : book'.orderRegistry = book.orderRegistry := by
  have h := congrArg OrderBook.orderRegistry x.rest
  exact h

theorem trades_eq (x : Iteration book book') :
    book'.tradesCompleted = book.tradesCompleted + 1 := by
  have h := congrArg OrderBook.tradesCompleted x.rest
  exact h

/-- The levels after the iteration. -/
theorem find? (x : Iteration book book') (side : OrderSide) (k : P) :
    (book'.levels side).find? k =
      if k = (x.it side).1 then (if (x.lvl' side).empty then none else some (x.lvl' side))
      else (book.levels side).find? k := by
  rw [x.levels side, find?_putLevel]

theorem qty_le (x : Iteration book book') (side : OrderSide) :
    x.qty ≤ (book.order (x.ptr side)).available := by
  cases side
  · exact tradeQty_le_bid _ _
  · exact tradeQty_le_ask _ _

/-- One of the two orders is filled completely. -/
theorem exists_filled (x : Iteration book book') :
    ∃ side, x.qty = (book.order (x.ptr side)).available := by
  rcases tradeQty_eq_or (book.order (x.ptr .buy)) (book.order (x.ptr .sell)) with h | h
  · exact ⟨.buy, h⟩
  · exact ⟨.sell, h⟩

theorem status_ptr (x : Iteration book book') (side : OrderSide) :
    (book'.order (x.ptr side)).status =
      if x.qty = (book.order (x.ptr side)).available then .fullyFilled else .partiallyFilled := by
  obtain ⟨now, hnow⟩ := x.slot_ptr side
  rw [hnow]
  rfl

end Iteration

/-- On a sound book with crossing best levels the body of the loop runs
    through. -/
theorem matchBest_ok {book : OrderBook P} (h : book.Sound) {bidIt askIt : P × PriceLevel P}
    (hb : book.bids.front? = some bidIt) (ha : book.asks.front? = some askIt) (clock : Clock) :
    ∃ book', book.matchBest bidIt askIt clock = .ok book' ∧ Nonempty (Iteration book book') := by
  have hbf := (SortedMap.front?_eq_some_iff.mp hb).1
  have haf := (SortedMap.front?_eq_some_iff.mp ha).1
  have hbl := h.level _ _ _ hbf
  have hal := h.level _ _ _ haf
  obtain ⟨eb, heb, hbfront⟩ := hbl.wf.front_ok hbl.not_empty
  obtain ⟨ea, hea, hafront⟩ := hal.wf.front_ok hal.not_empty
  obtain ⟨hbacc, hbside⟩ := hbl.entries eb (List.mem_of_getElem? heb)
  obtain ⟨haacc, haside⟩ := hal.entries ea (List.mem_of_getElem? hea)
  -- The two orders are on different sides, so in different slots.
  have hne : eb.order.slot ≠ ea.order.slot := by
    intro heq
    have hcontra : (book.order eb.order).side = (book.order ea.order).side :=
      congrArg (fun i => (book.slot i).side) heq
    rw [hbside, haside] at hcontra
    cases hcontra
  -- The levels only look at ids, which the trade leaves alone.
  have hids : ∀ lvl : PriceLevel P, lvl.WF book.orderPool.get →
      lvl.WF (book.traded eb.order ea.order clock).orderPool.get := fun lvl hwf =>
    hwf.congr fun e _ => traded_id book hne clock e.order
  obtain ⟨bl', hbpop, hbpopped, hbwf⟩ := PriceLevel.popFront_ok (hids _ hbl.wf) hbl.not_empty heb
  obtain ⟨al', hapop, hapopped, hawf⟩ := PriceLevel.popFront_ok (hids _ hal.wf) hal.not_empty hea
  have htrade := matchOrders_ok hne (h.filled_le _ hbacc) (h.filled_le _ haacc) clock
  refine ⟨((book.traded eb.order ea.order clock).setLevels .buy
      (putLevel book.bids bidIt.1 bl')).setLevels .sell (putLevel book.asks askIt.1 al'), ?_, ⟨?_⟩⟩
  · simp only [matchBest, hbfront, hafront, bind, Except.bind, htrade, hbpop, hapop]
    rfl
  · exact
      { it := OrderSide.pick bidIt askIt
        entry := OrderSide.pick eb ea
        lvl' := OrderSide.pick bl' al'
        clock := clock
        front := fun side => by cases side <;> assumption
        head := fun side => by cases side <;> assumption
        ne := hne
        popped := fun side => by cases side <;> assumption
        wf := fun side => by cases side <;> assumption
        levels := fun side => by cases side <;> rfl
        rest := rfl }

theorem Iteration.accepted {book book' : OrderBook P} (x : Iteration book book')
    (hs : book.Sound) (side : OrderSide) :
    book.Accepted (x.ptr side).slot ∧ (book.order (x.ptr side)).side = side :=
  (hs.level _ _ _ (x.find side)).entries _ (List.mem_of_getElem? (x.head side))

/-- An accepted order keeps its id and its side. -/
theorem Iteration.kept {book book' : OrderBook P} (x : Iteration book book') (i : ℕ)
    (hi : book.Accepted i) : book'.Accepted i ∧ (book'.slot i).id = (book.slot i).id ∧
      (book'.slot i).side = (book.slot i).side :=
  ⟨(x.accepted_iff i).mpr hi, (x.slot_same i).1, (x.slot_same i).2.1⟩

theorem Iteration.pool_sound {book book' : OrderBook P} (x : Iteration book book')
    (h : book.Sound) : book'.orderPool.Sound := by
  constructor
  case unused =>
    intro i hi hlt
    rw [x.nextFreeIndex_eq] at hi
    have hne : ∀ side, i ≠ (x.ptr side).slot := by
      intro side heq
      have hacc := (x.accepted h side).1
      unfold Accepted at hacc
      omega
    have hsize : book'.orderPool.orders.size = book.orderPool.orders.size := by
      rw [x.orderPool_eq]
      rfl
    show (book'.slot i).quantityFilled = 0 ∧ (book'.slot i).status = .new
    rw [x.slot_other hne]
    exact h.pool.unused i hi (by rw [← hsize]; exact hlt)
  case next_le =>
    rw [x.orderPool_eq]
    exact h.pool.next_le
  case size_pos =>
    rw [x.orderPool_eq]
    exact h.pool.size_pos

/-- The entries of a popped level are those it had. -/
theorem Iteration.lvl'_entries {book book' : OrderBook P} (x : Iteration book book')
    (h : book.Sound) (side : OrderSide) : book'.EntriesSound side (x.lvl' side) := by
  intro e he
  obtain ⟨y, hy, hye⟩ := (x.popped side).entries (x.head side) e he
  have hsound := ((h.level _ _ _ (x.find side)).congr x.kept).entries y hy
  rwa [hye] at hsound

theorem Iteration.sound {book book' : OrderBook P} (x : Iteration book book') (h : book.Sound) :
    book'.Sound := by
  constructor
  case pool => exact x.pool_sound h
  case filled_le =>
    intro i hi
    have hi := (x.accepted_iff i).mp hi
    rcases x.slot_cases i with ⟨-, hsame⟩ | ⟨side, now, rfl, hfilled⟩
    · rw [hsame]
      exact h.filled_le i hi
    · rw [hfilled]
      exact Order.filled_add_le (h.filled_le _ hi) (x.qty_le side)
  case registered =>
    intro id p hp
    rw [x.registry_eq] at hp
    obtain ⟨hslot, hid⟩ := h.registered id p hp
    exact ⟨(x.kept _ hslot).1, (x.kept _ hslot).2.1.trans hid⟩
  case level =>
    intro side k lvl hlvl
    rw [x.find?] at hlvl
    split at hlvl
    · split at hlvl
      · cases hlvl
      · next hne =>
        cases hlvl
        exact ⟨by simpa using hne, x.wf side, x.lvl'_entries h side⟩
    · exact (h.level side k lvl hlvl).congr x.kept

/-- An order that is not filled up by the trade has something left. -/
theorem Iteration.filled_lt {book book' : OrderBook P} (x : Iteration book book') (hs : book.Sound)
    {side : OrderSide} (hst : (book'.order (x.ptr side)).status ≠ .fullyFilled) :
    (book'.order (x.ptr side)).quantityFilled < (book'.order (x.ptr side)).quantity := by
  have hacc := (x.accepted hs side).1
  have hopen : x.qty ≠ (book.order (x.ptr side)).available := by
    intro heq
    rw [x.status_ptr, if_pos heq] at hst
    exact hst rfl
  have hle := Order.filled_add_le (hs.filled_le _ hacc) (x.qty_le side)
  have hne := mt (Order.filled_add_eq_iff (hs.filled_le _ hacc) (x.qty_le side)).mp hopen
  obtain ⟨now, hnow⟩ := x.slot_ptr side
  rw [hnow]
  exact UInt64.lt_of_le_of_ne hle hne

/-! ### The loop -/

/-- The best levels of a book cross. -/
def Crossing (book : OrderBook P) : Prop :=
  ∃ bidIt askIt, book.bids.front? = some bidIt ∧ book.asks.front? = some askIt ∧
    askIt.1 ≤ bidIt.1

/-- A side is empty or the best bid is below the best ask. -/
def Uncrossed (book : OrderBook P) : Prop :=
  book.bids.front? = none ∨ book.asks.front? = none ∨
    ∃ bidIt askIt, book.bids.front? = some bidIt ∧ book.asks.front? = some askIt ∧
      bidIt.1 < askIt.1

/-- From one iteration of the loop to the next. -/
def LoopStep (book book' : OrderBook P) : Prop :=
  ∃ bidIt askIt clock, book.bids.front? = some bidIt ∧ book.asks.front? = some askIt ∧
    askIt.1 ≤ bidIt.1 ∧ book.matchBest bidIt askIt clock = .ok book'

theorem LoopStep.iteration {book book' : OrderBook P} (hs : LoopStep book book') (h : book.Sound) :
    ∃ x : Iteration book book', (x.it .sell).1 ≤ (x.it .buy).1 := by
  obtain ⟨bidIt, askIt, clock, hb, ha, hle, hok⟩ := hs
  obtain ⟨book'', hok', ⟨x⟩⟩ := matchBest_ok h hb ha clock
  rw [hok, Except.ok.injEq] at hok'
  subst hok'
  refine ⟨x, ?_⟩
  have hxb := x.front .buy
  have hxa := x.front .sell
  rw [hb, Option.some.injEq] at hxb
  rw [ha, Option.some.injEq] at hxa
  rw [← hxb, ← hxa]
  exact hle

theorem pendingEntries_putLevel {side : OrderSide} {lvs : SideLevels P side} {k : P}
    {lvl : PriceLevel P} (h : lvs.find? k = some lvl) (lvl' : PriceLevel P) :
    pendingEntries (putLevel lvs k lvl') + lvl.pending =
      pendingEntries lvs + (if lvl'.empty then 0 else lvl'.pending) := by
  obtain ⟨l₁, l₂, hes, -, -, hput⟩ := putLevel_entries h
  simp only [pendingEntries, hes, hput]
  split <;> simp [PriceLevel.pending] <;> omega

/-- Every iteration uses up an entry. -/
theorem Iteration.pending_lt {book book' : OrderBook P} (x : Iteration book book') :
    pendingEntries book'.bids + pendingEntries book'.asks <
      pendingEntries book.bids + pendingEntries book.asks := by
  have hlt : ∀ side, (x.it side).2.queueHeadIndex < (x.it side).2.orderEntries.length :=
    fun side => (List.getElem?_eq_some_iff.mp (x.head side)).1
  have hside : ∀ side, pendingEntries (book'.levels side) + (x.it side).2.pending =
      pendingEntries (book.levels side) +
        (if (x.lvl' side).empty then 0 else (x.lvl' side).pending) := by
    intro side
    rw [x.levels side]
    exact pendingEntries_putLevel (x.find side) (x.lvl' side)
  have hb := hside .buy
  have ha := hside .sell
  have hble := (x.popped .buy).pending_le (hlt .buy)
  have hale := (x.popped .sell).pending_le (hlt .sell)
  -- The order that is filled up uses up an entry on its side, and the other side gains none.
  obtain ⟨side, hqty⟩ := x.exists_filled
  have hst : (book'.order (x.ptr side)).status = .fullyFilled := by
    rw [x.status_ptr, if_pos hqty]
  have hlt' := (x.popped side).pending_lt (hlt side) hst
  show pendingEntries (book'.levels .buy) + pendingEntries (book'.levels .sell) <
    pendingEntries (book.levels .buy) + pendingEntries (book.levels .sell)
  cases side <;> omega

/-- What the loop does on a sound book: it makes some iterations, stops on an
    uncrossed book, and clears the flag on one of its exits. -/
theorem tryMatchLoop_ok {book : OrderBook P} (h : book.Sound) {fuel : ℕ}
    (hfuel : pendingEntries book.bids + pendingEntries book.asks < fuel) (clock : Clock)
    (matched : Bool) :
    ∃ matched' last book', tryMatchLoop fuel clock matched book = .ok (matched', book') ∧
      Relation.ReflTransGen LoopStep book last ∧ Uncrossed last ∧
      (book' = last ∨ book' = { last with tryMatchFlag := false }) := by
  induction fuel generalizing book clock matched with
  | zero => omega
  | succ fuel ih =>
    simp only [tryMatchLoop]
    cases hb : book.bids.front? with
    | none => exact ⟨_, _, _, rfl, .refl, Or.inl hb, Or.inl rfl⟩
    | some bidIt =>
      cases ha : book.asks.front? with
      | none => exact ⟨_, _, _, rfl, .refl, Or.inr (Or.inl ha), Or.inl rfl⟩
      | some askIt =>
        by_cases hle : askIt.1 ≤ bidIt.1
        · -- One iteration, and the rest of the loop on fewer entries.
          obtain ⟨book₁, hok, ⟨x⟩⟩ := matchBest_ok h hb ha clock
          have hlt := x.pending_lt
          obtain ⟨m, last, book', hloop, hsteps, hun, hflag⟩ :=
            ih (x.sound h) (by omega) (clock.skip 2) true
          refine ⟨m, last, book', ?_, .head ⟨_, _, _, hb, ha, hle, hok⟩ hsteps, hun, hflag⟩
          simp only [if_pos hle, hok, bind, Except.bind]
          exact hloop
        · refine ⟨matched, book, { book with tryMatchFlag := false }, by simp only [if_neg hle],
            .refl, ?_, Or.inr rfl⟩
          exact Or.inr (Or.inr ⟨_, _, hb, ha, not_le.mp hle⟩)

/-- **Invariant rule for the loop.** -/
theorem loop_invariant {I : OrderBook P → Prop}
    (hstep : ∀ book book' (x : Iteration book book'), book.Sound →
      (x.it .sell).1 ≤ (x.it .buy).1 → I book → I book')
    {book last : OrderBook P} (hsteps : Relation.ReflTransGen LoopStep book last)
    (h : book.Sound) (hinv : I book) : last.Sound ∧ I last := by
  induction hsteps with
  | refl => exact ⟨h, hinv⟩
  | tail _ hlast ih =>
    obtain ⟨x, hx⟩ := hlast.iteration ih.1
    exact ⟨x.sound ih.1, hstep _ _ x ih.1 hx ih.2⟩

/-- What `try_match` does on a sound book. -/
theorem tryMatch_ok {book : OrderBook P} (h : book.Sound) (clock : Clock) :
    ∃ matched last book', book.tryMatch clock = .ok (matched, book') ∧
      Relation.ReflTransGen LoopStep book last ∧
      (book.tryMatchFlag = true → Uncrossed last) ∧ (book.tryMatchFlag = false → last = book) ∧
      (book' = last ∨ book' = { last with tryMatchFlag := false }) := by
  unfold tryMatch
  cases hflag : book.tryMatchFlag with
  | false => exact ⟨false, book, book, by simp, .refl, by simp, by simp, Or.inl rfl⟩
  | true =>
    obtain ⟨m, last, book', hloop, hsteps, hun, hor⟩ :=
      tryMatchLoop_ok h (Nat.lt_succ_self _) clock false
    exact ⟨m, last, book', by simpa [matchFuel] using hloop, hsteps, fun _ => hun, by simp, hor⟩

variable [Zero P]

/-- What `add_order` does on a sound book: it queues the order, makes some
    iterations of the loop, and returns the id. -/
theorem addOrder_ok {book : OrderBook P} (h : book.Sound) (alloc : IdAllocator)
    (client : Order P) (clock : Clock) :
    ∃ id p queued last book' alloc', Enqueued book client id p queued ∧
      book.addOrder alloc client clock = .ok (id, book', alloc') ∧
      Relation.ReflTransGen LoopStep queued last ∧
      (queued.tryMatchFlag = true → Uncrossed last) ∧
      (queued.tryMatchFlag = false → last = queued) ∧
      (book' = last ∨ book' = { last with tryMatchFlag := false }) := by
  obtain ⟨p, hq⟩ := enqueueOrder_spec h.pool alloc client clock
  obtain ⟨m, last, book', hok, hsteps, hun, hsame, hor⟩ :=
    tryMatch_ok (hq.sound h) (book.enqueueOrder alloc client clock).2.2.2
  refine ⟨_, p, _, last, book', (book.enqueueOrder alloc client clock).2.2.1, hq, ?_, hsteps, hun,
    hsame, hor⟩
  simp only [addOrder, hok, bind, Except.bind]

end OrderBook
end Orderbook
