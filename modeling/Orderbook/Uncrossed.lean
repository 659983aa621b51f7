import Orderbook.Runs

/-! # When the book stays uncrossed

    `add_order` matches whenever it opens a price level, and leaves the set
    of prices alone otherwise.  `modify_order` moves an order to another
    price and returns from inside its `try` block, before the `try_match()`
    behind it: a move to a price that crosses the other side leaves the book
    crossed.  No other call does; in particular `add_order` may skip the loop
    when it joins a level that is there. -/

namespace Orderbook
namespace OrderBook
variable {P : Type} [LinearOrder P]

/-! ### Uncrossed, as a relation between the prices of the two sides -/

/-- A side has a level at this price. -/
def Priced (book : OrderBook P) (side : OrderSide) (price : P) : Prop :=
  ∃ lvl, (book.levels side).find? price = some lvl

/-- An order of `side` at `price` could trade with a level of the other side. -/
def Crosses (book : OrderBook P) : OrderSide → P → Prop
  | .buy, price => ∃ ask, book.Priced .sell ask ∧ ask ≤ price
  | .sell, price => ∃ bid, book.Priced .buy bid ∧ price ≤ bid

theorem uncrossed_iff {book : OrderBook P} :
    book.Uncrossed ↔ ∀ bid ask, book.Priced .buy bid → book.Priced .sell ask → bid < ask := by
  constructor
  · rintro (hb | ha | ⟨⟨b, lb⟩, ⟨a, la⟩, hb, ha, hlt⟩) bid ask ⟨lvlb, hbid⟩ ⟨lvla, hask⟩
    · rw [SortedMap.front?_eq_none_iff.mp hb bid] at hbid
      cases hbid
    · rw [SortedMap.front?_eq_none_iff.mp ha ask] at hask
      cases hask
    · have hle : bid ≤ b := by
        rcases (SortedMap.front?_eq_some_iff.mp hb).2 bid lvlb hbid with rfl | h
        · exact le_refl _
        · exact le_of_lt h
      have hge : a ≤ ask := by
        rcases (SortedMap.front?_eq_some_iff.mp ha).2 ask lvla hask with rfl | h
        · exact le_refl _
        · exact le_of_lt h
      exact lt_of_le_of_lt hle (lt_of_lt_of_le hlt hge)
  · intro h
    cases hb : book.bids.front? with
    | none => exact Or.inl hb
    | some bidIt =>
      cases ha : book.asks.front? with
      | none => exact Or.inr (Or.inl ha)
      | some askIt =>
        exact Or.inr (Or.inr ⟨bidIt, askIt, hb, ha, h _ _
          ⟨_, (SortedMap.front?_eq_some_iff.mp hb).1⟩ ⟨_, (SortedMap.front?_eq_some_iff.mp ha).1⟩⟩)

theorem not_uncrossed_of_fronts {book : OrderBook P} {bid ask : P}
    (hb : book.bids.front?.map Prod.fst = some bid) (ha : book.asks.front?.map Prod.fst = some ask)
    (hle : ask ≤ bid) : ¬ book.Uncrossed := by
  obtain ⟨bidIt, hbid, rfl⟩ := Option.map_eq_some_iff.mp hb
  obtain ⟨askIt, hask, rfl⟩ := Option.map_eq_some_iff.mp ha
  rw [uncrossed_iff]
  intro h
  exact not_lt.mpr hle (h _ _ ⟨_, (SortedMap.front?_eq_some_iff.mp hbid).1⟩
    ⟨_, (SortedMap.front?_eq_some_iff.mp hask).1⟩)

/-- Fewer prices, still uncrossed. -/
theorem Uncrossed.mono {book book' : OrderBook P} (h : book.Uncrossed)
    (hsub : ∀ side k, book'.Priced side k → book.Priced side k) : book'.Uncrossed :=
  uncrossed_iff.mpr fun bid ask hb ha =>
    uncrossed_iff.mp h bid ask (hsub _ _ hb) (hsub _ _ ha)

/-- One more price on one side: uncrossed as long as it does not cross. -/
theorem uncrossed_iff_not_crosses {book book' : OrderBook P} (h : book.Uncrossed)
    {side : OrderSide} {price : P} (hnew : book'.Priced side price)
    (hself : ∀ k, book'.Priced side k → k = price ∨ book.Priced side k)
    (hother : ∀ side', side' ≠ side → ∀ k, book'.Priced side' k ↔ book.Priced side' k) :
    book'.Uncrossed ↔ ¬ book.Crosses side price := by
  rw [uncrossed_iff] at h ⊢
  cases side with
  | buy =>
    have hask := hother .sell (by simp)
    constructor
    · rintro hun ⟨ask, ha, hle⟩
      exact absurd (hun price ask hnew ((hask ask).mpr ha)) (not_lt.mpr hle)
    · intro hnot bid ask hb ha
      rcases hself bid hb with rfl | hb
      · exact not_le.mp fun hle => hnot ⟨ask, (hask ask).mp ha, hle⟩
      · exact h bid ask hb ((hask ask).mp ha)
  | sell =>
    have hbid := hother .buy (by simp)
    constructor
    · rintro hun ⟨bid, hb, hle⟩
      exact absurd (hun bid price ((hbid bid).mpr hb) hnew) (not_lt.mpr hle)
    · intro hnot bid ask hb ha
      rcases hself ask ha with rfl | ha
      · exact not_le.mp fun hle => hnot ⟨bid, (hbid bid).mp hb, hle⟩
      · exact h bid ask ((hbid bid).mp hb) ha

/-! ### What the calls do to the prices -/

theorem priced_putLevel {book : OrderBook P} {side : OrderSide} {key k : P}
    {lvl lvl' : PriceLevel P}
    (hlvl : (book.levels side).find? key = some lvl)
    (h : ∃ l, (putLevel (book.levels side) key lvl').find? k = some l) : book.Priced side k := by
  obtain ⟨l, hl⟩ := h
  rw [find?_putLevel] at hl
  split at hl
  · next hk => exact ⟨lvl, hk ▸ hlvl⟩
  · exact ⟨l, hl⟩

theorem CancelOutcome.priced {book book' : OrderBook P} {id : OrderId} {b : Bool}
    (ho : CancelOutcome book id b book') (side : OrderSide) (k : P) (h : book'.Priced side k) :
    book.Priced side k := by
  cases ho with
  | unknown _ => exact h
  | dead _ _ _ => exact h
  | cancelled p lvl lvl' now hreg hlive hlvl hrem hwf =>
    unfold Priced at h
    simp only [find?_setLevels] at h
    split at h
    · next heq =>
      subst heq
      exact priced_putLevel hlvl h
    · exact h

variable [Zero P]

/-- An accepted call of `modify_order` that changes the price of its order to
    one that crosses the other side. -/
def CrossingModify (book : OrderBook P) (id : OrderId) (price : P) (qty : Quantity) : Prop :=
  ∃ p, book.orderRegistry.find? id = some p ∧ (book.order p).Live ∧
    book.validateModifyOrder p price qty = true ∧ price ≠ (book.order p).price ∧
    book.Crosses (book.order p).side price

theorem crossingModify_iff {book : OrderBook P} {id : OrderId} {price : P} {qty : Quantity}
    {p : OrderPtr} (hreg : book.orderRegistry.find? id = some p) :
    book.CrossingModify id price qty ↔ (book.order p).Live ∧
      book.validateModifyOrder p price qty = true ∧ price ≠ (book.order p).price ∧
      book.Crosses (book.order p).side price := by
  constructor
  · intro h
    obtain ⟨p', hreg', hrest⟩ := h
    rw [hreg, Option.some.injEq] at hreg'
    subst hreg'
    exact hrest
  · intro h
    exact ⟨p, hreg, h⟩

omit [Zero P] in
/-- An order that is queued again at its price leaves the prices alone. -/
theorem priced_requeued {book : OrderBook P} {p : OrderPtr} {o : Order P} {price : P}
    {lvl l : PriceLevel P} (hlvl : (book.levels (book.order p).side).find? price = some lvl)
    (side : OrderSide) (k : P)
    (h : ((book.setOrder p o).setLevels (book.order p).side
      ((book.levels (book.order p).side).insert price l)).Priced side k) : book.Priced side k := by
  unfold Priced at h
  simp only [find?_setLevels] at h
  split at h
  · next heq =>
    subst heq
    simp only [SortedMap.find?_insert] at h
    split at h
    · next hk => exact ⟨lvl, hk ▸ hlvl⟩
    · exact h
  · exact h

/-- `modify_order` keeps the book uncrossed exactly when it does not move an
    order across the spread. -/
theorem ModifyOutcome.uncrossed_iff {book book' : OrderBook P} {id : OrderId} {price : P}
    {qty : Quantity} {b : Bool} (ho : ModifyOutcome book id price qty b book')
    (h : book.Uncrossed) : book'.Uncrossed ↔ ¬ book.CrossingModify id price qty := by
  have hkept : ∀ p, book.orderRegistry.find? id = some p → price = (book.order p).price →
      ¬ book.CrossingModify id price qty := by
    intro p hreg hprice
    rw [crossingModify_iff hreg]
    exact fun hc => hc.2.2.1 hprice
  cases ho with
  | unknown hreg =>
    refine iff_of_true h ?_
    intro hc
    obtain ⟨p, hreg', -⟩ := hc
    rw [hreg] at hreg'
    cases hreg'
  | dead p hreg hdead =>
    rw [crossingModify_iff hreg]
    exact iff_of_true h fun hc => hdead hc.1
  | invalid p hreg hlive hbad =>
    rw [crossingModify_iff hreg]
    refine iff_of_true h ?_
    intro hc
    obtain ⟨hpos, hlt⟩ := validateModifyOrder_iff.mp hc.2.1
    rcases hbad with hbad | hbad
    · exact absurd hpos (not_lt.mpr hbad)
    · exact absurd hlt (UInt64.not_lt.mpr hbad)
  | same p hreg hlive hpos hqty hprice hsame => exact iff_of_true h (hkept p hreg hprice)
  | reduced p hreg hlive hpos hqty hprice hlt => exact iff_of_true h (hkept p hreg hprice)
  | requeued p lvl lvl' hreg hlive hpos hqty hprice hgt hlvl hrem hwf =>
    exact iff_of_true (h.mono (priced_requeued hlvl)) (hkept p hreg hprice)
  | moved p lvl lvl' now hreg hlive hpos hqty hprice hlvl hrem hwf =>
    have hvalid := validateModifyOrder_iff.mpr ⟨hpos, hqty⟩
    have hcross : book.CrossingModify id price qty ↔ book.Crosses (book.order p).side price := by
      rw [crossingModify_iff hreg]
      exact ⟨fun hc => hc.2.2.2, fun hc => ⟨hlive, hvalid, hprice, hc⟩⟩
    rw [hcross]
    -- One price more on the order's own side, and perhaps one less.
    apply uncrossed_iff_not_crosses h
    · exact ⟨_, by simp; rfl⟩
    · intro k hk
      obtain ⟨l, hl⟩ := hk
      simp only [setLevels_levels_self, SortedMap.find?_insert] at hl
      split at hl
      · next hk => exact Or.inl hk
      · exact Or.inr (priced_putLevel hlvl ⟨l, hl⟩)
    · intro side' hne k
      unfold Priced
      simp only [setLevels_levels_ne _ hne, setOrder_levels]

omit [Zero P] in
/-- Queueing into a level that exists leaves the prices alone. -/
theorem Enqueued.uncrossed {book queued : OrderBook P} {client : Order P} {id : OrderId}
    {p : OrderPtr} (hq : Enqueued book client id p queued) (hflag : queued.tryMatchFlag = false)
    (h : book.Uncrossed) : queued.Uncrossed := by
  refine h.mono ?_
  intro side k hk
  obtain ⟨l, hl⟩ := hk
  rw [hq.find?] at hl
  split at hl
  · next hat =>
    obtain ⟨rfl, rfl⟩ := hat
    rw [hq.flag, Option.isNone_eq_false_iff, Option.isSome_iff_exists] at hflag
    exact hflag
  · exact ⟨l, hl⟩

omit [Zero P] in
/-- The book on which the loop stops, or that was not matched at all. -/
theorem Enqueued.uncrossed_last {book queued last book' : OrderBook P} {client : Order P}
    {id : OrderId} {p : OrderPtr} (hq : Enqueued book client id p queued)
    (hloop : queued.tryMatchFlag = true → last.Uncrossed)
    (hsame : queued.tryMatchFlag = false → last = queued)
    (hor : book' = last ∨ book' = { last with tryMatchFlag := false }) (h : book.Uncrossed) :
    book'.Uncrossed := by
  have hlast : last.Uncrossed := by
    cases hflag : queued.tryMatchFlag with
    | true => exact hloop hflag
    | false => exact hsame hflag ▸ hq.uncrossed hflag h
  rcases hor with rfl | rfl
  · exact hlast
  · exact hlast.mono fun _ _ hk => hk

/-! ### The skip in `try_match` -/

/-- `add_order` with a `try_match` that does not look at the flag and always
    runs its loop. -/
def addOrderAlways (book : OrderBook P) (alloc : IdAllocator) (client : Order P) (clock : Clock) :
    Except Fault (OrderId × OrderBook P × IdAllocator) :=
  let (orderId, book, alloc, clock) := book.enqueueOrder alloc client clock
  do
    let (_, book) ← tryMatchLoop book.matchFuel clock false book
    .ok (orderId, book, alloc)

omit [Zero P] in
/-- The loop makes no iteration on an uncrossed book; all it can do is clear
    a flag. -/
theorem Uncrossed.tryMatchLoop_eq {book : OrderBook P} (h : book.Uncrossed)
    (hflag : book.tryMatchFlag = false) (fuel : ℕ) (clock : Clock) (matched : Bool) :
    tryMatchLoop (fuel + 1) clock matched book = .ok (matched, book) := by
  have hclear : ({ book with tryMatchFlag := false } : OrderBook P) = book := by rw [← hflag]
  rcases h with hb | ha | ⟨bidIt, askIt, hb, ha, hlt⟩
  · simp only [tryMatchLoop, hb]
  · cases hb : book.bids.front? <;> simp only [tryMatchLoop, hb, ha]
  · simp only [tryMatchLoop, hb, ha, if_neg (not_le.mpr hlt), hclear]

/-- On an uncrossed book the skip is not seen: joining a level that is there
    leaves the prices of both sides as they are. -/
theorem addOrder_eq_always {book : OrderBook P} (h : book.Sound) (hun : book.Uncrossed)
    (alloc : IdAllocator) (client : Order P) (clock : Clock) :
    book.addOrder alloc client clock = book.addOrderAlways alloc client clock := by
  obtain ⟨p, hq⟩ := enqueueOrder_spec h.pool alloc client clock
  have htry : (book.enqueueOrder alloc client clock).2.1.tryMatch
      (book.enqueueOrder alloc client clock).2.2.2 =
      tryMatchLoop (book.enqueueOrder alloc client clock).2.1.matchFuel
        (book.enqueueOrder alloc client clock).2.2.2 false
        (book.enqueueOrder alloc client clock).2.1 := by
    cases hflag : (book.enqueueOrder alloc client clock).2.1.tryMatchFlag with
    | true => rw [tryMatch, hflag, if_pos rfl]
    | false =>
      -- The order joined a level, so there is nothing to match.
      have hloop := (hq.uncrossed hflag hun).tryMatchLoop_eq hflag
      rw [tryMatch, hflag, matchFuel, hloop]
      rfl
  simp only [addOrder, addOrderAlways, htry]

/-- `add_order` returns, and keeps an uncrossed book uncrossed. -/
theorem addOrder_uncrossed {book : OrderBook P} (h : book.Sound) (hun : book.Uncrossed)
    (alloc : IdAllocator) (client : Order P) (clock : Clock) :
    ∃ id book' alloc', book.addOrder alloc client clock = .ok (id, book', alloc') ∧
      book'.Uncrossed := by
  obtain ⟨id, p, queued, last, book', alloc', hq, hok, -, hloop, hsame, hor⟩ :=
    addOrder_ok h alloc client clock
  exact ⟨id, book', alloc', hok, hq.uncrossed_last hloop hsame hor hun⟩

end OrderBook

/-! ### Over runs -/

namespace Session
variable {P : Type} [LinearOrder P] [Zero P]

/-- The event moves an order across the spread. -/
def MovesAcross (s : Session P) (l : Label P) : Prop :=
  match l.1 with
  | .modifyOrder id price qty _ => s.book.CrossingModify id price qty
  | _ => False

theorem Step.uncrossed_iff {s s' : Session P} {l : Label P} (hs : Step s l s') (h : s.book.Sound)
    (hun : s.book.Uncrossed) : s'.book.Uncrossed ↔ ¬ MovesAcross s l := by
  cases hs.outcome h with
  | added client clock id p queued last book' alloc' hq hsteps hloop hsame hor =>
    exact iff_of_true (hq.uncrossed_last hloop hsame hor hun) not_false
  | cancelled id clock b book' ho => exact iff_of_true (hun.mono ho.priced) not_false
  | modified id price qty clock b book' ho => exact ho.uncrossed_iff hun
  | drew => exact iff_of_true hun not_false

/-- **When the book stays uncrossed.**  In a run on a fresh book, the book is
    uncrossed after every call exactly when no `modify_order` on the way
    moved an order to a price that crosses the other side. -/
theorem uncrossed_iff_never_moves_across {s s' : Session P} {ls : List (Label P)} (hf : Fresh s)
    (hr : Path Step s ls s') :
    (∀ ms x, ms <+: ls → Path Step s ms x → x.book.Uncrossed) ↔
      Path (Guarded (fun s l => ¬ MovesAcross s l) Step) s ls s' := by
  have hstart : s.book.Uncrossed := Or.inl (by
    rw [OrderBook.bids, hf.book_eq.1 .buy]
    rfl)
  rw [← Path.forall_prefix_iff_guarded (I := fun s => s.book.Sound ∧ s.book.Uncrossed)
    Step.deterministic ?_ hr ⟨hf.sound, hstart⟩]
  · exact ⟨fun h ms x hms hx => ⟨sound_of_path hf hx, h ms x hms hx⟩,
      fun h ms x hms hx => (h ms x hms hx).2⟩
  · rintro s l s' ⟨hsound, hun⟩ hs
    rw [← hs.uncrossed_iff hsound hun]
    exact ⟨And.right, fun h => ⟨hs.sound hsound, h⟩⟩

/-- **The skip is sound.**  On every uncrossed book that a run reaches,
    whatever the flag says there, `add_order` does exactly what it would do
    if it always ran the loop, and leaves the book uncrossed. -/
theorem skip_sound {s s' : Session P} {ls : List (Label P)} (hf : Fresh s)
    (hr : Path Step s ls s') (hun : s'.book.Uncrossed) (flag : Bool) (client : Order P)
    (clock : Clock) :
    ∃ id book' alloc',
      ({ s'.book with tryMatchFlag := flag } : OrderBook P).addOrder s'.alloc client clock =
        .ok (id, book', alloc') ∧
      ({ s'.book with tryMatchFlag := flag } : OrderBook P).addOrderAlways s'.alloc client clock =
        .ok (id, book', alloc') ∧
      book'.Uncrossed := by
  have hs := (sound_of_path hf hr).setFlag flag
  have hun' : ({ s'.book with tryMatchFlag := flag } : OrderBook P).Uncrossed := hun
  obtain ⟨id, book', alloc', hok, hafter⟩ :=
    OrderBook.addOrder_uncrossed hs hun' s'.alloc client clock
  refine ⟨id, book', alloc', hok, ?_, hafter⟩
  rw [← OrderBook.addOrder_eq_always hs hun' s'.alloc client clock]
  exact hok

/-- A buyer at 100 and a seller at 110, and a second buyer at 100, who joins
    the level of the first. -/
theorem skip_sound_joinsLevel :
    ∃ s : Session ℤ, Path Step (opening 1000)
        [(limit .buy 100 10, .orderId 1), (limit .sell 110 10, .orderId 2)] s ∧
      ∃ id book' alloc',
        ({ s.book with tryMatchFlag := true } : OrderBook ℤ).addOrder s.alloc
          (ticket .buy 100 5) (fun _ => 0) = .ok (id, book', alloc') ∧
        ({ s.book with tryMatchFlag := true } : OrderBook ℤ).addOrderAlways s.alloc
          (ticket .buy 100 5) (fun _ => 0) = .ok (id, book', alloc') ∧
        book'.Uncrossed := by
  obtain ⟨s, hs, hf⟩ := exists_path (opening 1000)
    [(limit .buy 100 10, .orderId 1), (limit .sell 110 10, .orderId 2)]
    (fun s => s.book.bids.front?.map Prod.fst = some 100 ∧
      s.book.asks.front?.map Prod.fst = some 110) (by
        simp only [opening, OrderBook.new, OrderPool.new_eq]
        decide +kernel)
  obtain ⟨hb, ha⟩ := of_decide_eq_true hf
  obtain ⟨bidIt, hbid, hbp⟩ := Option.map_eq_some_iff.mp hb
  obtain ⟨askIt, hask, hap⟩ := Option.map_eq_some_iff.mp ha
  have hun : s.book.Uncrossed :=
    Or.inr (Or.inr ⟨bidIt, askIt, hbid, hask, by rw [hbp, hap]; decide⟩)
  exact ⟨s, hs, skip_sound (opening_fresh 1000) hs hun true _ _⟩

/-- A buyer at 100 and a seller at 110, who comes down to 101. -/
def sellerStaysAbove : List (Label ℤ) :=
  [(limit .buy 100 10, .orderId 1), (limit .sell 110 10, .orderId 2),
    (amend 2 101 10, .done true)]

theorem uncrossed_iff_never_moves_across_above :
    ∃ s : Session ℤ, Path Step (opening 1000) sellerStaysAbove s ∧
      ((∀ ms x, ms <+: sellerStaysAbove → Path Step (opening 1000) ms x → x.book.Uncrossed) ↔
        Path (Guarded (fun s l => ¬ MovesAcross s l) Step) (opening 1000) sellerStaysAbove s) := by
  obtain ⟨s, hs, -⟩ := exists_path (opening 1000) sellerStaysAbove (fun _ => true) (by
      simp only [opening, OrderBook.new, OrderPool.new_eq]
      decide +kernel)
  exact ⟨s, hs, uncrossed_iff_never_moves_across (opening_fresh 1000) hs⟩

/-- The same seller comes down to 90 instead. -/
def sellerComesDown : List (Label ℤ) :=
  [(limit .buy 100 10, .orderId 1), (limit .sell 110 10, .orderId 2),
    (amend 2 90 10, .done true)]

/-- The two orders do not trade, and the book stays crossed. -/
theorem sellerComesDown_crossed : Fresh (opening 1000) ∧
    ∃ s : Session ℤ, Path Step (opening 1000) sellerComesDown s ∧
      s.book.bids.front?.map Prod.fst = some 100 ∧ s.book.asks.front?.map Prod.fst = some 90 ∧
      s.book.tradesCompleted = 0 ∧ ¬ s.book.Uncrossed := by
  obtain ⟨s, hs, hf⟩ := exists_path (opening 1000) sellerComesDown
    (fun s => s.book.bids.front?.map Prod.fst = some 100 ∧
      s.book.asks.front?.map Prod.fst = some 90 ∧ s.book.tradesCompleted = 0) (by
        simp only [opening, OrderBook.new, OrderPool.new_eq]
        decide +kernel)
  obtain ⟨hb, ha, htrades⟩ := of_decide_eq_true hf
  exact ⟨opening_fresh 1000, s, hs, hb, ha, htrades,
    OrderBook.not_uncrossed_of_fronts hb ha (by decide)⟩

end Session
end Orderbook
