import Orderbook.Placement
import Orderbook.PoolStability
import Orderbook.TidyQueue

/-! # How many trades

    `_trades_completed` is a counter of its own.  As long as the levels are
    tidy it is tied to the orders: a trade fills one of its two orders or
    both, and only trades fill orders.  So there are at least as many trades
    as filled orders of one side, and no more than filled orders in all. -/

namespace Orderbook
namespace OrderBook
variable {P : Type} [LinearOrder P]

/-- The accepted orders of a side that are filled. -/
def filledOrders (book : OrderBook P) (side : OrderSide) : ℕ :=
  ∑ i ∈ Finset.range book.orderPool.nextFreeIndex,
    if (book.slot i).side = side ∧ (book.slot i).status = .fullyFilled then 1 else 0

/-- The counter stands at `n`, modulo `2 ^ 64`, and `n` fits the orders. -/
structure Counts (book : OrderBook P) (n : ℕ) : Prop where
  counter : book.tradesCompleted = UInt64.ofNat n
  filled_le : ∀ side, book.filledOrders side ≤ n
  le_filled : n ≤ book.filledOrders .buy + book.filledOrders .sell

theorem Counts.congr {book book' : OrderBook P} {n : ℕ} (h : book.Counts n)
    (htrades : book'.tradesCompleted = book.tradesCompleted)
    (hfilled : ∀ side, book'.filledOrders side = book.filledOrders side) : book'.Counts n where
  counter := htrades.trans h.counter
  filled_le side := by
    rw [hfilled]
    exact h.filled_le side
  le_filled := by
    rw [hfilled, hfilled]
    exact h.le_filled

theorem filledOrders_congr {book book' : OrderBook P}
    (hnext : book'.orderPool.nextFreeIndex = book.orderPool.nextFreeIndex)
    (h : ∀ i, (book'.slot i).side = (book.slot i).side ∧
      ((book'.slot i).status = .fullyFilled ↔ (book.slot i).status = .fullyFilled))
    (side : OrderSide) : book'.filledOrders side = book.filledOrders side := by
  unfold filledOrders
  rw [hnext]
  apply Finset.sum_congr rfl
  intro i _
  simp only [(h i).1, (h i).2]

/-- A new order is not filled. -/
theorem Enqueued.counts {book queued : OrderBook P} {client : Order P} {id : OrderId}
    {p : OrderPtr} {n : ℕ} (hq : Enqueued book client id p queued) (h : book.Counts n) :
    queued.Counts n := by
  apply h.congr hq.trades
  intro side
  have hnew : (queued.slot book.orderPool.nextFreeIndex).status = .new := by
    rw [← hq.slot_eq]
    exact hq.status
  unfold filledOrders
  rw [hq.next_eq, Finset.sum_range_succ, hnew, if_neg (by simp), Nat.add_zero]
  apply Finset.sum_congr rfl
  intro i hi
  rw [hq.kept i (Finset.mem_range.mp hi)]

/-- Overwriting an order that is not filled by another one that is not. -/
theorem filledOrders_setOrder (book : OrderBook P) {p : OrderPtr} {o : Order P}
    (hside : o.side = (book.order p).side) (hbefore : (book.order p).status ≠ .fullyFilled)
    (hafter : o.status ≠ .fullyFilled) (side : OrderSide) :
    (book.setOrder p o).filledOrders side = book.filledOrders side := by
  apply filledOrders_congr
  · rfl
  · intro i
    rw [setOrder_slot]
    split
    · next heq =>
      subst heq
      exact ⟨hside, iff_of_false hafter hbefore⟩
    · exact ⟨rfl, Iff.rfl⟩

theorem CancelOutcome.counts {book book' : OrderBook P} {id : OrderId} {b : Bool} {n : ℕ}
    (ho : CancelOutcome book id b book') (h : book.Counts n) : book'.Counts n := by
  cases ho with
  | unknown _ => exact h
  | dead _ _ _ => exact h
  | cancelled p lvl lvl' now _ hlive _ _ _ =>
    refine h.congr rfl fun side => ?_
    exact filledOrders_setOrder book (p := p) (o := (book.order p).cancelledAt now) rfl
      hlive.not_filled (by simp [Order.cancelledAt]) side

theorem ModifyOutcome.counts [Zero P] {book book' : OrderBook P} {id : OrderId} {price : P}
    {qty : Quantity} {b : Bool} {n : ℕ} (ho : ModifyOutcome book id price qty b book')
    (h : book.Counts n) : book'.Counts n := by
  cases ho with
  | unknown _ => exact h
  | dead _ _ _ => exact h
  | invalid _ _ _ _ => exact h
  | same _ _ _ _ _ _ _ => exact h
  | reduced p _ hlive _ _ _ _ =>
    refine h.congr rfl fun side => ?_
    exact filledOrders_setOrder book (p := p) (o := (book.order p).setQuantity qty) rfl
      hlive.not_filled hlive.not_filled side
  | requeued p lvl lvl' _ hlive _ _ _ _ _ _ _ =>
    refine h.congr rfl fun side => ?_
    exact filledOrders_setOrder book (p := p) (o := (book.order p).setQuantity qty) rfl
      hlive.not_filled hlive.not_filled side
  | moved p lvl lvl' now _ hlive _ _ _ _ _ _ =>
    refine h.congr rfl fun side => ?_
    exact filledOrders_setOrder book (p := p)
      (o := ((book.order p).setPrice price now).setQuantity qty) rfl
      hlive.not_filled hlive.not_filled side

namespace Iteration
variable {book book' : OrderBook P}

/-- One if the order of this side is used up. -/
def fills (x : Iteration book book') (side : OrderSide) : ℕ :=
  if x.qty = (book.order (x.ptr side)).available then 1 else 0

/-- A live order that is used up becomes a filled order of its side. -/
theorem filledOrders_eq (x : Iteration book book') (hs : book.Sound) (side : OrderSide)
    (hlive : ∀ side, (book.order (x.ptr side)).Live) :
    book'.filledOrders side = book.filledOrders side + x.fills side := by
  obtain ⟨hacc, hside⟩ := x.accepted hs side
  have hterm : ∀ i, (if (book'.slot i).side = side ∧ (book'.slot i).status = .fullyFilled
      then 1 else 0) =
      (if (book.slot i).side = side ∧ (book.slot i).status = .fullyFilled then 1 else 0) +
        (if i = (x.ptr side).slot then x.fills side else 0) := by
    intro i
    rw [(x.slot_same i).2.1]
    by_cases hi : i = (x.ptr side).slot
    · subst hi
      have hbefore : (book.slot (x.ptr side).slot).status ≠ .fullyFilled := (hlive side).not_filled
      have hafter : (book'.slot (x.ptr side).slot).status = _ := x.status_ptr side
      have hside' : (book.slot (x.ptr side).slot).side = side := hside
      simp only [hbefore, hafter, hside', and_false, if_false, true_and, if_true, Nat.zero_add]
      unfold fills
      by_cases hall : x.qty = (book.order (x.ptr side)).available
      · rw [if_pos hall, if_pos rfl, if_pos hall]
      · rw [if_neg hall, if_neg (by simp), if_neg hall]
    · rw [if_neg hi, Nat.add_zero]
      rcases x.slot_cases i with ⟨-, hsame⟩ | ⟨side', now, rfl, -⟩
      · rw [hsame]
      · have hside' : (book.slot (x.ptr side').slot).side = side' := (x.accepted hs side').2
        have hne : ¬ (book.slot (x.ptr side').slot).side = side := fun heq => hi (by
          rw [← heq, hside'])
        rw [if_neg fun h => hne h.1, if_neg fun h => hne h.1]
  unfold filledOrders
  rw [x.nextFreeIndex_eq, Finset.sum_congr rfl fun i _ => hterm i, Finset.sum_add_distrib,
    Finset.sum_ite_eq', if_pos (Finset.mem_range.mpr hacc)]

/-- One more trade, and one more filled order or two. -/
theorem counts (x : Iteration book book') (hs : book.Sound) (ht : book.Tidy) {n : ℕ}
    (h : book.Counts n) : book'.Counts (n + 1) := by
  have heq : ∀ side, book'.filledOrders side = book.filledOrders side + x.fills side :=
    fun side => x.filledOrders_eq hs side fun side => (x.pairs_live hs ht side).1
  have hle : ∀ side, x.fills side ≤ 1 := by
    intro side
    unfold fills
    split <;> omega
  have hone : 1 ≤ x.fills .buy + x.fills .sell := by
    obtain ⟨side, hqty⟩ := x.exists_filled
    have hfills : x.fills side = 1 := if_pos hqty
    cases side <;> omega
  constructor
  case counter => rw [x.trades_eq, h.counter, UInt64.ofNat_add]; rfl
  case filled_le =>
    intro side
    have hbefore := h.filled_le side
    have hside := hle side
    rw [heq]
    omega
  case le_filled =>
    have hbefore := h.le_filled
    rw [heq, heq]
    omega

end Iteration

/-! ### Live and filled orders -/

theorem length_liveSlots (book : OrderBook P) (side : OrderSide) :
    (book.liveSlots side).length = ∑ i ∈ Finset.range book.orderPool.nextFreeIndex,
      if (book.slot i).Live ∧ (book.slot i).side = side then 1 else 0 := by
  have hnodup : (book.liveSlots side).Nodup := List.nodup_range.filter _
  rw [← Finset.card_filter, ← List.toFinset_card_of_nodup hnodup]
  congr 1
  ext i
  simp [liveSlots]

/-- An order is live or filled or neither, and it has one side. -/
theorem live_add_filled_le (book : OrderBook P) :
    (book.liveSlots .buy).length + (book.liveSlots .sell).length +
      (book.filledOrders .buy + book.filledOrders .sell) ≤ book.orderPool.nextFreeIndex := by
  rw [length_liveSlots, length_liveSlots, filledOrders, filledOrders, ← Finset.sum_add_distrib,
    ← Finset.sum_add_distrib, ← Finset.sum_add_distrib]
  refine (Finset.sum_le_card_nsmul _ _ 1 ?_).trans (by simp)
  intro i _
  by_cases hlive : (book.slot i).Live
  · have hnot := hlive.not_filled
    cases hside : (book.slot i).side <;> simp [hlive, hnot]
  · by_cases hfilled : (book.slot i).status = .fullyFilled
    · cases hside : (book.slot i).side <;> simp [hlive, hfilled]
    · cases hside : (book.slot i).side <;> simp [hlive, hfilled]

end OrderBook

/-! ### Over runs -/

namespace Session
open OrderBook
variable {P : Type} [LinearOrder P] [Zero P]

theorem preserved_counts :
    Preserved (P := P) KeepsTidy fun book => book.Tidy ∧ ∃ n, book.Counts n where
  enqueue _ _ _ _ _ _ hs hG hq h :=
    ⟨preserved_tidy.enqueue _ _ _ _ _ _ hs hG hq h.1, h.2.imp fun _ h => hq.counts h⟩
  iterate _ _ x hs hcross h :=
    ⟨preserved_tidy.iterate _ _ x hs hcross h.1, h.2.elim fun n hn => ⟨n + 1, x.counts hs h.1 hn⟩⟩
  setFlag _ h := ⟨preserved_tidy.setFlag _ h.1, h.2.imp fun _ h => h.congr rfl fun _ => rfl⟩
  cancel _ _ _ _ _ hs hG ho h :=
    ⟨preserved_tidy.cancel _ _ _ _ _ hs hG ho h.1, h.2.imp fun _ h => ho.counts h⟩
  modify _ _ _ _ _ _ _ hs hG ho h :=
    ⟨preserved_tidy.modify _ _ _ _ _ _ _ hs hG ho h.1, h.2.imp fun _ h => ho.counts h⟩

theorem Fresh.counts {s : Session P} (h : Fresh s) : s.book.Counts 0 := by
  obtain ⟨-, -, hzero, htrades, -⟩ := h.book_eq
  have hnone : ∀ side, s.book.filledOrders side = 0 := by
    intro side
    rw [filledOrders, hzero, Finset.sum_range_zero]
  constructor
  case counter => exact htrades
  case filled_le => exact fun side => (hnone side).le
  case le_filled => exact Nat.zero_le _

/-- The orders accepted are as many as the ids returned. -/
theorem accepted_eq {s s' : Session P} {ls : List (Label P)} (hr : Path Step s ls s')
    (h : s.book.Sound) : s'.book.orderPool.nextFreeIndex =
      s.book.orderPool.nextFreeIndex + (addedIds ls).length := by
  induction hr with
  | nil s => rfl
  | @cons s s₁ s' l ls hs _ ih =>
    rw [ih (hs.sound h), (hs.pool h).1, addedIds_cons l ls, Nat.add_assoc]

/-- **Trades and orders.**  In a run that never raises the only order of a
    level, with distinct ids and positive quantities, there are at least as
    many trades as filled orders of either side and at most as many as filled
    orders in all.  The trades and the orders still live, on both sides, are
    no more than the orders accepted. -/
theorem trades_of_filled {s s' : Session P} {ls : List (Label P)} (hf : Fresh s)
    (hr : Path (Guarded KeepsTidy Step) s ls s') :
    ∃ n, s'.book.Counts n ∧ n + s'.book.getTotalOrders .buy + s'.book.getTotalOrders .sell ≤
      (addedIds ls).length := by
  obtain ⟨hs, ht, n, hn⟩ := preserved_counts.path hr hf.sound ⟨hf.tidy, 0, hf.counts⟩
  refine ⟨n, hn, ?_⟩
  have hacc := accepted_eq hr.of_guarded hf.sound
  obtain ⟨-, -, hzero, -⟩ := hf.book_eq
  have hall := s'.book.live_add_filled_le
  have hfilled := hn.le_filled
  rw [ht.linked.total hs, ht.linked.total hs]
  omega

/-- A seller fills one buyer and part of the next, who then cancels. -/
def buyerGivesUp : List (Label ℤ) :=
  [(limit .buy 100 10, .orderId 1), (limit .buy 100 10, .orderId 2), (limit .buy 99 10, .orderId 3),
    (limit .sell 100 15, .orderId 4), (cancel 2, .done true)]

theorem trades_of_filled_buyerGivesUp : ∃ (s : Session ℤ) (n : ℕ),
    Path (Guarded KeepsTidy Step) (opening 1000) buyerGivesUp s ∧ s.book.tradesCompleted = 2 ∧
      s.book.Counts n ∧ n + s.book.getTotalOrders .buy + s.book.getTotalOrders .sell ≤ 4 := by
  obtain ⟨s, hs, hf⟩ := exists_path (opening 1000) buyerGivesUp
    (fun s => s.book.tradesCompleted == 2) (by
      simp only [opening, OrderBook.new, OrderPool.new_eq]
      decide +kernel)
  have hfresh := (opening_fresh 1000).freshId_path hs (by decide)
  have hr : Path (Guarded KeepsTidy Step) (opening 1000) buyerGivesUp s := by
    apply hfresh.mono_of_mem
    intro l hl s s' hguarded
    obtain ⟨hG, hstep⟩ := hguarded
    refine ⟨?_, hstep⟩
    simp only [buyerGivesUp, List.mem_cons, List.not_mem_nil, or_false] at hl
    rcases hl with rfl | rfl | rfl | rfl | rfl
    · exact ⟨hG _ rfl, by decide⟩
    · exact ⟨hG _ rfl, by decide⟩
    · exact ⟨hG _ rfl, by decide⟩
    · exact ⟨hG _ rfl, by decide⟩
    · exact trivial
  obtain ⟨n, hn, hle⟩ := trades_of_filled (opening_fresh 1000) hr
  exact ⟨s, n, hr, eq_of_beq hf, hn, hle⟩

end Session
end Orderbook
