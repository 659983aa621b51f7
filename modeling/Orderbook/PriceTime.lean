import Orderbook.BookQueue
import Orderbook.Uncrossed
import Orderbook.Reference

/-! # The book refines the reference exchange

    The book puts an incoming order on its side first and then trades the
    fronts of the two sides; the reference walks along the other side and
    rests the residue.  Between two iterations of the loop the book agrees
    with the reference in the middle of its walk: the incoming order is at
    the front of its side, the rest of the other side is still to be walked.
    With distinct ids, and as long as amendments only lower quantities, the
    two agree after every call. -/

namespace Orderbook
namespace OrderBook
variable {P : Type} [LinearOrder P]

/-- The book reads as the reference exchange: the same orders with the same
    fills and statuses, the same number of trades, and the same queues. -/
structure Reads (book : OrderBook P) (ref : Reference P) : Prop where
  arrivals : ref.arrivals = book.orderPool.nextFreeIndex
  account : ∀ k, book.Accepted k → ref.account k = .ofOrder (book.slot k)
  lookup : ∀ id, ref.lookup id = (book.orderRegistry.find? id).map BufferPtr.slot
  trades : book.tradesCompleted.toNat = ref.trades
  resting : ∀ side, ref.resting side = book.queue side

/-- The two agree on everything but the queues, the trades being counted in
    64 bits. -/
structure Agrees (book : OrderBook P) (ref : Reference P) : Prop where
  arrivals : ref.arrivals = book.orderPool.nextFreeIndex
  account : ∀ k, book.Accepted k → ref.account k = .ofOrder (book.slot k)
  lookup : ∀ id, ref.lookup id = (book.orderRegistry.find? id).map BufferPtr.slot
  trades : book.tradesCompleted = UInt64.ofNat ref.trades

/-- The queues are determined by the accounts. -/
theorem Agrees.resting [Zero P] {book : OrderBook P} {ref : Reference P} (h : book.Agrees ref)
    (hwf : ref.WF) (hs : book.Sound) (ht : book.Tidy) (ho : book.InOrder) (side : OrderSide) :
    ref.resting side = book.queue side := by
  have hmem : ∀ k, k ∈ ref.resting side ↔ k ∈ book.queue side := by
    intro k
    rw [hwf.mem, ht.mem_queue_iff hs, h.arrivals]
    apply and_congr_right
    intro hk
    rw [h.account k hk]
    rfl
  have hsorted : Priority.Sorted side.before ref.price (book.queue side) := by
    refine (ho.queue_sorted ht side).congr ?_
    intro k hk
    unfold Reference.price
    rw [h.account k ((ht.mem_queue_iff hs).mp hk).1]
    rfl
  exact (hwf.sorted side).ext hsorted hmem

/-! ### One trade -/

omit [LinearOrder P] in
theorem tradeQty_toNat {bid ask : Order P} (hb : bid.quantityFilled ≤ bid.quantity)
    (ha : ask.quantityFilled ≤ ask.quantity) : (tradeQty bid ask).toNat =
      min (Account.ofOrder bid).remaining (Account.ofOrder ask).remaining := by
  have hbid := Order.available_toNat hb
  have hask := Order.available_toNat ha
  simp only [Account.remaining, Account.ofOrder]
  unfold tradeQty
  split
  · next hlt =>
    rw [UInt64.lt_iff_toNat_lt] at hlt
    omega
  · next hge =>
    rw [UInt64.lt_iff_toNat_lt] at hge
    omega

omit [LinearOrder P] in
theorem ofOrder_filled {o : Order P} {q : Quantity} (now : TimePoint)
    (hle : o.quantityFilled ≤ o.quantity) (hq : q ≤ o.available) :
    Account.ofOrder (o.filled q now) = (Account.ofOrder o).credit q.toNat := by
  have hsum := Order.filled_add_toNat hle hq
  have hiff : q = o.available ↔ o.quantityFilled.toNat + q.toNat = o.quantity.toNat := by
    rw [← Order.filled_add_eq_iff hle hq, ← UInt64.toNat_inj, hsum]
  have hstatus : (if q = o.available then OrderStatus.fullyFilled else .partiallyFilled) =
      if o.quantityFilled.toNat + q.toNat = o.quantity.toNat then .fullyFilled
      else .partiallyFilled := if_congr hiff rfl rfl
  simp only [Account.ofOrder, Account.credit, Order.filled, hsum, hstatus]
  rfl

/-! ### Between two iterations -/

/-- No order of the book other than `i` crosses another one. -/
def ApartFrom (book : OrderBook P) (i : ℕ) : Prop :=
  ∀ a b, book.Accepted a → book.Accepted b → a ≠ i → b ≠ i → (book.slot a).Live →
    (book.slot b).Live → (book.slot a).side = .buy → (book.slot b).side = .sell →
    book.priceOf a < book.priceOf b

/-- The book while the order `i` of `side` is being matched, `ref` being the
    exchange that has just accepted it: the walk along what is left of the
    other side ends where the walk of the reference ends. -/
structure Settling (ref : Reference P) (i : ℕ) (side : OrderSide) (book : OrderBook P) : Prop where
  accepted : book.Accepted i
  side_eq : (book.slot i).side = side
  arrivals : ref.arrivals = book.orderPool.nextFreeIndex
  lookup : ∀ id, ref.lookup id = (book.orderRegistry.find? id).map BufferPtr.slot
  apart : book.ApartFrom i
  walk : ∃ ledger : Ledger P, (∀ k, book.Accepted k → ledger.account k = .ofOrder (book.slot k)) ∧
    book.tradesCompleted = UInt64.ofNat ledger.trades ∧
    Priority.sweep (Ledger.Wants i) (Ledger.trade i) Ledger.Done ledger
      (book.queue side.other) = ref.swept i

/-- The live orders of an uncrossed book are apart. -/
theorem Tidy.apart {book : OrderBook P} (ht : book.Tidy) (hun : book.Uncrossed) {a b : ℕ}
    (ha : book.Accepted a) (hb : book.Accepted b) (hal : (book.slot a).Live)
    (hbl : (book.slot b).Live) (has : (book.slot a).side = .buy)
    (hbs : (book.slot b).side = .sell) :
    book.priceOf a < book.priceOf b := by
  obtain ⟨lvl, -, hlvl, -⟩ := ht.linked.placed a ha hal
  obtain ⟨lvl', -, hlvl', -⟩ := ht.linked.placed b hb hbl
  rw [has] at hlvl
  rw [hbs] at hlvl'
  exact uncrossed_iff.mp hun _ _ ⟨lvl, hlvl⟩ ⟨lvl', hlvl'⟩

/-- In a crossing the incoming order is at the front of its side. -/
theorem Iteration.ptr_eq {book book' : OrderBook P} (x : Iteration book book') (hs : book.Sound)
    (ht : book.Tidy) (hcross : (x.it .sell).1 ≤ (x.it .buy).1) {i : ℕ} {side : OrderSide}
    (hside : (book.slot i).side = side) (hapart : book.ApartFrom i) :
    (x.ptr side).slot = i := by
  have hfront : ∀ side, book.Accepted (x.ptr side).slot ∧ (book.slot (x.ptr side).slot).Live ∧
      (book.slot (x.ptr side).slot).side = side ∧
      book.priceOf (x.ptr side).slot = (x.it side).1 := fun side =>
    ⟨(x.accepted hs side).1, (x.pairs_live hs ht side).1, (x.accepted hs side).2,
      (x.front_order hs ht.linked side).1⟩
  obtain ⟨hb, hbl, hbs, hbp⟩ := hfront .buy
  obtain ⟨ha, hal, has, hap⟩ := hfront .sell
  -- Otherwise both fronts were there before, and these do not cross.
  by_contra hne
  have hnot : ∀ side', (x.ptr side').slot ≠ i := by
    intro side' heq
    have hs' := (hfront side').2.2.1
    rw [heq, hside] at hs'
    subst hs'
    exact hne heq
  have hlt := hapart _ _ hb ha (hnot .buy) (hnot .sell) hbl hal hbs has
  rw [hbp, hap] at hlt
  exact absurd hlt (not_lt.mpr hcross)

/-- The accounts after an iteration. -/
theorem Iteration.account {book book' : OrderBook P} (x : Iteration book book') (hs : book.Sound)
    {ledger : Ledger P} (hledger : ∀ k, book.Accepted k → ledger.account k = .ofOrder (book.slot k))
    (side : OrderSide) {k : ℕ} (hk : book'.Accepted k) :
    (ledger.trade (x.ptr side).slot (x.ptr side.other).slot).account k =
      .ofOrder (book'.slot k) := by
  have hacc : ∀ side, book.Accepted (x.ptr side).slot := fun side => (x.accepted hs side).1
  have hqty : x.qty.toNat =
      min (ledger.account (x.ptr side).slot).remaining
        (ledger.account (x.ptr side.other).slot).remaining := by
    have hmin := tradeQty_toNat (hs.filled_le _ (hacc .buy)) (hs.filled_le _ (hacc .sell))
    rw [hledger _ (hacc side), hledger _ (hacc side.other)]
    cases side with
    | buy => exact hmin
    | sell =>
      rw [min_comm]
      exact hmin
  have hptr : ∀ side, Account.ofOrder (book'.slot (x.ptr side).slot) =
      (ledger.account (x.ptr side).slot).credit x.qty.toNat := by
    intro side
    obtain ⟨now, hnow⟩ := x.slot_ptr side
    rw [show book'.slot (x.ptr side).slot = _ from hnow, hledger _ (hacc side)]
    exact ofOrder_filled now (hs.filled_le _ (hacc side)) (x.qty_le side)
  rw [Reference.trade_account, ← hqty]
  split
  · next h => rw [h, hptr]
  · next hother =>
    split
    · next h => rw [h, hptr]
    · next hown =>
      have hne : ∀ side', k ≠ (x.ptr side').slot := by
        intro side'
        by_cases hside : side' = side
        · rw [hside]
          exact hown
        · rw [OrderSide.eq_other_iff.mpr hside]
          exact hother
      rw [x.slot_other hne]
      exact hledger k ((x.accepted_iff k).mp hk)

/-- The orders of a side that does not hold the front order stay as they are. -/
theorem Iteration.live_iff_of_ne {book book' : OrderBook P} (x : Iteration book book')
    (hs : book.Sound) {side : OrderSide} {k : ℕ} (hk : k ≠ (x.ptr side).slot) :
    (book'.slot k).Live ∧ (book.slot k).side = side ↔
      (book.slot k).Live ∧ (book.slot k).side = side := by
  apply and_congr_left
  intro hside
  rcases x.slot_cases k with ⟨-, hsame⟩ | ⟨side', now, rfl, -⟩
  · rw [hsame]
  · -- The order that trades on the other side is no order of this one.
    have hside' : (book.slot (x.ptr side').slot).side = side' := (x.accepted hs side').2
    rw [hside] at hside'
    rw [← hside'] at hk
    exact absurd rfl hk

/-- What is left of the other side after an iteration. -/
theorem Iteration.queue_after {book book' : OrderBook P} (x : Iteration book book')
    (hs : book.Sound) (ht : book.Tidy) (ho : book.InOrder) {ledger : Ledger P}
    (hledger : ∀ k, book'.Accepted k → ledger.account k = .ofOrder (book'.slot k))
    {side : OrderSide} {t : List ℕ} (hq : book.queue side = (x.ptr side).slot :: t) :
    book'.queue side = Priority.after Ledger.Done ledger (x.ptr side).slot t := by
  have ht' := x.tidy hs ht
  have hs' := x.sound hs
  have hacc := x.accepted hs side
  have hsorted := ho.queue_sorted ht side
  have hold : ∀ k, k ∈ (x.ptr side).slot :: t ↔
      book.Accepted k ∧ (book.slot k).Live ∧ (book.slot k).side = side := by
    intro k
    rw [← hq]
    exact ht.mem_queue_iff hs
  rw [hq] at hsorted
  obtain ⟨hahead, htail⟩ := List.pairwise_cons.mp hsorted
  have hnot : (x.ptr side).slot ∉ t := fun hmem => (hahead _ hmem).ne rfl
  have hdone : Ledger.Done ledger (x.ptr side).slot = true ↔
      ¬ (book'.slot (x.ptr side).slot).Live := by
    unfold Ledger.Done
    rw [hledger _ ((x.accepted_iff _).mpr hacc.1), Bool.not_eq_true', decide_eq_false_iff_not]
    rfl
  have hrank : ∀ {m : List ℕ}, Priority.Sorted side.before book.priceOf m →
      Priority.Sorted side.before book'.priceOf m := fun hm =>
    hm.congr fun k _ => (x.slot_same k).2.2.1
  -- Both lists are sorted, so it is enough that they have the same members.
  refine ((x.inOrder ho).queue_sorted ht' side).ext ?_ ?_
  · unfold Priority.after
    split
    · exact hrank htail
    · exact hrank hsorted
  · intro k
    rw [ht'.mem_queue_iff hs', x.accepted_iff, (x.slot_same k).2.1]
    by_cases hk : k = (x.ptr side).slot
    · -- The front order stays unless it was filled.
      subst hk
      unfold Priority.after
      split
      · next hgone =>
        exact iff_of_false (fun h => hdone.mp hgone h.2.1) hnot
      · next hstays =>
        have hlive : (book'.slot (x.ptr side).slot).Live := by
          by_contra hdead
          exact hstays (hdone.mpr hdead)
        exact iff_of_true ⟨hacc.1, hlive, hacc.2⟩ List.mem_cons_self
    · rw [x.live_iff_of_ne hs hk, ← hold]
      unfold Priority.after
      split <;> simp [hk]

/-- The incoming order wants the front order of the other side. -/
theorem Iteration.wants {book book' : OrderBook P} (x : Iteration book book') (hs : book.Sound)
    (ht : book.Tidy) (hcross : (x.it .sell).1 ≤ (x.it .buy).1) {ledger : Ledger P}
    (hledger : ∀ k, book.Accepted k → ledger.account k = .ofOrder (book.slot k))
    (side : OrderSide) : ledger.Wants (x.ptr side).slot (x.ptr side.other).slot = true := by
  have hlive := (x.pairs_live hs ht side).1
  have hown := (x.front_order hs ht.linked side).1
  have hother := (x.front_order hs ht.linked side.other).1
  have hside : (book.slot (x.ptr side).slot).side = side := (x.accepted hs side).2
  unfold Ledger.Wants
  rw [hledger _ (x.accepted hs side).1, hledger _ (x.accepted hs side.other).1, Bool.and_eq_true,
    decide_eq_true_eq, decide_eq_true_eq]
  refine ⟨hlive, ?_⟩
  show (book.slot (x.ptr side).slot).side.Meets (book.slot (x.ptr side).slot).price
    (book.slot (x.ptr side.other).slot).price
  rw [hside, show (book.slot (x.ptr side).slot).price = _ from hown,
    show (book.slot (x.ptr side.other).slot).price = _ from hother]
  cases side with
  | buy => exact hcross
  | sell => exact hcross

/-- One of the two is filled up; if it is not the order of the other side, the
    incoming order wants no more. -/
theorem Iteration.wants_no_more {book book' : OrderBook P} (x : Iteration book book')
    (hs : book.Sound) {ledger : Ledger P}
    (hledger : ∀ k, book'.Accepted k → ledger.account k = .ofOrder (book'.slot k))
    (side : OrderSide) (hstays : Ledger.Done ledger (x.ptr side.other).slot = false) :
    ledger.Wants (x.ptr side).slot (x.ptr side.other).slot = false := by
  have hacc : ∀ side, book'.Accepted (x.ptr side).slot := by
    intro side
    exact (x.accepted_iff _).mpr (x.accepted hs side).1
  have hother : (book'.slot (x.ptr side.other).slot).Live := by
    unfold Ledger.Done at hstays
    rw [hledger _ (hacc side.other), Bool.not_eq_false', decide_eq_true_eq] at hstays
    exact hstays
  have hdead : ¬ (book'.slot (x.ptr side).slot).Live := by
    obtain ⟨side', hq⟩ := x.exists_filled
    have hst : (book'.order (x.ptr side')).status = .fullyFilled := by
      rw [x.status_ptr, if_pos hq]
    by_cases hside : side' = side
    · rw [← hside]
      intro hl
      exact hl.not_filled hst
    · rw [OrderSide.eq_other_iff.mpr hside] at hst
      exact absurd hst hother.not_filled
  unfold Ledger.Wants
  rw [hledger _ (hacc side), Bool.and_eq_false_iff]
  left
  exact decide_eq_false hdead

/-- An iteration brings no order to life. -/
theorem Iteration.apartFrom {book book' : OrderBook P} (x : Iteration book book') (hs : book.Sound)
    (ht : book.Tidy) {i : ℕ} (h : book.ApartFrom i) : book'.ApartFrom i := by
  have hback : ∀ k, (book'.slot k).Live → (book.slot k).Live := by
    intro k hl
    rcases x.slot_cases k with ⟨-, hsame⟩ | ⟨side', now, rfl, -⟩
    · rwa [hsame] at hl
    · exact (x.pairs_live hs ht side').1
  have hprice : ∀ k, book'.priceOf k = book.priceOf k := fun k => (x.slot_same k).2.2.1
  intro a b ha hb hai hbi hal hbl has hbs
  rw [(x.slot_same _).2.1] at has hbs
  rw [hprice, hprice]
  exact h a b ((x.accepted_iff a).mp ha) ((x.accepted_iff b).mp hb) hai hbi (hback a hal)
    (hback b hbl) has hbs

/-- **Step of the walk.**  An iteration of the loop is a step of the walk of
    the incoming order. -/
theorem Iteration.settling {book book' : OrderBook P} (x : Iteration book book') (hs : book.Sound)
    (ht : book.Tidy) (ho : book.InOrder) (hcross : (x.it .sell).1 ≤ (x.it .buy).1)
    {ref : Reference P} {i : ℕ} {side : OrderSide} (h : Settling ref i side book) :
    Settling ref i side book' := by
  obtain ⟨ledger, hledger, htrades, hwalk⟩ := h.walk
  have hi := x.ptr_eq hs ht hcross h.side_eq h.apart
  obtain ⟨t, hqueue⟩ := x.queue_eq_cons hs ht side.other
  obtain ⟨traded, htraded⟩ : ∃ traded,
      traded = ledger.trade (x.ptr side).slot (x.ptr side.other).slot := ⟨_, rfl⟩
  have haccount : ∀ k, book'.Accepted k → traded.account k = .ofOrder (book'.slot k) := by
    intro k hk
    rw [htraded]
    exact x.account hs hledger side hk
  have hafter := x.queue_after hs ht ho haccount hqueue
  have hwants := x.wants hs ht hcross hledger side
  have hend := x.wants_no_more hs haccount side
  constructor
  case accepted => exact (x.accepted_iff i).mpr h.accepted
  case side_eq => exact (x.slot_same i).2.1.trans h.side_eq
  case arrivals =>
    rw [x.nextFreeIndex_eq]
    exact h.arrivals
  case lookup =>
    rw [x.registry_eq]
    exact h.lookup
  case apart => exact x.apartFrom hs ht h.apart
  case walk =>
    refine ⟨traded, haccount, ?_, ?_⟩
    · rw [x.trades_eq, htrades, htraded]
      exact (UInt64.ofNat_add _ _).symm
    · rw [htraded] at hend hafter
      rw [hi] at hwants hend hafter
      rw [← hwalk, hqueue, Priority.sweep_step hwants hend, hafter, htraded, hi]

/-- On an uncrossed book the walk is over. -/
theorem Settling.agrees {book : OrderBook P} {ref : Reference P} {i : ℕ} {side : OrderSide}
    (h : Settling ref i side book) (hs : book.Sound) (ht : book.Tidy) (hun : book.Uncrossed) :
    book.Agrees (ref.settle i) := by
  obtain ⟨ledger, hledger, htrades, hwalk⟩ := h.walk
  have hstop : ∀ j ∈ (book.queue side.other).head?, ledger.Wants i j = false := by
    intro j hj
    by_contra hwants
    rw [Bool.not_eq_false] at hwants
    unfold Ledger.Wants at hwants
    obtain ⟨hacc, hlive, hside⟩ := (ht.mem_queue_iff hs).mp (List.mem_of_mem_head? hj)
    rw [hledger i h.accepted, hledger j hacc, Bool.and_eq_true, decide_eq_true_eq,
      decide_eq_true_eq] at hwants
    obtain ⟨hi, hmeets⟩ := hwants
    have hmeets : (book.slot i).side.Meets (book.slot i).price (book.slot j).price := hmeets
    rw [h.side_eq] at hmeets
    -- The two would be the bid and the ask of a crossing.
    cases side with
    | buy =>
      exact absurd (ht.apart hun h.accepted hacc hi hlive h.side_eq hside) (not_lt.mpr hmeets)
    | sell =>
      exact absurd (ht.apart hun hacc h.accepted hlive hi hside h.side_eq) (not_lt.mpr hmeets)
  rw [Priority.sweep_stop hstop] at hwalk
  have hend : (ref.settle i).toLedger = ledger := by
    rw [Reference.settle_toLedger, ← hwalk]
  constructor
  case arrivals =>
    rw [Reference.settle_arrivals]
    exact h.arrivals
  case account =>
    rw [hend]
    exact hledger
  case lookup =>
    rw [Reference.settle_lookup]
    exact h.lookup
  case trades =>
    rw [hend]
    exact htrades

/-- The accounts of a book that has queued an order. -/
theorem Enqueued.account {book queued : OrderBook P} {client : Order P} {id : OrderId}
    {p : OrderPtr} (hq : Enqueued book client id p queued) {ref : Reference P}
    (h : book.Agrees ref) {k : ℕ} (hk : queued.Accepted k) :
    (ref.accept id client.side client.price client.quantity.toNat).account k =
      .ofOrder (queued.slot k) := by
  have hslot : p.slot = ref.arrivals := hq.slot_eq.trans h.arrivals.symm
  rw [Reference.accept_account]
  split
  · next heq =>
    rw [heq, ← hslot]
    show _ = Account.ofOrder (queued.order p)
    simp only [Account.ofOrder, hq.side, hq.price, hq.quantity, hq.unfilled, hq.status]
    rfl
  · next hne =>
    have hk := ((hq.accepted k).mp hk).resolve_right (by rw [hslot]; exact hne)
    rw [hq.kept k hk]
    exact h.account k hk

/-- The orders that were there before stand in an uncrossed book. -/
theorem Enqueued.apartFrom {book queued : OrderBook P} {client : Order P} {id : OrderId}
    {p : OrderPtr} (hq : Enqueued book client id p queued) (ht : book.Tidy)
    (hun : book.Uncrossed) : queued.ApartFrom p.slot := by
  intro a b ha hb hap hbp hal hbl has hbs
  have ha := ((hq.accepted a).mp ha).resolve_right hap
  have hb := ((hq.accepted b).mp hb).resolve_right hbp
  unfold OrderBook.priceOf
  rw [hq.kept a ha] at hal has ⊢
  rw [hq.kept b hb] at hbl hbs ⊢
  exact ht.apart hun ha hb hal hbl has hbs

/-- The walk starts when the order has been queued. -/
theorem Enqueued.settling {book queued : OrderBook P} {client : Order P} {id : OrderId}
    {p : OrderPtr} (hq : Enqueued book client id p queued) (ht : book.Tidy) (hun : book.Uncrossed)
    {ref : Reference P} (h : book.Agrees ref)
    (hresting : ∀ side, ref.resting side = book.queue side) :
    Settling (ref.accept id client.side client.price client.quantity.toNat) ref.arrivals client.side
      queued := by
  have hslot : p.slot = ref.arrivals := hq.slot_eq.trans h.arrivals.symm
  constructor
  case accepted => exact (hq.accepted _).mpr (Or.inr hslot.symm)
  case side_eq =>
    rw [← hslot]
    exact hq.side
  case arrivals =>
    rw [hq.next_eq, ← h.arrivals]
    rfl
  case lookup =>
    intro id'
    rw [hq.registry, SortedMap.find?_insert]
    rw [Reference.accept_lookup]
    by_cases hid : id' = id
    · rw [if_pos hid, if_pos hid, Option.map_some, hslot]
    · rw [if_neg hid, if_neg hid]
      exact h.lookup id'
  case apart =>
    rw [← hslot]
    exact hq.apartFrom ht hun
  case walk =>
    refine ⟨(ref.accept id client.side client.price client.quantity.toNat).toLedger,
      fun k hk => hq.account h hk, ?_, ?_⟩
    · rw [hq.trades]
      exact h.trades
    · -- The other side is the one it was.
      have hside : ((ref.accept id client.side client.price client.quantity.toNat).account
          ref.arrivals).side = client.side := by
        rw [Reference.accept_new]
      have hsame : queued.queue client.side.other = book.queue client.side.other := by
        unfold queue
        rw [hq.levels_other _ (OrderSide.other_ne _)]
      unfold Reference.swept
      rw [hside, hsame, ← hresting]
      rfl

theorem loop_settling {queued last : OrderBook P}
    (hsteps : Relation.ReflTransGen LoopStep queued last) (hs : queued.Sound) (ht : queued.Tidy)
    (ho : queued.InOrder) {ref : Reference P} {i : ℕ} {side : OrderSide}
    (h : Settling ref i side queued) : last.Sound ∧ last.Tidy ∧ Settling ref i side last := by
  obtain ⟨hs', ht', -, h'⟩ :=
    loop_invariant (I := fun b => b.Tidy ∧ b.InOrder ∧ Settling ref i side b)
      (fun _ _ x hs hcross hinv => ⟨x.tidy hs hinv.1, x.inOrder hinv.2.1,
        x.settling hs hinv.1 hinv.2.1 hcross hinv.2.2⟩) hsteps hs ⟨ht, ho, h⟩
  exact ⟨hs', ht', h'⟩

/-! ### Cancelling and lowering -/

/-- Writing one account back. -/
theorem Agrees.setOrder {book : OrderBook P} {ref : Reference P} (h : book.Agrees ref)
    {p : OrderPtr} {o : Order P} (resting : OrderSide → List ℕ) :
    (book.setOrder p o).Agrees
      { ref with
        account := Function.update ref.account p.slot (.ofOrder o), resting := resting } where
  arrivals := h.arrivals
  account k hk := by
    rw [setOrder_slot]
    show Function.update ref.account p.slot (.ofOrder o) k = _
    rw [Function.update_apply]
    split
    · rfl
    · exact h.account k hk
  lookup := h.lookup
  trades := h.trades

theorem Agrees.setLevels {book : OrderBook P} {ref : Reference P} (h : book.Agrees ref)
    {side : OrderSide} (lvs : SideLevels P side) : (book.setLevels side lvs).Agrees ref :=
  ⟨h.arrivals, h.account, h.lookup, h.trades⟩

/-- What the reference knows of a registered id. -/
theorem Agrees.registered {book : OrderBook P} {ref : Reference P} (h : book.Agrees ref)
    (hs : book.Sound) {id : OrderId} {p : OrderPtr} (hp : book.orderRegistry.find? id = some p) :
    ref.lookup id = some p.slot ∧ ref.account p.slot = .ofOrder (book.order p) := by
  rw [h.lookup, hp]
  exact ⟨rfl, h.account _ (hs.registered id p hp).1⟩

theorem CancelOutcome.agrees {book book' : OrderBook P} {id : OrderId} {b : Bool}
    (ho : CancelOutcome book id b book') (hs : book.Sound) {ref : Reference P}
    (h : book.Agrees ref) : b = (ref.cancel id).1 ∧ book'.Agrees (ref.cancel id).2 := by
  cases ho with
  | unknown hreg =>
    have hlookup := h.lookup id
    rw [hreg] at hlookup
    simp only [Reference.cancel, hlookup, Option.map_none]
    exact ⟨trivial, h⟩
  | dead p hreg hdead =>
    obtain ⟨hlookup, haccount⟩ := h.registered hs hreg
    have hnot : ¬ (Account.ofOrder (book.order p)).Live := hdead
    simp only [Reference.cancel, hlookup, haccount, if_neg hnot]
    exact ⟨trivial, h⟩
  | cancelled p lvl lvl' now hreg hlive hlvl hrem hwf =>
    obtain ⟨hlookup, haccount⟩ := h.registered hs hreg
    have hlive' : (Account.ofOrder (book.order p)).Live := hlive
    simp only [Reference.cancel, hlookup, haccount, if_pos hlive']
    refine ⟨trivial, Agrees.setLevels ?_ _⟩
    exact h.setOrder (o := (book.order p).cancelledAt now) _

variable [Zero P]

/-- A call of `modify_order` that lowers a quantity or is refused. -/
theorem ModifyOutcome.agrees {book book' : OrderBook P} {id : OrderId} {price : P}
    {qty : Quantity} {b : Bool} (ho : ModifyOutcome book id price qty b book') (hs : book.Sound)
    (hlowers : ∀ p, book.orderRegistry.find? id = some p → (book.order p).Live →
      price = (book.order p).price ∧ qty ≤ (book.order p).quantity)
    {ref : Reference P} (hwf : ref.WF) (h : book.Agrees ref) :
    b = (ref.lower id qty.toNat).1 ∧ book'.Agrees (ref.lower id qty.toNat).2 := by
  have hrefused : ∀ p, book.orderRegistry.find? id = some p →
      ¬ ((book.order p).Live ∧ (book.order p).quantityFilled < qty ∧
        qty < (book.order p).quantity) →
      false = (ref.lower id qty.toNat).1 ∧ book.Agrees (ref.lower id qty.toNat).2 := by
    intro p hreg hnot
    obtain ⟨hlookup, haccount⟩ := h.registered hs hreg
    have hnot' : ¬ ((Account.ofOrder (book.order p)).Live ∧
        (Account.ofOrder (book.order p)).filled < qty.toNat ∧
        qty.toNat < (Account.ofOrder (book.order p)).quantity) := by
      rw [UInt64.lt_iff_toNat_lt, UInt64.lt_iff_toNat_lt] at hnot
      exact hnot
    simp only [Reference.lower, hlookup, haccount, if_neg hnot']
    exact ⟨trivial, h⟩
  cases ho with
  | unknown hreg =>
    have hlookup := h.lookup id
    rw [hreg] at hlookup
    simp only [Reference.lower, hlookup, Option.map_none]
    exact ⟨trivial, h⟩
  | dead p hreg hdead => exact hrefused p hreg fun hc => hdead hc.1
  | invalid p hreg hlive hbad =>
    -- The price is that of the order, which is positive.
    obtain ⟨-, haccount⟩ := h.registered hs hreg
    have hpos := hwf.priced p.slot (by rw [h.arrivals]; exact (hs.registered id p hreg).1)
    unfold Reference.price at hpos
    rw [haccount] at hpos
    rcases hbad with hbad | hbad
    · rw [(hlowers p hreg hlive).1] at hbad
      exact absurd hpos (not_lt.mpr hbad)
    · exact hrefused p hreg fun hc => UInt64.not_lt.mpr hbad hc.2.1
  | same p hreg hlive hpos hqty hprice hsame =>
    refine hrefused p hreg ?_
    intro hc
    rw [hsame] at hc
    exact UInt64.lt_irrefl _ hc.2.2
  | reduced p hreg hlive hpos hqty hprice hlt =>
    obtain ⟨hlookup, haccount⟩ := h.registered hs hreg
    have hok : (Account.ofOrder (book.order p)).Live ∧
        (Account.ofOrder (book.order p)).filled < qty.toNat ∧
        qty.toNat < (Account.ofOrder (book.order p)).quantity :=
      ⟨hlive, UInt64.lt_iff_toNat_lt.mp hqty, UInt64.lt_iff_toNat_lt.mp hlt⟩
    simp only [Reference.lower, hlookup, haccount, if_pos hok]
    exact ⟨trivial, h.setOrder (o := (book.order p).setQuantity qty) _⟩
  | requeued p lvl lvl' hreg hlive hpos hqty hprice hgt hlvl hrem hwf' =>
    exact absurd (hlowers p hreg hlive).2 (UInt64.not_le.mpr hgt)
  | moved p lvl lvl' now hreg hlive hpos hqty hprice hlvl hrem hwf' =>
    exact absurd (hlowers p hreg hlive).1 hprice

end OrderBook

/-! ### Over runs -/

namespace Session
open OrderBook
variable {P : Type} [LinearOrder P] [Zero P]

/-- What ties a session to the reference between two calls. -/
structure Refines (s : Session P) (ref : Reference P) : Prop where
  sound : s.book.Sound
  tidy : s.book.Tidy
  inOrder : s.book.InOrder
  uncrossed : s.book.Uncrossed
  wf : ref.WF
  agrees : s.book.Agrees ref

theorem Refines.resting {s : Session P} {ref : Reference P} (h : Refines s ref) (side : OrderSide) :
    ref.resting side = s.book.queue side :=
  h.agrees.resting h.wf h.sound h.tidy h.inOrder side

theorem Ordinary.keepsTidy {s : Session P} {l : Label P} (hG : Ordinary s l) (hid : FreshId s l) :
    KeepsTidy s l := by
  obtain ⟨e, r⟩ := l
  cases e with
  | addOrder client clock =>
    cases r with
    | orderId id => exact ⟨hid id rfl, hG.2⟩
    | done _ => trivial
    | silent => trivial
  | cancelOrder id clock => trivial
  | modifyOrder id price qty clock =>
    rintro ⟨p, lvl, hreg, hlive, -, -, hlt, -⟩
    exact UInt64.not_le.mpr hlt (hG p hreg hlive).2
  | otherDraws => trivial

theorem Ordinary.not_movesAcross {s : Session P} {l : Label P} (hG : Ordinary s l) :
    ¬ MovesAcross s l := by
  obtain ⟨e, r⟩ := l
  unfold MovesAcross
  cases e with
  | addOrder client clock => exact not_false
  | cancelOrder id clock => exact not_false
  | modifyOrder id price qty clock =>
    rintro ⟨p, hreg, hlive, -, hne, -⟩
    exact hne (hG p hreg hlive).1
  | otherDraws => exact not_false

/-- **Simulation step.** -/
theorem Refines.step {s s' : Session P} {l : Label P} {ref : Reference P} (h : Refines s ref)
    (hG : Ordinary s l) (hid : FreshId s l) (hs : Step s l s') :
    ∃ ref', Reference.Step ref l ref' ∧ Refines s' ref' := by
  obtain ⟨hsound, htidy⟩ := preserved_tidy.step ⟨hG.keepsTidy hid, hs⟩ ⟨h.sound, h.tidy⟩
  obtain ⟨-, horder⟩ := preserved_inOrder.step ⟨hG, hs⟩ ⟨h.sound, h.inOrder⟩
  have hun : s'.book.Uncrossed :=
    (hs.uncrossed_iff h.sound h.uncrossed).mpr hG.not_movesAcross
  suffices hsuff : ∃ ref', Reference.Step ref l ref' ∧ s'.book.Agrees ref' by
    obtain ⟨ref', hstep, hagrees⟩ := hsuff
    exact ⟨ref', hstep, hsound, htidy, horder, hun, hstep.wf (by
      unfold Reference.Proper
      unfold Ordinary at hG
      split at hG <;> simp_all) h.wf, hagrees⟩
  cases hs.outcome h.sound with
  | added client clock id p queued last book' alloc' hq hsteps hloop hsame hor =>
    have hqun : queued.tryMatchFlag = false → last.Uncrossed := fun hflag =>
      hsame hflag ▸ hq.uncrossed hflag h.uncrossed
    have hlast : last.Uncrossed := by
      cases hflag : queued.tryMatchFlag with
      | true => exact hloop hflag
      | false => exact hqun hflag
    have hqty : 0 < client.quantity := UInt64.lt_of_lt_of_le (by decide) hG.2
    obtain ⟨hls, hlt, hsettling⟩ := loop_settling hsteps (hq.sound h.sound)
      (hq.tidy h.sound (hid id rfl) hqty h.tidy) (hq.inOrder h.sound h.inOrder)
      (hq.settling h.tidy h.uncrossed h.agrees h.resting)
    have hagrees := hsettling.agrees hls hlt hlast
    refine ⟨_, rfl, ?_⟩
    rcases hor with rfl | rfl
    · exact hagrees
    · exact ⟨hagrees.arrivals, hagrees.account, hagrees.lookup, hagrees.trades⟩
  | cancelled id clock b book' ho =>
    obtain ⟨hb, hagrees⟩ := ho.agrees h.sound h.agrees
    exact ⟨_, Prod.ext hb rfl, hagrees⟩
  | modified id price qty clock b book' ho =>
    obtain ⟨hb, hagrees⟩ := ho.agrees h.sound hG h.wf h.agrees
    exact ⟨_, Prod.ext hb rfl, hagrees⟩
  | drew => exact ⟨ref, rfl, h.agrees⟩

theorem Fresh.refines {s : Session P} (hf : Fresh s) : Refines s (.empty : Reference P) := by
  obtain ⟨hlevels, -, hnext, htrades, -⟩ := hf.book_eq
  constructor
  case sound => exact hf.sound
  case tidy => exact hf.tidy
  case inOrder => exact fun side price lvl hlvl => absurd hlvl (hf.no_level side price lvl)
  case uncrossed =>
    left
    rw [OrderBook.bids, hlevels]
    rfl
  case wf => exact Reference.empty_wf
  case agrees =>
    constructor
    case arrivals => exact hnext.symm
    case account => exact fun k hk => absurd hk (hf.not_accepted k)
    case lookup =>
      intro id
      rw [hf.no_order]
      rfl
    case trades => exact htrades

omit [Zero P] in
/-- The reference counts the orders that were accepted. -/
theorem reference_arrivals {ref ref' : Reference P} {ls : List (Label P)}
    (hr : Path Reference.Step ref ls ref') :
    ref'.arrivals = ref.arrivals + (addedIds ls).length := by
  induction hr with
  | nil ref => simp [addedIds]
  | @cons ref ref₁ ref' l ls hs _ ih =>
    rw [ih, addedIds_cons]
    unfold Reference.Step at hs
    split at hs
    · rw [hs]
      show (Reference.settle _ _).arrivals + _ = _
      rw [Reference.settle_arrivals]
      show ref.arrivals + 1 + _ = ref.arrivals + (1 + _)
      omega
    · next id clock success =>
      have heq : ref₁ = (ref.cancel id).2 := congrArg Prod.snd hs
      rw [heq, Reference.cancel_arrivals]
      exact congrArg (ref.arrivals + ·) (Nat.zero_add _).symm
    · next id price quantity clock success =>
      have heq : ref₁ = (ref.lower id quantity.toNat).2 := congrArg Prod.snd hs
      rw [heq, Reference.lower_arrivals]
      exact congrArg (ref.arrivals + ·) (Nat.zero_add _).symm
    · rw [hs]
      exact congrArg (ref.arrivals + ·) (Nat.zero_add _).symm
    · exact hs.elim

/-- There are no more than 2^64 distinct ids. -/
theorem length_le_of_nodup {ids : List OrderId} (h : ids.Nodup) : ids.length ≤ 2 ^ 64 := by
  have hmap : (ids.map UInt64.toNat).Nodup :=
    h.map fun a b hab => UInt64.toNat_inj.mp hab
  have hsub : ids.map UInt64.toNat ⊆ List.range (2 ^ 64) := by
    intro n hn
    obtain ⟨id, -, rfl⟩ := List.mem_map.mp hn
    exact List.mem_range.mpr id.toNat_lt
  have hle := (hmap.subperm hsub).length_le
  rwa [List.length_map, List.length_range] at hle

/-- **The book refines the reference.**  In a run with distinct ids whose
    orders have positive prices and quantities and whose amendments only lower
    quantities, the reference makes the same calls with the same returned
    values, and the book reads as the reference at the end. -/
theorem refines_price_time {s s' : Session P} {ls : List (Label P)} (hf : Fresh s)
    (hr : Path (Guarded Ordinary Step) s ls s') (hids : (addedIds ls).Nodup) :
    ∃ ref, Path Reference.Step .empty ls ref ∧ ref.WF ∧ s'.book.Reads ref := by
  have hfresh := hf.freshId_path hr.of_guarded hids
  obtain ⟨ref, hpath, h⟩ := (hr.guarded_and Step.deterministic hfresh).simulation (f := id)
    (R := Refines) (fun s l s' ref h hs => h.step hs.1.1 hs.1.2 hs.2) hf.refines
  rw [List.map_id] at hpath
  refine ⟨ref, hpath, h.wf, h.agrees.arrivals, h.agrees.account, h.agrees.lookup, ?_, h.resting⟩
  -- Every trade finishes an order, and no more than 2^64 orders were accepted.
  have hlt : ref.trades < 2 ^ 64 := by
    have harrivals := reference_arrivals hpath
    have hle := length_le_of_nodup hids
    have hzero : (Reference.empty : Reference P).arrivals = 0 := rfl
    rcases h.wf.trades_lt with h0 | h1
    · rw [h0]
      exact Nat.two_pow_pos 64
    · omega
  rw [h.agrees.trades]
  exact UInt64.toNat_ofNat_of_lt hlt

/-- A buyer at 101 and one at 100. -/
def twoBuyers : List (Label ℤ) :=
  [(limit .buy 101 10, .orderId 1), (limit .buy 100 10, .orderId 2)]

/-- The second comes down to 8; a seller takes the first and half of the
    second, who then cancels. -/
def sellerTakesBoth : List (Label ℤ) :=
  [(amend 2 100 8, .done true), (limit .sell 100 14, .orderId 3), (cancel 2, .done true)]

theorem refines_price_time_takesBoth : ∃ (s : Session ℤ) (ref : Reference ℤ),
    Path Reference.Step .empty (twoBuyers ++ sellerTakesBoth) ref ∧ s.book.Reads ref ∧
      s.book.tradesCompleted = 2 := by
  obtain ⟨s₁, hs₁, hf₁⟩ := exists_path (opening 1000) twoBuyers
    (fun s => decide (Ordinary s (amend 2 100 8, .done true)) &&
      s.endsIn (sellerTakesBoth.map Prod.fst) (sellerTakesBoth.map Prod.snd)
        fun s => s.book.tradesCompleted == 2) (by
      simp only [opening, OrderBook.new, OrderPool.new_eq]
      decide +kernel)
  rw [Bool.and_eq_true, decide_eq_true_eq] at hf₁
  obtain ⟨s, hs, hf⟩ := exists_path s₁ sellerTakesBoth _ hf₁.2
  have hfirst : Path (Guarded Ordinary Step) (opening 1000) twoBuyers s₁ := by
    apply hs₁.mono_of_mem
    intro l hl s s' hstep
    refine ⟨?_, hstep⟩
    simp only [twoBuyers, List.mem_cons, List.not_mem_nil, or_false] at hl
    rcases hl with rfl | rfl <;> exact ⟨by decide, by decide⟩
  have hrest : Path (Guarded Ordinary Step) s₁ sellerTakesBoth s := by
    cases hs with
    | cons hamend htail =>
      refine .cons ⟨hf₁.1, hamend⟩ (htail.mono_of_mem ?_)
      intro l hl s s' hstep
      refine ⟨?_, hstep⟩
      simp only [List.mem_cons, List.not_mem_nil, or_false] at hl
      rcases hl with rfl | rfl
      · exact ⟨by decide, by decide⟩
      · exact trivial
  obtain ⟨ref, hpath, -, hreads⟩ :=
    refines_price_time (opening_fresh 1000) (hfirst.append hrest) (by decide)
  exact ⟨s, ref, hpath, hreads, by simpa using hf⟩

/-! ### With repeated ids -/

/-- With blocks of one id, a buyer gets the id 1, the other books draw until
    the counter has wrapped, a second buyer gets the id 1 again, and the id 1
    is cancelled. -/
def idReused : List (Label ℤ) :=
  [(limit .buy 100 10, .orderId 1)] ++ draws (2 ^ 64 - 1) ++
    [(limit .buy 100 10, .orderId 1), (cancel 1, .done true)]

omit [Zero P] in
theorem reference_draws {ref ref' : Reference P} {n : ℕ}
    (h : Path Reference.Step ref (draws n) ref') : ref' = ref := by
  induction n with
  | zero =>
    cases h
    rfl
  | succ n ih =>
    cases h with
    | cons hs h =>
      have hsame := hs
      subst hsame
      exact ih h

/-- The level goes with the second buyer, while the reference keeps the first. -/
theorem idReused_loses_order : Fresh (opening 1) ∧ ∃ s : Session ℤ,
    Path (Guarded Ordinary Step) (opening 1) idReused s ∧
      ¬ ∃ ref, Path Reference.Step .empty idReused ref ∧ s.book.Reads ref := by
  obtain ⟨s, hs, hf⟩ := exists_path_draws (opening 1) [(limit .buy 100 10, .orderId 1)]
    (2 ^ 64 - 1) [(limit .buy 100 10, .orderId 1), (cancel 1, .done true)]
    (fun s => s.book.queue .buy == []) (by
      simp only [opening, OrderBook.new, OrderPool.new_eq]
      decide +kernel)
  refine ⟨opening_fresh 1, s, ?_, ?_⟩
  · apply hs.mono_of_mem
    intro l hl s s' hstep
    refine ⟨?_, hstep⟩
    rw [List.mem_append, List.mem_append] at hl
    rcases hl with (hl | hl) | hl
    · rw [List.mem_singleton.mp hl]
      exact ⟨by decide, by decide⟩
    · rw [List.eq_of_mem_replicate hl]
      exact trivial
    · simp only [List.mem_cons, List.not_mem_nil, or_false] at hl
      rcases hl with rfl | rfl
      · exact ⟨by decide, by decide⟩
      · exact trivial
  · rintro ⟨ref, hpath, hreads⟩
    obtain ⟨ref₂, h₁₂, h₃⟩ := hpath.split
    obtain ⟨ref₁, h₁, h₂⟩ := h₁₂.split
    have hsame := reference_draws h₂
    subst hsame
    have hone : ∀ {r r' : Reference ℤ} {l : Label ℤ}, Path Reference.Step r [l] r' →
        Reference.Step r l r' := by
      intro r r' l h
      cases h with
      | cons hs h =>
        cases h
        exact hs
    obtain ⟨ref₃, h₄, h₅⟩ := Path.split
      (show Path Reference.Step ref₂ ([(limit .buy 100 10, .orderId 1)] ++ [(cancel 1, .done true)])
        ref from h₃)
    have hadd : ref₂ = (Reference.empty : Reference ℤ).add 1 .buy 100 10 := hone h₁
    have hadd' : ref₃ = ref₂.add 1 .buy 100 10 := hone h₄
    have hcancel : (true, ref) = ref₃.cancel 1 := hone h₅
    have hlast : ref =
        ((((Reference.empty : Reference ℤ).add 1 .buy 100 10).add 1 .buy 100 10).cancel 1).2 := by
      rw [← hadd, ← hadd', ← hcancel]
    have hresting := hreads.resting .buy
    rw [hlast, eq_of_beq hf] at hresting
    exact absurd hresting (by decide)

end Session
end Orderbook
