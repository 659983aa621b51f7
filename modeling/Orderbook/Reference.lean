import Orderbook.Session
import Orderbook.Lib.Priority

/-! # The reference exchange

    What an order book is for, with no levels, no tombstones and no flag.
    Orders are numbered in the order of their arrival.  Each side is a list
    of resting orders; an incoming order walks along the list of the other
    side, and what is left of it rests behind all orders of its own price.
    A price or a side never changes, and a quantity only goes down. -/

namespace Orderbook

/-- What is known of an order, cancelled and filled ones included. -/
structure Account (P : Type) where
  side     : OrderSide
  price    : P
  quantity : ℕ
  filled   : ℕ
  status   : OrderStatus
  deriving DecidableEq, Repr

def OrderSide.other : OrderSide → OrderSide
  | .buy => .sell
  | .sell => .buy

theorem OrderSide.other_ne (side : OrderSide) : side.other ≠ side := by
  cases side <;> simp [OrderSide.other]

theorem OrderSide.eq_other_iff {side side' : OrderSide} : side' = side.other ↔ side' ≠ side := by
  cases side <;> cases side' <;> simp [OrderSide.other]

/-- An order of this side at `own` can trade with one of the other at `price`. -/
def OrderSide.Meets {P : Type} [LE P] (side : OrderSide) (own price : P) : Prop :=
  match side with
  | .buy => price ≤ own
  | .sell => own ≤ price

instance {P : Type} [LinearOrder P] (side : OrderSide) (own price : P) :
    Decidable (side.Meets own price) :=
  match side with
  | .buy => inferInstanceAs (Decidable (price ≤ own))
  | .sell => inferInstanceAs (Decidable (own ≤ price))

namespace Account
variable {P : Type}

/-- Neither filled up nor cancelled. -/
def Live (a : Account P) : Prop := a.status = .new ∨ a.status = .partiallyFilled

instance (a : Account P) : Decidable a.Live := inferInstanceAs (Decidable (_ ∨ _))

def remaining (a : Account P) : ℕ := a.quantity - a.filled

def credit (a : Account P) (qty : ℕ) : Account P :=
  { a with
    filled := a.filled + qty
    status := if a.filled + qty = a.quantity then .fullyFilled else .partiallyFilled }

/-- The account of an order of the book. -/
def ofOrder (o : Order P) : Account P where
  side     := o.side
  price    := o.price
  quantity := o.quantity.toNat
  filled   := o.quantityFilled.toNat
  status   := o.status

end Account

/-- The accounts of all orders, and the number of trades. -/
structure Ledger (P : Type) where
  account : ℕ → Account P
  trades  : ℕ

structure Reference (P : Type) extends Ledger P where
  arrivals : ℕ
  lookup   : OrderId → Option ℕ
  resting  : OrderSide → List ℕ

namespace Ledger
variable {P : Type} [LinearOrder P]

/-- The order `i` is not exhausted, and the price of `j` crosses its own. -/
def Wants (i : ℕ) (ledger : Ledger P) (j : ℕ) : Bool :=
  decide (ledger.account i).Live &&
    decide ((ledger.account i).side.Meets (ledger.account i).price (ledger.account j).price)

/-- The orders `i` and `j` trade as much as both have left. -/
def trade (i : ℕ) (ledger : Ledger P) (j : ℕ) : Ledger P :=
  let qty := min (ledger.account i).remaining (ledger.account j).remaining
  { account := Function.update (Function.update ledger.account i ((ledger.account i).credit qty)) j
      ((ledger.account j).credit qty)
    trades := ledger.trades + 1 }

/-- The order `j` is done. -/
def Done (ledger : Ledger P) (j : ℕ) : Bool := !decide (ledger.account j).Live

end Ledger

namespace Reference
variable {P : Type} [LinearOrder P] [Zero P]

def empty : Reference P where
  account  := fun _ => ⟨.buy, 0, 0, 0, .new⟩
  trades   := 0
  arrivals := 0
  lookup   := fun _ => none
  resting  := fun _ => []

/-- The prices, by which the sides are sorted. -/
def price (ref : Reference P) (k : ℕ) : P := (ref.account k).price

/-! ### The operations -/

/-- A new order gets the next number and an account. -/
def accept (ref : Reference P) (id : OrderId) (side : OrderSide) (price : P) (qty : ℕ) :
    Reference P :=
  { ref with
    account  := Function.update ref.account ref.arrivals ⟨side, price, qty, 0, .new⟩
    arrivals := ref.arrivals + 1
    lookup   := Function.update ref.lookup id (some ref.arrivals) }

/-- The order `i` trades along the other side until it is exhausted or the
    next price does not cross: the ledger, and what is left of that side. -/
def swept (ref : Reference P) (i : ℕ) : Ledger P × List ℕ :=
  Priority.sweep (Ledger.Wants i) (Ledger.trade i) Ledger.Done ref.toLedger
    (ref.resting (ref.account i).side.other)

/-- What is left of the order `i` rests behind all orders of its own price. -/
def rest (ref : Reference P) (i : ℕ) : Reference P :=
  if (ref.account i).Live then
    let side := (ref.account i).side
    { ref with
      resting := Function.update ref.resting side
        (Priority.place side.before ref.price i (ref.resting side)) }
  else ref

def walk (ref : Reference P) (i : ℕ) : Reference P :=
  { ref with
    toLedger := (ref.swept i).1
    resting  := Function.update ref.resting (ref.account i).side.other (ref.swept i).2 }

def settle (ref : Reference P) (i : ℕ) : Reference P := (ref.walk i).rest i

def add (ref : Reference P) (id : OrderId) (side : OrderSide) (price : P) (qty : ℕ) :
    Reference P :=
  (ref.accept id side price qty).settle ref.arrivals

def cancel (ref : Reference P) (id : OrderId) : Bool × Reference P :=
  match ref.lookup id with
  | none => (false, ref)
  | some i =>
    if (ref.account i).Live then
      let side := (ref.account i).side
      (true,
        { ref with
          account := Function.update ref.account i { ref.account i with status := .cancelled }
          resting := Function.update ref.resting side ((ref.resting side).erase i) })
    else (false, ref)

/-- Lower the quantity of an order, to no less than it has traded already. -/
def lower (ref : Reference P) (id : OrderId) (qty : ℕ) : Bool × Reference P :=
  match ref.lookup id with
  | none => (false, ref)
  | some i =>
    if (ref.account i).Live ∧ (ref.account i).filled < qty ∧ qty < (ref.account i).quantity then
      (true,
        { ref with
          account := Function.update ref.account i { ref.account i with quantity := qty } })
    else (false, ref)

/-- One event of a run and what it returns.  The ids are given out elsewhere. -/
def Step (ref : Reference P) (l : Event P × Reply) (ref' : Reference P) : Prop :=
  match l with
  | (.addOrder client _, .orderId id) =>
    ref' = ref.add id client.side client.price client.quantity.toNat
  | (.cancelOrder id _, .done success) => (success, ref') = ref.cancel id
  | (.modifyOrder id _ quantity _, .done success) => (success, ref') = ref.lower id quantity.toNat
  | (.otherDraws, .silent) => ref' = ref
  | _ => False

/-! ### What keeps the sides in order -/

end Reference

namespace Account
variable {P : Type}

theorem credit_live_iff (a : Account P) (qty : ℕ) :
    (a.credit qty).Live ↔ a.filled + qty ≠ a.quantity := by
  unfold credit Live
  by_cases h : a.filled + qty = a.quantity <;> simp [h]

/-- A live order that is credited no more than it has left is not filled up. -/
theorem credit_opened {a : Account P} {qty : ℕ} (hopen : a.filled < a.quantity)
    (hqty : qty ≤ a.remaining) (hlive : (a.credit qty).Live) :
    (a.credit qty).filled < (a.credit qty).quantity := by
  rw [credit_live_iff] at hlive
  unfold remaining at hqty
  show a.filled + qty < a.quantity
  omega

end Account

namespace Reference
variable {P : Type} [LinearOrder P]

/-- The sides are the live orders, by price and then by arrival.  The number
    of trades is bounded, since each of them finishes an order. -/
structure WF [Zero P] (ref : Reference P) : Prop where
  mem : ∀ side k, k ∈ ref.resting side ↔
    k < ref.arrivals ∧ (ref.account k).Live ∧ (ref.account k).side = side
  sorted : ∀ side : OrderSide, Priority.Sorted side.before ref.price (ref.resting side)
  priced : ∀ k, k < ref.arrivals → 0 < ref.price k
  opened : ∀ k, k < ref.arrivals → (ref.account k).Live →
    (ref.account k).filled < (ref.account k).quantity
  count : ref.trades + (ref.resting .buy).length + (ref.resting .sell).length ≤ ref.arrivals
  trades_lt : ref.trades = 0 ∨ ref.trades < ref.arrivals

theorem empty_wf [Zero P] : (empty : Reference P).WF where
  mem := by simp [empty]
  sorted _ := List.Pairwise.nil
  priced := by simp [empty]
  opened := by simp [empty]
  count := by simp [empty]
  trades_lt := Or.inl rfl

/-- The walk of the order `i` along the other side, `ref` being the exchange
    before it: only `i` and orders of the other side are credited. -/
structure Sweeping (ref : Reference P) (i : ℕ) (ledger : Ledger P) (left : List ℕ) : Prop where
  fixed : ∀ k, (ledger.account k).side = (ref.account k).side ∧
    (ledger.account k).price = (ref.account k).price
  own : ∀ k, k ≠ i → (ref.account k).side = (ref.account i).side →
    ledger.account k = ref.account k
  mem : ∀ k, k ∈ left ↔ k < ref.arrivals ∧ (ledger.account k).Live ∧
    (ref.account k).side = (ref.account i).side.other
  sorted : Priority.Sorted (ref.account i).side.other.before ref.price left
  opened : ∀ k, k < ref.arrivals → (ledger.account k).Live →
    (ledger.account k).filled < (ledger.account k).quantity
  count : ledger.trades + left.length + (if (ledger.account i).Live then 1 else 0) ≤
    ref.trades + (ref.resting (ref.account i).side.other).length + 1
  trades_le : ledger.trades ≤ ref.trades + (ref.resting (ref.account i).side.other).length

omit [LinearOrder P] in
theorem trade_account (ledger : Ledger P) {i j : ℕ} (k : ℕ) :
    (ledger.trade i j).account k =
      if k = j then (ledger.account j).credit
        (min (ledger.account i).remaining (ledger.account j).remaining)
      else if k = i then (ledger.account i).credit
        (min (ledger.account i).remaining (ledger.account j).remaining)
      else ledger.account k := by
  simp only [Ledger.trade, Function.update_apply]

namespace Sweeping
variable {ref : Reference P} {i j : ℕ} {ledger : Ledger P} {js : List ℕ}

/-- The order does not meet itself. -/
theorem ne (h : Sweeping ref i ledger (j :: js)) : i ≠ j := by
  obtain ⟨-, -, hside⟩ := (h.mem j).mp List.mem_cons_self
  intro heq
  rw [← heq] at hside
  exact OrderSide.other_ne _ hside.symm

theorem notMem_tail (h : Sweeping ref i ledger (j :: js)) : j ∉ js := by
  obtain ⟨hbefore, -⟩ := List.pairwise_cons.mp h.sorted
  intro hmem
  exact (hbefore j hmem).ne rfl

/-- The accounts after a trade: only `i` and `j` are credited. -/
theorem trade_account_other (h : Sweeping ref i ledger (j :: js)) {k : ℕ} (hk : k ≠ i)
    (hside : (ref.account k).side = (ref.account i).side) :
    (ledger.trade i j).account k = ledger.account k := by
  obtain ⟨-, -, hsidej⟩ := (h.mem j).mp List.mem_cons_self
  have hkj : k ≠ j := by
    intro heq
    rw [heq, hsidej] at hside
    exact OrderSide.other_ne _ hside
  rw [trade_account, if_neg hkj, if_neg hk]

theorem trade_fixed (h : Sweeping ref i ledger (j :: js)) (k : ℕ) :
    ((ledger.trade i j).account k).side = (ref.account k).side ∧
      ((ledger.trade i j).account k).price = (ref.account k).price := by
  rw [trade_account]
  split
  · next hk =>
    rw [hk]
    exact h.fixed j
  · split
    · next hk =>
      rw [hk]
      exact h.fixed i
    · exact h.fixed k

theorem trade_mem (h : Sweeping ref i ledger (j :: js)) (k : ℕ) :
    k ∈ Priority.after Ledger.Done (ledger.trade i j) j js ↔
      k < ref.arrivals ∧ ((ledger.trade i j).account k).Live ∧
        (ref.account k).side = (ref.account i).side.other := by
  obtain ⟨hj, hlivej, hsidej⟩ := (h.mem j).mp List.mem_cons_self
  have hki : k = i → (ref.account k).side ≠ (ref.account i).side.other := by
    intro heq
    rw [heq]
    exact (OrderSide.other_ne _).symm
  unfold Priority.after Ledger.Done
  by_cases hkj : k = j
  · subst hkj
    by_cases hl : ((ledger.trade i k).account k).Live
    · simp [hl, hj, hsidej]
    · simp [hl, h.notMem_tail]
  · -- Of the orders of the other side only `j` is credited.
    have hrest : ((ledger.trade i j).account k).Live ∧
        (ref.account k).side = (ref.account i).side.other ↔ (ledger.account k).Live ∧
        (ref.account k).side = (ref.account i).side.other := by
      rw [trade_account, if_neg hkj]
      split
      · next hk => simp [hki hk]
      · rfl
    rw [hrest, ← h.mem k]
    split <;> simp [hkj]

theorem trade_opened (h : Sweeping ref i ledger (j :: js)) (hi : i < ref.arrivals)
    (hlive : (ledger.account i).Live) (k : ℕ) (hk : k < ref.arrivals)
    (hl : ((ledger.trade i j).account k).Live) :
    ((ledger.trade i j).account k).filled < ((ledger.trade i j).account k).quantity := by
  obtain ⟨hj, hlivej, -⟩ := (h.mem j).mp List.mem_cons_self
  have hopeni := h.opened i hi hlive
  have hopenj := h.opened j hj hlivej
  rw [trade_account] at hl ⊢
  by_cases hkj : k = j
  · rw [if_pos hkj] at hl ⊢
    exact Account.credit_opened hopenj (Nat.min_le_right _ _) hl
  · rw [if_neg hkj] at hl ⊢
    by_cases hki : k = i
    · rw [if_pos hki] at hl ⊢
      exact Account.credit_opened hopeni (Nat.min_le_left _ _) hl
    · rw [if_neg hki] at hl ⊢
      exact h.opened k hk hl

/-- One of the two orders is filled up by the trade. -/
theorem trade_done (h : Sweeping ref i ledger (j :: js)) (hi : i < ref.arrivals)
    (hlive : (ledger.account i).Live) :
    ¬ ((ledger.trade i j).account i).Live ∨ ¬ ((ledger.trade i j).account j).Live := by
  obtain ⟨hj, hlivej, -⟩ := (h.mem j).mp List.mem_cons_self
  have hopeni := h.opened i hi hlive
  have hopenj := h.opened j hj hlivej
  rw [trade_account, trade_account, if_neg h.ne, if_pos rfl, if_pos rfl, Account.credit_live_iff,
    Account.credit_live_iff]
  unfold Account.remaining
  omega

theorem trade_count (h : Sweeping ref i ledger (j :: js)) (hi : i < ref.arrivals)
    (hlive : (ledger.account i).Live) :
    (ledger.trade i j).trades + (Priority.after Ledger.Done (ledger.trade i j) j js).length +
        (if ((ledger.trade i j).account i).Live then 1 else 0) ≤
      ref.trades + (ref.resting (ref.account i).side.other).length + 1 := by
  have hcount := h.count
  have htrades : (ledger.trade i j).trades = ledger.trades + 1 := rfl
  have hlen : (Priority.after Ledger.Done (ledger.trade i j) j js).length =
      if ((ledger.trade i j).account j).Live then js.length + 1 else js.length := by
    unfold Priority.after Ledger.Done
    by_cases hl : ((ledger.trade i j).account j).Live
    · simp [hl]
    · simp [hl]
  rw [if_pos hlive, List.length_cons] at hcount
  rw [htrades, hlen]
  -- The trade is made up for by the order that is done.
  rcases h.trade_done hi hlive with hdone | hdone
  · rw [if_neg hdone]
    split <;> omega
  · rw [if_neg hdone]
    split <;> omega

theorem trade (h : Sweeping ref i ledger (j :: js)) (hi : i < ref.arrivals)
    (hwants : ledger.Wants i j = true) :
    Sweeping ref i (ledger.trade i j) (Priority.after Ledger.Done (ledger.trade i j) j js) := by
  unfold Ledger.Wants at hwants
  rw [Bool.and_eq_true, decide_eq_true_eq, decide_eq_true_eq] at hwants
  have hlive := hwants.1
  constructor
  case fixed => exact h.trade_fixed
  case own =>
    intro k hk hside
    rw [h.trade_account_other hk hside]
    exact h.own k hk hside
  case mem => exact h.trade_mem
  case sorted =>
    unfold Priority.after
    split
    · exact (List.pairwise_cons.mp h.sorted).2
    · exact h.sorted
  case opened => exact h.trade_opened hi hlive
  case count => exact h.trade_count hi hlive
  case trades_le =>
    have hcount := h.count
    have htrades : (ledger.trade i j).trades = ledger.trades + 1 := rfl
    rw [if_pos hlive, List.length_cons] at hcount
    rw [htrades]
    omega

end Sweeping

theorem sweeping_swept {ref : Reference P} {i : ℕ} (hi : i < ref.arrivals)
    (h : Sweeping ref i ref.toLedger (ref.resting (ref.account i).side.other)) :
    Sweeping ref i (ref.swept i).1 (ref.swept i).2 :=
  Priority.sweep_invariant (fun _ _ _ hwants hs => Sweeping.trade hs hi hwants) h

/-! ### The exchange after a call -/

@[simp] theorem rest_toLedger (ref : Reference P) (i : ℕ) :
    (ref.rest i).toLedger = ref.toLedger := by
  unfold rest
  split <;> rfl

@[simp] theorem rest_arrivals (ref : Reference P) (i : ℕ) :
    (ref.rest i).arrivals = ref.arrivals := by
  unfold rest
  split <;> rfl

@[simp] theorem rest_lookup (ref : Reference P) (i : ℕ) : (ref.rest i).lookup = ref.lookup := by
  unfold rest
  split <;> rfl

theorem rest_resting (ref : Reference P) (i : ℕ) (side : OrderSide) :
    (ref.rest i).resting side =
      if (ref.account i).Live ∧ side = (ref.account i).side then
        Priority.place side.before ref.price i (ref.resting side)
      else ref.resting side := by
  unfold rest
  by_cases hlive : (ref.account i).Live
  · by_cases hside : side = (ref.account i).side
    · subst hside
      simp [hlive]
    · simp [hlive, hside]
  · simp [hlive]

@[simp] theorem walk_account (ref : Reference P) (i : ℕ) :
    (ref.walk i).account = (ref.swept i).1.account := rfl

@[simp] theorem walk_resting (ref : Reference P) (i : ℕ) : (ref.walk i).resting =
    Function.update ref.resting (ref.account i).side.other (ref.swept i).2 := rfl

@[simp] theorem settle_toLedger (ref : Reference P) (i : ℕ) :
    (ref.settle i).toLedger = (ref.swept i).1 := rest_toLedger _ i

@[simp] theorem settle_arrivals (ref : Reference P) (i : ℕ) :
    (ref.settle i).arrivals = ref.arrivals := rest_arrivals _ i

@[simp] theorem settle_lookup (ref : Reference P) (i : ℕ) :
    (ref.settle i).lookup = ref.lookup := rest_lookup _ i

omit [LinearOrder P] in
@[simp] theorem cancel_arrivals (ref : Reference P) (id : OrderId) :
    (ref.cancel id).2.arrivals = ref.arrivals := by
  unfold cancel
  split
  · rfl
  · split <;> rfl

omit [LinearOrder P] in
@[simp] theorem lower_arrivals (ref : Reference P) (id : OrderId) (qty : ℕ) :
    (ref.lower id qty).2.arrivals = ref.arrivals := by
  unfold lower
  split
  · rfl
  · split <;> rfl

/-- An exchange with an order `i` that was accepted and is not yet settled. -/
structure Pending [Zero P] (ref : Reference P) (i : ℕ) : Prop where
  last : ref.arrivals = i + 1
  mem : ∀ side k, k ∈ ref.resting side ↔
    k < i ∧ (ref.account k).Live ∧ (ref.account k).side = side
  sorted : ∀ side : OrderSide, Priority.Sorted side.before ref.price (ref.resting side)
  priced : ∀ k, k < ref.arrivals → 0 < ref.price k
  opened : ∀ k, k < ref.arrivals → (ref.account k).Live →
    (ref.account k).filled < (ref.account k).quantity
  count : ref.trades + (ref.resting .buy).length + (ref.resting .sell).length ≤ i

section Accept
omit [LinearOrder P]

theorem accept_account (ref : Reference P) (id : OrderId) (side : OrderSide) (price : P)
    (qty k : ℕ) :
    (ref.accept id side price qty).account k =
      if k = ref.arrivals then ⟨side, price, qty, 0, .new⟩ else ref.account k := by
  simp only [accept, Function.update_apply]

theorem accept_new (ref : Reference P) (id : OrderId) (side : OrderSide) (price : P) (qty : ℕ) :
    (ref.accept id side price qty).account ref.arrivals = ⟨side, price, qty, 0, .new⟩ := by
  rw [accept_account, if_pos rfl]

/-- The new account is the only one that is written. -/
theorem accept_old (ref : Reference P) (id : OrderId) (side : OrderSide) (price : P) (qty : ℕ)
    {k : ℕ} (hk : k < ref.arrivals) :
    (ref.accept id side price qty).account k = ref.account k := by
  rw [accept_account, if_neg (Nat.ne_of_lt hk)]

theorem accept_lookup (ref : Reference P) (id id' : OrderId) (side : OrderSide) (price : P)
    (qty : ℕ) : (ref.accept id side price qty).lookup id' =
      if id' = id then some ref.arrivals else ref.lookup id' := by
  simp only [accept, Function.update_apply]

end Accept

theorem add_arrivals (ref : Reference P) (id : OrderId) (side : OrderSide) (price : P) (qty : ℕ) :
    (ref.add id side price qty).arrivals = ref.arrivals + 1 := settle_arrivals _ _

variable [Zero P]

theorem accept_pending {ref : Reference P} (h : ref.WF) (id : OrderId) (side : OrderSide)
    {price : P} (hprice : 0 < price) {qty : ℕ} (hqty : 0 < qty) :
    (ref.accept id side price qty).Pending ref.arrivals := by
  have hcase : ∀ k, k < (ref.accept id side price qty).arrivals →
      k = ref.arrivals ∨ k < ref.arrivals := by
    intro k hk
    have hk : k < ref.arrivals + 1 := hk
    omega
  constructor
  case last => exact rfl
  case mem =>
    intro side' k
    show k ∈ ref.resting side' ↔ _
    rw [h.mem]
    apply and_congr_right
    intro hk
    rw [accept_old _ _ _ _ _ hk]
  case sorted =>
    intro side'
    refine (h.sorted side').congr ?_
    intro k hk
    unfold Reference.price
    rw [accept_old _ _ _ _ _ ((h.mem side' k).mp hk).1]
  case priced =>
    intro k hk
    unfold Reference.price
    rcases hcase k hk with rfl | hk
    · rw [accept_new]
      exact hprice
    · rw [accept_old _ _ _ _ _ hk]
      exact h.priced k hk
  case opened =>
    intro k hk hl
    rcases hcase k hk with rfl | hk
    · rw [accept_new]
      exact hqty
    · rw [accept_old _ _ _ _ _ hk] at hl ⊢
      exact h.opened k hk hl
  case count => exact h.count

namespace Pending
variable {ref : Reference P} {i : ℕ}

theorem sweeping (h : ref.Pending i) : Sweeping ref i (ref.swept i).1 (ref.swept i).2 := by
  have hlast := h.last
  apply sweeping_swept (by omega)
  constructor
  case fixed => exact fun k => ⟨rfl, rfl⟩
  case own => exact fun k _ _ => rfl
  case mem =>
    intro k
    rw [h.mem, hlast]
    -- The order itself is on its own side.
    constructor
    · rintro ⟨hk, hl, hs⟩
      exact ⟨by omega, hl, hs⟩
    · rintro ⟨hk, hl, hs⟩
      refine ⟨?_, hl, hs⟩
      have hki : k ≠ i := by
        intro heq
        rw [heq] at hs
        exact OrderSide.other_ne _ hs.symm
      omega
  case sorted => exact h.sorted _
  case opened => exact h.opened
  case count =>
    split <;> omega
  case trades_le => exact Nat.le_add_right _ _

theorem walk_price (h : ref.Pending i) : (ref.walk i).price = ref.price :=
  funext fun k => (h.sweeping.fixed k).2

/-- The sides after the order was settled. -/
theorem settle_resting (h : ref.Pending i) (side : OrderSide) :
    (ref.settle i).resting side =
      if side = (ref.account i).side then
        (if ((ref.swept i).1.account i).Live then
          Priority.place side.before ref.price i (ref.resting side) else ref.resting side)
      else (ref.swept i).2 := by
  unfold settle
  have hfix : ((ref.walk i).account i).side = (ref.account i).side := (h.sweeping.fixed i).1
  rw [rest_resting, h.walk_price, hfix]
  by_cases hs : side = (ref.account i).side
  · have hne : side ≠ (ref.account i).side.other := fun heq =>
      OrderSide.other_ne _ (heq.symm.trans hs)
    rw [walk_resting, Function.update_of_ne hne]
    simp only [hs, and_true, if_true, walk_account]
  · rw [walk_resting, if_neg hs, if_neg fun hc => hs hc.2, OrderSide.eq_other_iff.mpr hs,
      Function.update_self]

theorem settle_price (h : ref.Pending i) : (ref.settle i).price = ref.price := by
  funext k
  unfold Reference.price
  rw [settle_toLedger]
  exact (h.sweeping.fixed k).2

/-- Its own side, after the walk and before the order joins it. -/
theorem mem_own_side (h : ref.Pending i) (k : ℕ) :
    k ∈ ref.resting (ref.account i).side ↔ k < i + 1 ∧ k ≠ i ∧
      ((ref.swept i).1.account k).Live ∧ (ref.account k).side = (ref.account i).side := by
  rw [h.mem]
  constructor
  · intro hmem
    obtain ⟨hk, hl, hsk⟩ := hmem
    have hki : k ≠ i := Nat.ne_of_lt hk
    refine ⟨Nat.lt_succ_of_lt hk, hki, ?_, hsk⟩
    rw [h.sweeping.own k hki hsk]
    exact hl
  · intro hmem
    obtain ⟨hk, hki, hl, hsk⟩ := hmem
    rw [h.sweeping.own k hki hsk] at hl
    exact ⟨by omega, hl, hsk⟩

theorem settle_mem (h : ref.Pending i) (side : OrderSide) (k : ℕ) :
    k ∈ (ref.settle i).resting side ↔ k < (ref.settle i).arrivals ∧
      ((ref.settle i).account k).Live ∧ ((ref.settle i).account k).side = side := by
  have hlast := h.last
  rw [h.settle_resting, settle_arrivals, settle_toLedger, (h.sweeping.fixed k).1, hlast]
  by_cases hside : side = (ref.account i).side
  · subst hside
    rw [if_pos rfl]
    by_cases hlive : ((ref.swept i).1.account i).Live
    · rw [if_pos hlive, Priority.mem_place, h.mem_own_side]
      constructor
      · intro hmem
        rcases hmem with rfl | ⟨hk, -, hl, hsk⟩
        · exact ⟨Nat.lt_succ_self k, hlive, rfl⟩
        · exact ⟨hk, hl, hsk⟩
      · intro hmem
        obtain ⟨hk, hl, hsk⟩ := hmem
        by_cases hki : k = i
        · exact Or.inl hki
        · exact Or.inr ⟨hk, hki, hl, hsk⟩
    · -- The order was filled up on its walk.
      rw [if_neg hlive, h.mem_own_side]
      constructor
      · intro hmem
        obtain ⟨hk, -, hl, hsk⟩ := hmem
        exact ⟨hk, hl, hsk⟩
      · intro hmem
        obtain ⟨hk, hl, hsk⟩ := hmem
        exact ⟨hk, fun hki => hlive (hki ▸ hl), hl, hsk⟩
  · rw [if_neg hside, h.sweeping.mem, hlast, OrderSide.eq_other_iff.mpr hside]

theorem settle_sorted (h : ref.Pending i) (side : OrderSide) :
    Priority.Sorted side.before (ref.settle i).price ((ref.settle i).resting side) := by
  rw [h.settle_resting, h.settle_price]
  split
  · split
    · exact (h.sorted side).place fun k hk => ((h.mem side k).mp hk).1
    · exact h.sorted side
  · next hside =>
    rw [OrderSide.eq_other_iff.mpr hside]
    exact h.sweeping.sorted

theorem settle_count (h : ref.Pending i) :
    (ref.settle i).trades + ((ref.settle i).resting .buy).length +
      ((ref.settle i).resting .sell).length ≤ (ref.settle i).arrivals := by
  have hcount := h.sweeping.count
  have hbefore := h.count
  rw [h.settle_resting, h.settle_resting, settle_arrivals, settle_toLedger, h.last]
  -- Side by side: the order may join its own, and the walk shortened the other.
  cases hside : (ref.account i).side <;> rw [hside] at hcount <;>
    simp only [OrderSide.other, if_true, reduceCtorEq, if_false] at hcount ⊢ <;>
    split <;> simp_all only [if_true, if_false, Priority.length_place] <;> omega

theorem settle_trades_lt (h : ref.Pending i) :
    (ref.settle i).trades < (ref.settle i).arrivals := by
  have htrades := h.sweeping.trades_le
  have hbefore := h.count
  rw [settle_arrivals, settle_toLedger, h.last]
  cases hside : (ref.account i).side <;> rw [hside] at htrades <;>
    simp only [OrderSide.other] at htrades <;> omega

/-- A new order is settled: the sides are in order again. -/
theorem settle_wf (h : ref.Pending i) : (ref.settle i).WF where
  mem := h.settle_mem
  sorted := h.settle_sorted
  priced k hk := by
    rw [settle_arrivals] at hk
    rw [h.settle_price]
    exact h.priced k hk
  opened k hk hl := by
    rw [settle_arrivals] at hk
    rw [settle_toLedger] at hl ⊢
    exact h.sweeping.opened k hk hl
  count := h.settle_count
  trades_lt := Or.inr h.settle_trades_lt

end Pending

theorem add_wf {ref : Reference P} (h : ref.WF) (id : OrderId) (side : OrderSide) {price : P}
    (hprice : 0 < price) {qty : ℕ} (hqty : 0 < qty) : (ref.add id side price qty).WF :=
  (accept_pending h id side hprice hqty).settle_wf

/-- Writing one account back, with its side and price. -/
theorem WF.update {ref : Reference P} (h : ref.WF) {i : ℕ} {a : Account P}
    {resting : OrderSide → List ℕ} (hside : a.side = (ref.account i).side)
    (hprice : a.price = (ref.account i).price) (hopen : a.Live → a.filled < a.quantity)
    (hsub : ∀ side, (resting side).Sublist (ref.resting side))
    (hmem : ∀ side k, k ∈ resting side ↔ k ∈ ref.resting side ∧ (k = i → a.Live))
    (hlive : i < ref.arrivals → a.Live → (ref.account i).Live) :
    WF { ref with account := Function.update ref.account i a, resting := resting } := by
  have hat : ∀ k, k = i → Function.update ref.account i a k = a := by
    intro k hk
    rw [hk]
    exact Function.update_self _ _ _
  have hne : ∀ k, k ≠ i → Function.update ref.account i a k = ref.account k := fun k hk =>
    Function.update_of_ne hk _ _
  -- Prices do not change, so neither does the order of the sides.
  have hrank : Reference.price { ref with
      account := Function.update ref.account i a, resting := resting } = ref.price := by
    funext k
    unfold Reference.price
    by_cases hk : k = i
    · show (Function.update ref.account i a k).price = _
      rw [hat k hk, hprice, hk]
    · show (Function.update ref.account i a k).price = _
      rw [hne k hk]
  constructor
  case mem =>
    intro side k
    show k ∈ resting side ↔ k < ref.arrivals ∧ (Function.update ref.account i a k).Live ∧
      (Function.update ref.account i a k).side = side
    rw [hmem, h.mem]
    by_cases hk : k = i
    · subst hk
      rw [hat k rfl, hside]
      constructor
      · rintro ⟨⟨hk, -, hs⟩, hl⟩
        exact ⟨hk, hl rfl, hs⟩
      · rintro ⟨hk, hl, hs⟩
        exact ⟨⟨hk, hlive hk hl, hs⟩, fun _ => hl⟩
    · rw [hne k hk]
      simp [hk]
  case sorted =>
    intro side
    rw [hrank]
    exact (h.sorted side).sublist (hsub side)
  case priced =>
    intro k hk
    rw [hrank]
    exact h.priced k hk
  case opened =>
    intro k hk hl
    show (Function.update ref.account i a k).filled < (Function.update ref.account i a k).quantity
    have hl : (Function.update ref.account i a k).Live := hl
    by_cases hki : k = i
    · rw [hat k hki] at hl ⊢
      exact hopen hl
    · rw [hne k hki] at hl ⊢
      exact h.opened k hk hl
  case count =>
    have hcount := h.count
    have hbuy := (hsub .buy).length_le
    have hsell := (hsub .sell).length_le
    show ref.trades + (resting .buy).length + (resting .sell).length ≤ ref.arrivals
    omega
  case trades_lt => exact h.trades_lt

theorem cancel_wf {ref : Reference P} (h : ref.WF) (id : OrderId) : (ref.cancel id).2.WF := by
  unfold cancel
  split
  · exact h
  · next i hid =>
    split
    · next hlive =>
      have hnodup : ∀ side, (ref.resting side).Nodup := fun side => (h.sorted side).nodup
      have hdead : ¬ ({ ref.account i with status := .cancelled } : Account P).Live := by
        simp [Account.Live]
      -- It leaves the side it is on, and nothing else changes.
      refine h.update rfl rfl (fun hl => absurd hl hdead) ?_ ?_
        fun _ hl => absurd hl hdead
      · intro side
        by_cases hs : side = (ref.account i).side
        · subst hs
          rw [Function.update_self]
          exact List.erase_sublist
        · rw [Function.update_of_ne hs]
      · intro side k
        by_cases hs : side = (ref.account i).side
        · subst hs
          rw [Function.update_self, (hnodup _).mem_erase_iff]
          simp [hdead, and_comm]
        · rw [Function.update_of_ne hs]
          -- The order is not among those of the other side.
          have hnot : k ∈ ref.resting side → k ≠ i := by
            intro hk heq
            rw [h.mem, heq] at hk
            exact hs hk.2.2.symm
          exact ⟨fun hk => ⟨hk, fun heq => absurd heq (hnot hk)⟩, And.left⟩
    · exact h

theorem lower_wf {ref : Reference P} (h : ref.WF) (id : OrderId) (qty : ℕ) :
    (ref.lower id qty).2.WF := by
  unfold lower
  split
  · exact h
  · next i hid =>
    split
    · next hok =>
      have hlive : ({ ref.account i with quantity := qty } : Account P).Live := hok.1
      exact h.update rfl rfl (fun _ => hok.2.1) (fun _ => List.Sublist.refl _)
        (fun _ k => ⟨fun hk => ⟨hk, fun _ => hlive⟩, And.left⟩) fun _ _ => hok.1
    · exact h

/-- The orders that a run of the reference is about. -/
def Proper (l : Event P × Reply) : Prop :=
  match l.1 with
  | .addOrder client _ => 0 < client.price ∧ 1 ≤ client.quantity
  | _ => True

/-- **The reference is well formed.** -/
theorem Step.wf {ref ref' : Reference P} {l : Event P × Reply} (hs : Step ref l ref')
    (hl : Proper l) (h : ref.WF) : ref'.WF := by
  unfold Step at hs
  split at hs
  · next client clock id =>
    have hqty : 0 < client.quantity.toNat := by
      have hle := UInt64.le_iff_toNat_le.mp hl.2
      rw [UInt64.toNat_one] at hle
      omega
    rw [hs]
    exact add_wf h id client.side hl.1 hqty
  · next id clock success =>
    have : ref' = (ref.cancel id).2 := congrArg Prod.snd hs
    rw [this]
    exact cancel_wf h id
  · next id price quantity clock success =>
    have : ref' = (ref.lower id quantity.toNat).2 := congrArg Prod.snd hs
    rw [this]
    exact lower_wf h id _
  · rw [hs]
    exact h
  · exact hs.elim

end Reference
end Orderbook
