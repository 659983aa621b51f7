import Orderbook.Outcomes
import Orderbook.Lib.Waterfall

/-! # What an incoming order trades

    The loop of `try_match` and its bookkeeping in closed form.  The orders
    that an incoming order crosses stand in the queue of the other side by
    price and arrival, and share its quantity in this order.  What they leave
    of it joins the queue of its own side. -/

namespace Orderbook
open Waterfall

namespace Account
variable {P : Type}

/-- What several trades do to an account, `qty` being their sum. -/
def gain (a : Account P) (qty : ℕ) : Account P := if qty = 0 then a else a.credit qty

@[simp] theorem gain_zero (a : Account P) : a.gain 0 = a := if_pos rfl

theorem gain_side (a : Account P) (qty : ℕ) : (a.gain qty).side = a.side := by
  unfold gain
  split <;> rfl

theorem gain_price (a : Account P) (qty : ℕ) : (a.gain qty).price = a.price := by
  unfold gain
  split <;> rfl

theorem gain_quantity (a : Account P) (qty : ℕ) : (a.gain qty).quantity = a.quantity := by
  unfold gain
  split <;> rfl

theorem gain_filled (a : Account P) (qty : ℕ) : (a.gain qty).filled = a.filled + qty := by
  unfold gain
  split
  · next h => rw [h, Nat.add_zero]
  · rfl

theorem gain_gain (a : Account P) (x y : ℕ) : (a.gain x).gain y = a.gain (x + y) := by
  by_cases hx : x = 0
  · rw [hx, gain_zero, Nat.zero_add]
  · by_cases hy : y = 0
    · rw [hy, gain_zero, Nat.add_zero]
    · have hxy : x + y ≠ 0 := by omega
      simp only [gain, if_neg hx, if_neg hy, if_neg hxy, credit, Nat.add_assoc]

theorem gain_remaining (a : Account P) (qty : ℕ) :
    (a.gain qty).remaining = a.remaining - qty := by
  rw [remaining, remaining, gain_filled, gain_quantity, Nat.sub_add_eq]

/-- Live as long as something is left. -/
def Open (a : Account P) : Prop := a.Live ↔ 0 < a.remaining

theorem Open.gain {a : Account P} (h : a.Open) {qty : ℕ} (hqty : qty ≤ a.remaining) :
    (a.gain qty).Open := by
  by_cases hzero : qty = 0
  · rw [hzero, gain_zero]
    exact h
  · have hne : (a.gain qty) = a.credit qty := if_neg hzero
    unfold Open
    rw [gain_remaining, hne, credit_live_iff]
    unfold remaining at hqty ⊢
    omega

end Account

namespace Ledger
variable {P : Type} [LinearOrder P] {ledger : Ledger P} {i j : ℕ} {js : List ℕ}

/-- The price of `j` crosses that of `i`. -/
def Crosses (ledger : Ledger P) (i j : ℕ) : Bool :=
  decide ((ledger.account i).side.Meets (ledger.account i).price (ledger.account j).price)

/-- What the orders of a list have left. -/
def lefts (ledger : Ledger P) (l : List ℕ) : List ℕ := l.map fun j => (ledger.account j).remaining

omit [LinearOrder P] in
/-- A trade is a gain on both sides. -/
theorem trade_eq_gain (hi : 0 < (ledger.account i).remaining)
    (hj : 0 < (ledger.account j).remaining) (k : ℕ) :
    (ledger.trade i j).account k =
      if k = j then (ledger.account j).gain
        (min (ledger.account i).remaining (ledger.account j).remaining)
      else if k = i then (ledger.account i).gain
        (min (ledger.account i).remaining (ledger.account j).remaining)
      else ledger.account k := by
  have hne : min (ledger.account i).remaining (ledger.account j).remaining ≠ 0 := by omega
  rw [Reference.trade_account, Account.gain, Account.gain, if_neg hne, if_neg hne]

/-- The walk of the order `i` along `l` in closed form. -/
structure Walked (ledger : Ledger P) (i : ℕ) (l : List ℕ) (ledger' : Ledger P) : Prop where
  own : ledger'.account i = (ledger.account i).gain
    (min (ledger.account i).remaining (ledger.lefts (l.takeWhile (ledger.Crosses i))).sum)
  met : ∀ p ∈ (l.takeWhile (ledger.Crosses i)).zip
    (shares (ledger.account i).remaining (ledger.lefts (l.takeWhile (ledger.Crosses i)))),
    ledger'.account p.1 = (ledger.account p.1).gain p.2
  others : ∀ k, k ≠ i → k ∉ l.takeWhile (ledger.Crosses i) → ledger'.account k = ledger.account k
  trades : ledger'.trades = ledger.trades +
    served (ledger.account i).remaining (ledger.lefts (l.takeWhile (ledger.Crosses i)))

/-- Where nothing is shared out, nothing changes. -/
theorem Walked.refl {l : List ℕ}
    (h : (ledger.account i).remaining = 0 ∨ l.takeWhile (ledger.Crosses i) = []) :
    Walked ledger i l ledger := by
  rcases h with hzero | hnil
  · constructor
    case own => rw [hzero, Nat.zero_min, Account.gain_zero]
    case met =>
      intro p hp
      rw [hzero] at hp
      rw [shares_zero _ p.2 (List.of_mem_zip hp).2, Account.gain_zero]
    case others => exact fun _ _ _ => rfl
    case trades => rw [hzero, served_zero, Nat.add_zero]
  · constructor
    case own => rw [hnil, lefts, List.map_nil, List.sum_nil, Nat.min_zero, Account.gain_zero]
    case met =>
      intro p hp
      rw [hnil] at hp
      cases hp
    case others => exact fun _ _ _ => rfl
    case trades => rw [hnil]; rfl

/-- A trade with `j` changes nothing for the orders behind it. -/
theorem trade_behind (hij : i ≠ j) (hjs : j ∉ js) (his : i ∉ js)
    (hi : 0 < (ledger.account i).remaining) (hj : 0 < (ledger.account j).remaining) :
    (∀ k ∈ js, (ledger.trade i j).account k = ledger.account k) ∧
      js.takeWhile ((ledger.trade i j).Crosses i) = js.takeWhile (ledger.Crosses i) := by
  have haccount : ∀ k ∈ js, (ledger.trade i j).account k = ledger.account k := by
    intro k hk
    have hkj : k ≠ j := fun heq => hjs (heq ▸ hk)
    have hki : k ≠ i := fun heq => his (heq ▸ hk)
    rw [trade_eq_gain hi hj, if_neg hkj, if_neg hki]
  refine ⟨haccount, takeWhile_congr_of_mem ?_⟩
  intro k hk
  unfold Crosses
  rw [haccount k hk, trade_eq_gain hi hj i, if_neg hij, if_pos rfl, Account.gain_side,
    Account.gain_price]

/-- One trade and the walk that follows it. -/
theorem Walked.cons {ledger' : Ledger P} (hij : i ≠ j) (hjs : j ∉ js) (his : i ∉ js)
    (hi : 0 < (ledger.account i).remaining) (hj : 0 < (ledger.account j).remaining)
    (hcross : ledger.Crosses i j = true) (h : Walked (ledger.trade i j) i js ledger') :
    Walked ledger i (j :: js) ledger' := by
  have htrade := trade_eq_gain hi hj
  obtain ⟨hsame, htake⟩ := trade_behind hij hjs his hi hj
  have hsub : ∀ k ∈ js.takeWhile (ledger.Crosses i), k ∈ js :=
    fun k hk => (List.takeWhile_sublist _).subset hk
  have hlefts : (ledger.trade i j).lefts (js.takeWhile (ledger.Crosses i)) =
      ledger.lefts (js.takeWhile (ledger.Crosses i)) := by
    apply List.map_congr_left
    intro k hk
    rw [hsame k (hsub k hk)]
  have hown : (ledger.trade i j).account i = (ledger.account i).gain
      (min (ledger.account i).remaining (ledger.account j).remaining) := by
    rw [htrade, if_neg hij, if_pos rfl]
  have hleft : ((ledger.trade i j).account i).remaining =
      (ledger.account i).remaining - (ledger.account j).remaining := by
    rw [hown, Account.gain_remaining]
    omega
  have hwalk := h.met
  have htrades := h.trades
  have hall := h.own
  rw [htake, hlefts, hleft] at hwalk htrades hall
  have hcons : (j :: js).takeWhile (ledger.Crosses i) = j :: js.takeWhile (ledger.Crosses i) :=
    List.takeWhile_cons_of_pos hcross
  have hleftscons : ledger.lefts (j :: js.takeWhile (ledger.Crosses i)) =
      (ledger.account j).remaining :: ledger.lefts (js.takeWhile (ledger.Crosses i)) := rfl
  constructor
  case own =>
    rw [hall, hown, Account.gain_gain, hcons, hleftscons, List.sum_cons]
    congr 1
    omega
  case met =>
    intro p hp
    rw [hcons, hleftscons, shares_cons, List.zip_cons_cons] at hp
    rcases List.mem_cons.mp hp with rfl | hp
    · have hnot : j ∉ js.takeWhile ((ledger.trade i j).Crosses i) := by
        rw [htake]
        exact fun hmem => hjs (hsub j hmem)
      rw [h.others j (Ne.symm hij) hnot, htrade, if_pos rfl]
    · rw [hwalk p hp, hsame p.1 (hsub p.1 (List.of_mem_zip hp).1)]
  case others =>
    intro k hk hmem
    rw [hcons, List.mem_cons, not_or] at hmem
    rw [h.others k hk (by rw [htake]; exact hmem.2), htrade, if_neg hmem.1, if_neg hk]
  case trades =>
    rw [htrades, hcons, hleftscons, served_cons hi hj, ← Nat.add_assoc]
    rfl

/-- **The walk.**  Each order that is crossed gets its share of what the
    incoming order has left. -/
theorem sweep_walked {l : List ℕ} (hown : (ledger.account i).Open)
    (hlive : ∀ k ∈ l, (ledger.account k).Open ∧ (ledger.account k).Live) (hnodup : (i :: l).Nodup) :
    Walked ledger i l (Priority.sweep (Wants i) (trade i) Done ledger l).1 := by
  induction l generalizing ledger with
  | nil => exact .refl (Or.inr rfl)
  | cons j js ih =>
    obtain ⟨hi, hnodup⟩ := List.nodup_cons.mp hnodup
    obtain ⟨hjs, hnodup⟩ := List.nodup_cons.mp hnodup
    rw [List.mem_cons, not_or] at hi
    obtain ⟨hopenj, hlivej⟩ := hlive j List.mem_cons_self
    have hposj := hopenj.mp hlivej
    by_cases hgo : ledger.Wants i j = true
    · obtain ⟨hlivei, hcross⟩ := Bool.and_eq_true_iff.mp hgo
      have hposi := hown.mp (of_decide_eq_true hlivei)
      obtain ⟨hsame, -⟩ := trade_behind hi.1 hjs hi.2 hposi hposj
      have htrade := trade_eq_gain hposi hposj
      have hown' : ((ledger.trade i j).account i) = (ledger.account i).gain
          (min (ledger.account i).remaining (ledger.account j).remaining) := by
        rw [htrade, if_neg hi.1, if_pos rfl]
      have hopeni : ((ledger.trade i j).account i).Open := by
        rw [hown']
        exact hown.gain (Nat.min_le_left _ _)
      unfold Priority.sweep
      rw [if_pos hgo]
      refine Walked.cons hi.1 hjs hi.2 hposi hposj hcross ?_
      by_cases hdone : Done (ledger.trade i j) j = true
      · rw [if_pos hdone]
        refine ih hopeni ?_ (List.nodup_cons.mpr ⟨hi.2, hnodup⟩)
        intro k hk
        rw [hsame k hk]
        exact hlive k (List.mem_cons_of_mem j hk)
      · -- The order in front is left over, so the incoming one has nothing left.
        rw [if_neg hdone]
        have hlive' : ((ledger.trade i j).account j).Live := by
          unfold Done at hdone
          simpa using hdone
        have hopenj' : ((ledger.trade i j).account j).Open := by
          rw [htrade, if_pos rfl]
          exact hopenj.gain (Nat.min_le_right _ _)
        have hpos := hopenj'.mp hlive'
        rw [htrade, if_pos rfl, Account.gain_remaining] at hpos
        refine .refl (Or.inl ?_)
        rw [hown', Account.gain_remaining]
        omega
    · have hstop : Priority.sweep (Wants i) (trade i) Done ledger (j :: js) = (ledger, j :: js) :=
        Priority.sweep_stop (by simpa using hgo)
      rw [hstop]
      by_cases hcross : ledger.Crosses i j = true
      · have hdead : ¬ (ledger.account i).Live := by
          intro hl
          exact hgo (Bool.and_eq_true_iff.mpr ⟨decide_eq_true hl, hcross⟩)
        exact .refl (Or.inl (Nat.eq_zero_of_not_pos fun hpos => hdead (hown.mpr hpos)))
      · exact .refl (Or.inr (List.takeWhile_cons_of_neg hcross))

end Ledger

/-! ### In the reference -/

/-- What crosses is ahead of what does not. -/
theorem OrderSide.Meets.of_ahead {P : Type} [LinearOrder P] {side : OrderSide} {own : P}
    {price : ℕ → P} {a b : ℕ} (h : Priority.Ahead side.other.before price a b)
    (hb : side.Meets own (price b)) : side.Meets own (price a) := by
  cases side with
  | buy =>
    have hb : price b ≤ own := hb
    rcases h with hlt | ⟨heq, -⟩
    · exact (show price a < price b from hlt).le.trans hb
    · exact (show price a ≤ own from heq ▸ hb)
  | sell =>
    have hb : own ≤ price b := hb
    rcases h with hlt | ⟨heq, -⟩
    · exact hb.trans (show price b < price a from hlt).le
    · exact (show own ≤ price a from heq ▸ hb)

namespace Reference
variable {P : Type} [LinearOrder P] {ref ref' : Reference P}

/-- The orders of the other side that cross the price. -/
def crossed (ref : Reference P) (side : OrderSide) (price : P) : List ℕ :=
  (ref.resting side.other).filter fun j => decide (side.Meets price (ref.price j))

/-- How the reference executes an order of `qty` at `price`, the next to
    arrive. -/
structure Executed (ref : Reference P) (side : OrderSide) (price : P) (qty : ℕ)
    (ref' : Reference P) : Prop where
  own : ref'.account ref.arrivals = Account.gain ⟨side, price, qty, 0, .new⟩
    (min qty (ref.lefts (ref.crossed side price)).sum)
  met : ∀ m (hm : m < (ref.crossed side price).length),
    ref'.account (ref.crossed side price)[m] = (ref.account (ref.crossed side price)[m]).gain
      (min (qty - ((ref.lefts (ref.crossed side price)).take m).sum)
        (ref.account (ref.crossed side price)[m]).remaining)
  others : ∀ k, k ≠ ref.arrivals → k ∉ ref.crossed side price → ref'.account k = ref.account k
  trades : ref'.trades = ref.trades + served qty (ref.lefts (ref.crossed side price))

/-- Something is left of the new order if the orders it crosses have less. -/
theorem Executed.live_iff {side : OrderSide} {price : P} {qty : ℕ} (hqty : 0 < qty)
    (h : ref.Executed side price qty ref') :
    (ref'.account ref.arrivals).Live ↔ (ref.lefts (ref.crossed side price)).sum < qty := by
  have hopen : (⟨side, price, qty, 0, .new⟩ : Account P).Open :=
    ⟨fun _ => hqty, fun _ => Or.inl rfl⟩
  have hremaining : Account.remaining (⟨side, price, qty, 0, .new⟩ : Account P) = qty := rfl
  have hgain := hopen.gain (Nat.min_le_left qty (ref.lefts (ref.crossed side price)).sum)
  rw [h.own, show Account.Live _ ↔ _ from hgain, Account.gain_remaining, hremaining]
  omega

/-- The orders that were there gain what they are given. -/
theorem Executed.exists_gain {side : OrderSide} {price : P} {qty : ℕ}
    (h : ref.Executed side price qty ref') {k : ℕ} (hk : k ≠ ref.arrivals) :
    ∃ share, share ≤ (ref.account k).remaining ∧
      ref'.account k = (ref.account k).gain share := by
  by_cases hmem : k ∈ ref.crossed side price
  · obtain ⟨m, hm, rfl⟩ := List.getElem_of_mem hmem
    exact ⟨_, Nat.min_le_right _ _, h.met m hm⟩
  · refine ⟨0, Nat.zero_le _, ?_⟩
    rw [Account.gain_zero, h.others k hk hmem]

variable [Zero P]

/-- A resting order has something left. -/
theorem WF.live_open (h : ref.WF) {side : OrderSide} {k : ℕ} (hk : k ∈ ref.resting side) :
    (ref.account k).Live ∧ (ref.account k).Open ∧ 0 < (ref.account k).remaining := by
  obtain ⟨hlt, hlive, -⟩ := (h.mem _ k).mp hk
  have hpos : 0 < (ref.account k).remaining := Nat.sub_pos_of_lt (h.opened k hlt hlive)
  exact ⟨hlive, ⟨fun _ => hpos, fun _ => hlive⟩, hpos⟩

/-- A new order walks along exactly the orders that cross its price. -/
theorem WF.add_walked (h : ref.WF) (id : OrderId) (side : OrderSide) (price : P)
    {qty : ℕ} (hqty : 0 < qty) :
    Ledger.Walked (ref.accept id side price qty).toLedger ref.arrivals (ref.resting side.other)
      (ref.add id side price qty).toLedger ∧
    (ref.resting side.other).takeWhile ((ref.accept id side price qty).Crosses ref.arrivals) =
      ref.crossed side price := by
  have hold : ∀ j ∈ ref.resting side.other,
      (ref.accept id side price qty).account j = ref.account j :=
    fun j hj => ref.accept_old id side price qty ((h.mem _ j).mp hj).1
  constructor
  · unfold Reference.add
    rw [settle_toLedger]
    unfold swept
    rw [accept_new]
    apply Ledger.sweep_walked
    · rw [accept_new]
      exact ⟨fun _ => hqty, fun _ => Or.inl rfl⟩
    · intro j hj
      obtain ⟨hlive, hopen, -⟩ := h.live_open hj
      rw [hold j hj]
      exact ⟨hopen, hlive⟩
    · refine List.nodup_cons.mpr ⟨?_, (h.sorted side.other).nodup⟩
      intro hmem
      exact Nat.lt_irrefl _ ((h.mem _ _).mp hmem).1
  · have hcrosses : ∀ j ∈ ref.resting side.other,
        (ref.accept id side price qty).Crosses ref.arrivals j =
          decide (side.Meets price (ref.price j)) := by
      intro j hj
      unfold Ledger.Crosses Reference.price
      rw [accept_new, hold j hj]
    rw [takeWhile_congr_of_mem hcrosses]
    refine takeWhile_eq_filter ((h.sorted side.other).imp ?_)
    intro a b hab hb
    exact decide_eq_true (OrderSide.Meets.of_ahead hab (of_decide_eq_true hb))

theorem WF.executed_add (h : ref.WF) (id : OrderId) (side : OrderSide) (price : P)
    {qty : ℕ} (hqty : 0 < qty) : ref.Executed side price qty (ref.add id side price qty) := by
  obtain ⟨hwalk, htake⟩ := h.add_walked id side price hqty
  have hold : ∀ j ∈ ref.crossed side price,
      (ref.accept id side price qty).account j = ref.account j :=
    fun j hj => ref.accept_old id side price qty ((h.mem _ j).mp (List.mem_filter.mp hj).1).1
  have hlefts : (ref.accept id side price qty).lefts (ref.crossed side price) =
      ref.lefts (ref.crossed side price) := by
    apply List.map_congr_left
    intro j hj
    rw [hold j hj]
  have hown := hwalk.own
  have hmet := hwalk.met
  have hothers := hwalk.others
  have htrades := hwalk.trades
  have hqtyleft : Account.remaining (⟨side, price, qty, 0, .new⟩ : Account P) = qty := rfl
  rw [htake, hlefts, accept_new, hqtyleft] at hown hmet htrades
  rw [htake] at hothers
  constructor
  case own => exact hown
  case met =>
    intro m hm
    have hm' : m < (ref.lefts (ref.crossed side price)).length := by
      rw [Ledger.lefts, List.length_map]
      exact hm
    have hlen : m < (shares qty (ref.lefts (ref.crossed side price))).length := by
      rw [length_shares]
      exact hm'
    -- The order stands beside its share.
    have hzip : ((ref.crossed side price)[m],
        (shares qty (ref.lefts (ref.crossed side price)))[m]) ∈
          (ref.crossed side price).zip (shares qty (ref.lefts (ref.crossed side price))) := by
      rw [← List.getElem_zip (h := by rw [List.length_zip]; exact lt_min hm hlen)]
      exact List.getElem_mem _
    have hone := hmet _ hzip
    rw [hold _ (List.getElem_mem hm), getElem_shares hm' hlen] at hone
    rw [show (ref.add id side price qty).account _ = _ from hone]
    simp only [Ledger.lefts, List.getElem_map]
  case others =>
    intro k hk hmem
    rw [show (ref.add id side price qty).account k = _ from hothers k hk hmem, accept_account,
      if_neg hk]
  case trades => exact htrades

/-! ### The sides after a new order -/

theorem WF.add_side (h : ref.WF) (id : OrderId) (side : OrderSide) {price : P} (hprice : 0 < price)
    {qty : ℕ} (hqty : 0 < qty) :
    ((ref.add id side price qty).account ref.arrivals).side = side := by
  unfold Reference.add
  rw [settle_toLedger, ((accept_pending h id side hprice hqty).sweeping.fixed ref.arrivals).1,
    accept_new]

theorem WF.add_placed (h : ref.WF) (id : OrderId) (side : OrderSide) {price : P}
    (hprice : 0 < price) {qty : ℕ} (hqty : 0 < qty) :
    (ref.add id side price qty).resting side =
      if ((ref.add id side price qty).account ref.arrivals).Live then
        Priority.place side.before (ref.accept id side price qty).price ref.arrivals
          (ref.resting side)
      else ref.resting side := by
  have hresting := (accept_pending h id side hprice hqty).settle_resting side
  rw [accept_new, if_pos rfl] at hresting
  unfold Reference.add
  rw [settle_toLedger]
  exact hresting

/-- **The side of a new order.**  What the orders that cross leave of it rests
    behind the orders of its own price and of better ones. -/
theorem WF.add_resting (h : ref.WF) (id : OrderId) (side : OrderSide) {price : P}
    (hprice : 0 < price) {qty : ℕ} (hqty : 0 < qty) :
    (ref.add id side price qty).resting side =
      if (ref.lefts (ref.crossed side price)).sum < qty then
        (ref.resting side).filter (fun k => ¬ side.before price (ref.price k)) ++
          ref.arrivals :: (ref.resting side).filter fun k => side.before price (ref.price k)
      else ref.resting side := by
  have hrank : (ref.accept id side price qty).price ref.arrivals = price := by
    unfold Reference.price
    rw [accept_new]
  have hprices : ∀ k ∈ ref.resting side,
      (ref.accept id side price qty).price k = ref.price k := by
    intro k hk
    unfold Reference.price
    rw [ref.accept_old id side price qty ((h.mem _ k).mp hk).1]
  have hsorted : Priority.Sorted side.before (ref.accept id side price qty).price
      (ref.resting side) := (h.sorted side).congr hprices
  rw [h.add_placed id side hprice hqty, hsorted.place_eq, hrank, Priority.join_congr hprices]
  exact if_congr ((h.executed_add id side price hqty).live_iff hqty) rfl rfl

/-- **The other side.**  What the new order filled has left, the rest keeps
    its place. -/
theorem WF.add_resting_other (h : ref.WF) (id : OrderId) (side : OrderSide) {price : P}
    (hprice : 0 < price) {qty : ℕ} (hqty : 0 < qty) :
    (ref.add id side price qty).resting side.other =
      (ref.resting side.other).filter fun k =>
        decide (0 < ((ref.add id side price qty).account k).remaining) := by
  have hwf := add_wf h id side hprice hqty
  have hexec := h.executed_add id side price hqty
  have hlt : ∀ {k}, k ∈ ref.resting side.other → k ≠ ref.arrivals :=
    fun hk => Nat.ne_of_lt ((h.mem _ _).mp hk).1
  refine (hwf.sorted side.other).ext (Priority.Sorted.congr ((h.sorted side.other).keep _) ?_) ?_
  · intro k hk
    obtain ⟨share, -, hshare⟩ := hexec.exists_gain (hlt (List.mem_filter.mp hk).1)
    unfold Reference.price
    rw [hshare, Account.gain_price]
  · intro k
    have hopen : k ∈ ref.resting side.other → ((ref.add id side price qty).account k).Open := by
      intro hk
      obtain ⟨share, hle, hshare⟩ := hexec.exists_gain (hlt hk)
      rw [hshare]
      exact (h.live_open hk).2.1.gain hle
    rw [List.mem_filter, decide_eq_true_iff, hwf.mem, add_arrivals]
    constructor
    · rintro ⟨hk, hlive, hside⟩
      -- The new order is on its own side, so this one was there.
      have hne : k ≠ ref.arrivals := by
        intro heq
        rw [heq, h.add_side id side hprice hqty] at hside
        exact OrderSide.other_ne side hside.symm
      have hmem : k ∈ ref.resting side.other := by
        by_cases hmem : k ∈ ref.crossed side price
        · exact (List.mem_filter.mp hmem).1
        · rw [hexec.others k hne hmem] at hlive hside
          exact (h.mem _ k).mpr ⟨Nat.lt_of_le_of_ne (Nat.le_of_lt_succ hk) hne, hlive, hside⟩
      exact ⟨hmem, (hopen hmem).mp hlive⟩
    · rintro ⟨hmem, hpos⟩
      obtain ⟨hk, -, hside⟩ := (h.mem _ k).mp hmem
      obtain ⟨share, -, hshare⟩ := hexec.exists_gain (hlt hmem)
      refine ⟨Nat.lt_succ_of_lt hk, (hopen hmem).mpr hpos, ?_⟩
      rw [hshare, Account.gain_side, hside]

/-- Who rests after a new order rested before at the same price, or is the new
    order. -/
theorem WF.of_mem_add (h : ref.WF) (id : OrderId) (side : OrderSide) {price : P}
    (hprice : 0 < price) {qty : ℕ} (hqty : 0 < qty) {side' : OrderSide} {k : ℕ}
    (hk : k ∈ (ref.add id side price qty).resting side') :
    k ∈ ref.resting side' ∧ (ref.add id side price qty).price k = ref.price k ∨
      k = ref.arrivals ∧ side' = side ∧ (ref.add id side price qty).price k = price := by
  have hexec := h.executed_add id side price hqty
  by_cases hnew : k = ref.arrivals
  · have hside := (((add_wf h id side hprice hqty).mem side' k).mp hk).2.2
    rw [hnew, h.add_side id side hprice hqty] at hside
    refine Or.inr ⟨hnew, hside.symm, ?_⟩
    unfold Reference.price
    rw [hnew, hexec.own, Account.gain_price]
  · have hmem : k ∈ ref.resting side' := by
      by_cases hside : side' = side
      · rw [hside, h.add_resting id side hprice hqty] at hk
        rw [hside]
        split at hk
        · rcases List.mem_append.mp hk with hk | hk
          · exact List.mem_of_mem_filter hk
          · exact List.mem_of_mem_filter ((List.mem_cons.mp hk).resolve_left hnew)
        · exact hk
      · rw [OrderSide.eq_other_iff.mpr hside] at hk ⊢
        rw [h.add_resting_other id side hprice hqty] at hk
        exact List.mem_of_mem_filter hk
    obtain ⟨share, -, hshare⟩ := hexec.exists_gain hnew
    refine Or.inl ⟨hmem, ?_⟩
    unfold Reference.price
    rw [hshare, Account.gain_price]

/-- An order that crosses nothing comes to rest, and that is all. -/
theorem WF.add_uncrossed (h : ref.WF) (id : OrderId) (side : OrderSide) {price : P}
    (hprice : 0 < price) {qty : ℕ} (hqty : 0 < qty) (hnone : ref.crossed side price = []) :
    (ref.add id side price qty).trades = ref.trades ∧
      (∀ k, (ref.add id side price qty).account k =
        if k = ref.arrivals then ⟨side, price, qty, 0, .new⟩ else ref.account k) ∧
      ∀ side' k, k ∈ (ref.add id side price qty).resting side' ↔
        k ∈ ref.resting side' ∨ k = ref.arrivals ∧ side' = side := by
  have hexec := h.executed_add id side price hqty
  have hown := hexec.own
  have hothers := hexec.others
  have htrades := hexec.trades
  rw [hnone] at hown hothers htrades
  have haccount : ∀ k, (ref.add id side price qty).account k =
      if k = ref.arrivals then ⟨side, price, qty, 0, .new⟩ else ref.account k := by
    intro k
    by_cases hk : k = ref.arrivals
    · rw [hk, if_pos rfl, hown]
      simp [Ledger.lefts]
    · rw [if_neg hk, hothers k hk List.not_mem_nil]
  refine ⟨htrades, haccount, ?_⟩
  intro side' k
  rw [(add_wf h id side hprice hqty).mem, add_arrivals, haccount, h.mem]
  by_cases hk : k = ref.arrivals
  · rw [if_pos hk, hk]
    simp [Account.Live, eq_comm]
  · rw [if_neg hk]
    simp only [hk, false_and, or_false]
    have hlt : k < ref.arrivals + 1 ↔ k < ref.arrivals := by omega
    rw [hlt]

/-- An order that crosses one order of the same size: both are filled. -/
theorem WF.add_even (h : ref.WF) (id : OrderId) (side : OrderSide) {price : P}
    (hprice : 0 < price) {qty : ℕ} (hqty : 0 < qty) {j : ℕ} (hone : ref.crossed side price = [j])
    (hleft : (ref.account j).remaining = qty) :
    (ref.add id side price qty).trades = ref.trades + 1 ∧
      (∀ k, k ≠ ref.arrivals → k ≠ j →
        (ref.add id side price qty).account k = ref.account k) ∧
      ∀ side' k, k ∈ (ref.add id side price qty).resting side' ↔ k ∈ ref.resting side' ∧ k ≠ j := by
  have hexec := h.executed_add id side price hqty
  have hlefts : ref.lefts (ref.crossed side price) = [qty] := by
    rw [hone, Ledger.lefts, List.map_singleton, hleft]
  have htrades := hexec.trades
  have hothers := hexec.others
  rw [hlefts, served_cons hqty hqty, served_nil] at htrades
  rw [hone] at hothers
  -- Neither of the two has anything left.
  have hdone : ¬ ((ref.add id side price qty).account ref.arrivals).Live := by
    rw [hexec.live_iff hqty, hlefts, List.sum_singleton]
    exact Nat.lt_irrefl qty
  have hdonej : ¬ ((ref.add id side price qty).account j).Live := by
    have hmetj : (ref.add id side price qty).account j = (ref.account j).gain qty := by
      have hmet := hexec.met 0 (by rw [hone]; exact Nat.one_pos)
      simpa [hlefts, hone, hleft] using hmet
    rw [hmetj, Account.gain, if_neg (Nat.ne_of_gt hqty), Account.credit_live_iff]
    unfold Account.remaining at hleft
    omega
  have hsame : ∀ k, k ≠ ref.arrivals → k ≠ j →
      (ref.add id side price qty).account k = ref.account k :=
    fun k hk hkj => hothers k hk (by simpa using hkj)
  refine ⟨htrades, hsame, ?_⟩
  intro side' k
  rw [(add_wf h id side hprice hqty).mem, add_arrivals, h.mem]
  by_cases hk : k = ref.arrivals
  · rw [hk]
    simp [hdone]
  · by_cases hkj : k = j
    · rw [hkj]
      simp [hdonej]
    · rw [hsame k hk hkj]
      have hlt : k < ref.arrivals + 1 ↔ k < ref.arrivals := by omega
      simp [hlt, hkj]

/-- A side with one order more, that of the last arrival. -/
theorem WF.length_added (h : ref.WF) (h' : ref'.WF) (side : OrderSide)
    (hmem : ∀ k, k ∈ ref'.resting side ↔ k ∈ ref.resting side ∨ k = ref.arrivals) :
    (ref'.resting side).length = (ref.resting side).length + 1 := by
  have hnot : ref.arrivals ∉ ref.resting side := fun hin => Nat.lt_irrefl _ ((h.mem _ _).mp hin).1
  have hperm : (ref'.resting side).Perm (ref.arrivals :: ref.resting side) := by
    refine (List.perm_ext_iff_of_nodup (h'.sorted side).nodup
      (List.nodup_cons.mpr ⟨hnot, (h.sorted side).nodup⟩)).mpr fun k => ?_
    rw [hmem, List.mem_cons, or_comm]
  rw [hperm.length_eq, List.length_cons]

theorem WF.length_kept (h : ref.WF) (h' : ref'.WF) (side : OrderSide)
    (hmem : ∀ k, k ∈ ref'.resting side ↔ k ∈ ref.resting side) :
    (ref'.resting side).length = (ref.resting side).length :=
  ((List.perm_ext_iff_of_nodup (h'.sorted side).nodup (h.sorted side).nodup).mpr hmem).length_eq

/-- A side with one order less. -/
theorem WF.length_removed (h : ref.WF) (h' : ref'.WF) (side : OrderSide) {j : ℕ}
    (hj : j ∈ ref.resting side)
    (hmem : ∀ k, k ∈ ref'.resting side ↔ k ∈ ref.resting side ∧ k ≠ j) :
    (ref'.resting side).length + 1 = (ref.resting side).length := by
  have hnodup := (h.sorted side).nodup
  have hperm : (ref'.resting side).Perm ((ref.resting side).erase j) := by
    refine (List.perm_ext_iff_of_nodup (h'.sorted side).nodup (hnodup.erase j)).mpr fun k => ?_
    rw [hmem, hnodup.mem_erase_iff, and_comm]
  rw [hperm.length_eq, List.length_erase_add_one hj]

/-- An order that is accepted and cancelled at once: its side is as before. -/
theorem WF.cancel_add (h : ref.WF) (id : OrderId) (side : OrderSide) {price : P}
    (hprice : 0 < price) {qty : ℕ} (hqty : 0 < qty) :
    ((ref.add id side price qty).cancel id).1 =
        decide ((ref.add id side price qty).account ref.arrivals).Live ∧
      ((ref.add id side price qty).cancel id).2.resting side = ref.resting side ∧
      ((ref.add id side price qty).cancel id).2.resting side.other =
        (ref.add id side price qty).resting side.other ∧
      ((ref.add id side price qty).cancel id).2.trades = (ref.add id side price qty).trades := by
  have hlookup : (ref.add id side price qty).lookup id = some ref.arrivals := by
    unfold Reference.add
    rw [settle_lookup, accept_lookup, if_pos rfl]
  have hside := h.add_side id side hprice hqty
  have hplaced := h.add_placed id side hprice hqty
  have hnot : ref.arrivals ∉ ref.resting side := fun hmem =>
    Nat.lt_irrefl _ ((h.mem _ _).mp hmem).1
  unfold Reference.cancel
  rw [hlookup]
  by_cases hlive : ((ref.add id side price qty).account ref.arrivals).Live
  · rw [if_pos hlive] at hplaced
    simp only [if_pos hlive, hside]
    refine ⟨(decide_eq_true hlive).symm, ?_, Function.update_of_ne (OrderSide.other_ne side) _ _,
      trivial⟩
    rw [Function.update_self, hplaced]
    exact List.erase_orderedInsert_of_notMem hnot
  · rw [if_neg hlive] at hplaced
    simp only [if_neg hlive]
    exact ⟨(decide_eq_false hlive).symm, hplaced, trivial, trivial⟩

end Reference

/-! ### In the book -/

namespace OrderBook
variable {P : Type} [LinearOrder P] {book : OrderBook P}

/-- What an order has left. -/
def left (book : OrderBook P) (k : ℕ) : ℕ :=
  (book.slot k).quantity.toNat - (book.slot k).quantityFilled.toNat

/-- The orders of the other side that cross a price, by price and arrival. -/
def crossed (book : OrderBook P) (side : OrderSide) (price : P) : List ℕ :=
  (book.queue side.other).filter fun j => decide (side.Meets price (book.priceOf j))

theorem mem_queue_of_crossed {side : OrderSide} {price : P} {k : ℕ}
    (hk : k ∈ book.crossed side price) : k ∈ book.queue side.other :=
  (List.mem_filter.mp hk).1

/-- How the book executes an order of `qty` at `price`, which gets the next
    free slot. -/
structure Executed (book : OrderBook P) (side : OrderSide) (price : P) (qty : ℕ)
    (book' : OrderBook P) : Prop where
  own : Account.ofOrder (book'.slot book.orderPool.nextFreeIndex) =
    Account.gain ⟨side, price, qty, 0, .new⟩
      (min qty ((book.crossed side price).map book.left).sum)
  /-- An order gets what those ahead of it leave of the quantity. -/
  met : ∀ m (hm : m < (book.crossed side price).length),
    Account.ofOrder (book'.slot (book.crossed side price)[m]) =
      (Account.ofOrder (book.slot (book.crossed side price)[m])).gain
        (min (qty - (((book.crossed side price).take m).map book.left).sum)
          (book.left (book.crossed side price)[m]))
  others : ∀ k, book.Accepted k → k ∉ book.crossed side price →
    Account.ofOrder (book'.slot k) = .ofOrder (book.slot k)
  trades : book'.tradesCompleted = book.tradesCompleted +
    UInt64.ofNat (served qty ((book.crossed side price).map book.left))
  /-- What is left comes to stand at the back of its own price. -/
  rests : book'.queue side =
    if ((book.crossed side price).map book.left).sum < qty then
      (book.queue side).filter (fun k => ¬ side.before price (book.priceOf k)) ++
        book.orderPool.nextFreeIndex ::
          (book.queue side).filter fun k => side.before price (book.priceOf k)
    else book.queue side
  /-- Who has something left keeps its place. -/
  stays : book'.queue side.other =
    (book.queue side.other).filter fun k => decide (0 < book'.left k)
  leaves : ∀ m (hm : m < (book.crossed side price).length),
    book'.left (book.crossed side price)[m] = 0 ↔
      (((book.crossed side price).take (m + 1)).map book.left).sum ≤ qty

end OrderBook

namespace Session
open OrderBook
variable {P : Type} [LinearOrder P] [Zero P] {s s' : Session P} {ref : Reference P}

/-! ### A book that reads as the reference -/

theorem Refines.accepted_iff (h : s.Refines ref) {k : ℕ} :
    s.book.Accepted k ↔ k < ref.arrivals := by
  rw [h.agrees.arrivals]
  rfl

theorem Refines.accepted_of_queue (h : s.Refines ref) {side : OrderSide} {k : ℕ}
    (hk : k ∈ s.book.queue side) : s.book.Accepted k :=
  ((h.tidy.mem_queue_iff h.sound).mp hk).1

theorem Refines.account_of_queue (h : s.Refines ref) {side : OrderSide} {k : ℕ}
    (hk : k ∈ s.book.queue side) : ref.account k = .ofOrder (s.book.slot k) :=
  h.agrees.account k (h.accepted_of_queue hk)

theorem Refines.price_of_queue (h : s.Refines ref) {side : OrderSide} {k : ℕ}
    (hk : k ∈ s.book.queue side) : ref.price k = s.book.priceOf k := by
  unfold Reference.price
  rw [h.account_of_queue hk]
  rfl

theorem Refines.remaining (h : s.Refines ref) {k : ℕ} (hk : s.book.Accepted k) :
    (ref.account k).remaining = s.book.left k := by
  rw [h.agrees.account k hk]
  rfl

theorem Refines.crossed (h : s.Refines ref) (side : OrderSide) (price : P) :
    ref.crossed side price = s.book.crossed side price := by
  unfold Reference.crossed OrderBook.crossed
  rw [h.resting]
  apply List.filter_congr
  intro j hj
  rw [h.price_of_queue hj]

theorem Refines.lefts (h : s.Refines ref) (side : OrderSide) (price : P) :
    ref.lefts (s.book.crossed side price) = (s.book.crossed side price).map s.book.left := by
  apply List.map_congr_left
  intro j hj
  exact h.remaining (h.accepted_of_queue (mem_queue_of_crossed hj))

/-- After an order, the orders up to it are accepted. -/
theorem Refines.accepted_of_le {id : OrderId} {side : OrderSide} {price : P} {qty k : ℕ}
    (h' : s'.Refines (ref.add id side price qty)) (hk : k ≤ ref.arrivals) :
    s'.book.Accepted k := by
  rw [h'.accepted_iff, Reference.add_arrivals]
  exact Nat.lt_succ_of_le hk

/-- The share of a crossed order, in terms of the book. -/
theorem Refines.met (h : s.Refines ref) {side : OrderSide} {price : P} {qty : ℕ}
    {ref' : Reference P} (hexec : ref.Executed side price qty ref') (m : ℕ)
    (hm : m < (s.book.crossed side price).length) :
    ref'.account (s.book.crossed side price)[m] =
      (Account.ofOrder (s.book.slot (s.book.crossed side price)[m])).gain
        (min (qty - (((s.book.crossed side price).take m).map s.book.left).sum)
          (s.book.left (s.book.crossed side price)[m])) := by
  have hk := mem_queue_of_crossed (List.getElem_mem hm)
  have hmet := hexec.met m (by rw [h.crossed]; exact hm)
  simp only [h.crossed, h.lefts, ← List.map_take] at hmet
  rw [hmet, h.remaining (h.accepted_of_queue hk), h.account_of_queue hk]

/-- A book that reads as the reference before an order and after it. -/
theorem Refines.executed {id : OrderId} {side : OrderSide} {price : P} (hprice : 0 < price)
    {qty : ℕ} (hqty : 0 < qty) (h : s.Refines ref)
    (h' : s'.Refines (ref.add id side price qty)) :
    s.book.Executed side price qty s'.book := by
  have hexec := h.wf.executed_add id side price hqty
  have hlt : ∀ {side k}, k ∈ s.book.queue side → k < ref.arrivals :=
    fun hk => h.accepted_iff.mp (h.accepted_of_queue hk)
  have haccount : ∀ {k}, k ≤ ref.arrivals →
      Account.ofOrder (s'.book.slot k) = (ref.add id side price qty).account k :=
    fun hk => (h'.agrees.account _ (h'.accepted_of_le hk)).symm
  constructor
  case own =>
    rw [← h.agrees.arrivals, haccount (Nat.le_refl _), hexec.own, h.crossed, h.lefts]
  case met =>
    intro m hm
    have hk := mem_queue_of_crossed (List.getElem_mem hm)
    rw [haccount (hlt hk).le, h.met hexec m hm]
  case others =>
    intro k hk hnot
    have hlt := h.accepted_iff.mp hk
    rw [← h.crossed] at hnot
    rw [haccount hlt.le, hexec.others k (Nat.ne_of_lt hlt) hnot, h.agrees.account k hk]
  case trades =>
    rw [h'.agrees.trades, h.agrees.trades, hexec.trades, h.crossed, h.lefts, UInt64.ofNat_add]
  case rests =>
    have hprices : ∀ k ∈ s.book.queue side, ref.price k = s.book.priceOf k :=
      fun k hk => h.price_of_queue hk
    rw [← h'.resting, h.wf.add_resting id side hprice hqty, h.crossed, h.lefts, h.resting,
      ← h.agrees.arrivals, Priority.join_congr hprices]
  case stays =>
    rw [← h'.resting, h.wf.add_resting_other id side hprice hqty, h.resting]
    apply List.filter_congr
    intro k hk
    rw [h'.remaining (h'.accepted_of_le (hlt hk).le)]
  case leaves =>
    -- Nothing is left where the share is all that was left.
    intro m hm
    have hk := mem_queue_of_crossed (List.getElem_mem hm)
    have hpos := (h.wf.live_open (by rw [h.resting]; exact hk)).2.2
    rw [h.remaining (h.accepted_of_queue hk)] at hpos
    have hleft : (Account.ofOrder (s.book.slot (s.book.crossed side price)[m])).remaining =
        s.book.left (s.book.crossed side price)[m] := rfl
    rw [← h'.remaining (h'.accepted_of_le (hlt hk).le), h.met hexec m hm,
      Account.gain_remaining, hleft, List.take_succ_eq_append_getElem hm, List.map_append,
      List.sum_append, List.map_singleton, List.sum_singleton]
    omega

/-- The reference before and after an order with an id of its own. -/
theorem Fresh.refines_add {s₀ : Session P} {ls : List (Label P)} (hf : Fresh s₀)
    (hr : Path (Guarded Ordinary Step) s₀ ls s) {client : Order P} {clock : Clock} {id : OrderId}
    (hids : (addedIds (ls ++ [(.addOrder client clock, .orderId id)])).Nodup)
    (hprice : 0 < client.price) (hqty : 1 ≤ client.quantity)
    (hs : Step s (.addOrder client clock, .orderId id) s') :
    ∃ ref, Refines s ref ∧
      Refines s' (ref.add id client.side client.price client.quantity.toNat) := by
  have hadded : addedIds (ls ++ [(.addOrder client clock, .orderId id)]) = addedIds ls ++ [id] :=
    List.filterMap_append
  rw [hadded] at hids
  obtain ⟨hnodup, -, hapart⟩ := List.nodup_append.mp hids
  obtain ⟨ref, -, h⟩ := hf.refines_path hr hnodup
  have hfresh : FreshId s (.addOrder client clock, .orderId id) := by
    intro id' hid'
    cases hid'
    by_contra hreg
    exact hapart id ((hf.registered_iff hr.of_guarded id).mp hreg) id List.mem_cons_self rfl
  have hordinary : Ordinary s (.addOrder client clock, .orderId id) := ⟨hprice, hqty⟩
  obtain ⟨ref', hstep, h'⟩ := h.step hordinary hfresh hs
  have hadd : ref' = ref.add id client.side client.price client.quantity.toNat := hstep
  rw [hadd] at h'
  exact ⟨ref, h, h'⟩

/-- **How an incoming order is executed.**  After any ordinary run with
    distinct ids, `add_order` trades with exactly the orders that cross, in
    the order of price and arrival, as far as the quantity goes. -/
theorem add_executed {s₀ s s' : Session P} {ls : List (Label P)} (hf : Fresh s₀)
    (hr : Path (Guarded Ordinary Step) s₀ ls s) {client : Order P} {clock : Clock} {id : OrderId}
    (hids : (addedIds (ls ++ [(.addOrder client clock, .orderId id)])).Nodup)
    (hprice : 0 < client.price) (hqty : 1 ≤ client.quantity)
    (hs : Step s (.addOrder client clock, .orderId id) s') :
    s.book.Executed client.side client.price client.quantity.toNat s'.book := by
  obtain ⟨ref, h, h'⟩ := hf.refines_add hr hids hprice hqty hs
  have hpos : (1 : Quantity).toNat ≤ client.quantity.toNat := UInt64.le_iff_toNat_le.mp hqty
  exact h.executed hprice hpos h'

theorem twoBuyers_ordinary {s : Session ℤ} (hs : Path Step (opening 1000) twoBuyers s) :
    Path (Guarded Ordinary Step) (opening 1000) twoBuyers s := by
  apply hs.mono_of_mem
  intro l hl s s' hstep
  refine ⟨?_, hstep⟩
  simp only [twoBuyers, List.mem_cons, List.not_mem_nil, or_false] at hl
  rcases hl with rfl | rfl <;> exact ⟨by decide, by decide⟩

/-- A seller takes all of the first of two buyers and part of the second. -/
theorem add_executed_twoBuyers : ∃ s s' : Session ℤ,
    Path Step (opening 1000) twoBuyers s ∧ Step s (limit .sell 100 14, .orderId 3) s' ∧
      s.book.Executed .sell 100 14 s'.book ∧ s.book.crossed .sell 100 = [0, 1] := by
  obtain ⟨s, hs, hf⟩ := exists_path (opening 1000) twoBuyers
    (fun s => s.endsIn [limit .sell 100 14] [.orderId 3] (fun _ => true) &&
      s.book.crossed .sell 100 == [0, 1]) (by
      simp only [opening, OrderBook.new, OrderPool.new_eq]
      decide +kernel)
  rw [Bool.and_eq_true] at hf
  obtain ⟨s', hs', -⟩ := exists_path s [(limit .sell 100 14, .orderId 3)] (fun _ => true) hf.1
  have hstep : Step s (limit .sell 100 14, .orderId 3) s' := by
    cases hs' with
    | cons hstep hrest =>
      cases hrest
      exact hstep
  exact ⟨s, s', hs, hstep, add_executed (opening_fresh 1000) (twoBuyers_ordinary hs) (by decide)
    (by decide) (by decide) hstep, eq_of_beq hf.2⟩

/-- **An order that is cancelled at once** leaves its side as it was: what it
    traded with the other side is all that happened.  The cancel succeeds
    exactly if the orders that cross did not use the order up. -/
theorem add_cancel {s₀ s s' s'' : Session P} {ls : List (Label P)} (hf : Fresh s₀)
    (hr : Path (Guarded Ordinary Step) s₀ ls s) {client : Order P} {clock clock' : Clock}
    {id : OrderId} {b : Bool}
    (hids : (addedIds (ls ++ [(.addOrder client clock, .orderId id)])).Nodup)
    (hprice : 0 < client.price) (hqty : 1 ≤ client.quantity)
    (hs : Step s (.addOrder client clock, .orderId id) s')
    (hs' : Step s' (.cancelOrder id clock', .done b) s'') :
    (b = true ↔ ((s.book.crossed client.side client.price).map s.book.left).sum <
      client.quantity.toNat) ∧
    s''.book.queue client.side = s.book.queue client.side ∧
    s''.book.queue client.side.other = s'.book.queue client.side.other ∧
    s''.book.tradesCompleted = s'.book.tradesCompleted := by
  obtain ⟨ref, h, h'⟩ := hf.refines_add hr hids hprice hqty hs
  have hpos : (1 : Quantity).toNat ≤ client.quantity.toNat := UInt64.le_iff_toNat_le.mp hqty
  have hordinary : Ordinary s' (.cancelOrder id clock', .done b) := trivial
  have hfresh : FreshId s' (.cancelOrder id clock', .done b) := fun id' hid' => nomatch hid'
  obtain ⟨ref'', hstep, h''⟩ := h'.step hordinary hfresh hs'
  have hcancel :
      (b, ref'') = (ref.add id client.side client.price client.quantity.toNat).cancel id :=
    hstep
  obtain ⟨hdone, hown, hother, htrades⟩ := h.wf.cancel_add id client.side hprice hpos
  rw [← hcancel] at hdone hown hother htrades
  refine ⟨?_, ?_, ?_, ?_⟩
  · -- The cancel succeeds if the order has come to rest.
    have hlive := (h.wf.executed_add id client.side client.price hpos).live_iff hpos
    rw [h.crossed, h.lefts] at hlive
    rw [show b = _ from hdone, decide_eq_true_iff, hlive]
  · rw [← h''.resting, ← h.resting]
    exact hown
  · rw [← h''.resting, ← h'.resting]
    exact hother
  · rw [h''.agrees.trades, h'.agrees.trades]
    exact congrArg UInt64.ofNat htrades

/-- The seller takes both buyers, has something left and cancels. -/
theorem add_cancel_twoBuyers : ∃ s s' s'' : Session ℤ,
    Path Step (opening 1000) twoBuyers s ∧ Step s (limit .sell 100 25, .orderId 3) s' ∧
      Step s' (cancel 3, .done true) s'' ∧ s''.book.queue .sell = s.book.queue .sell ∧
      s''.book.tradesCompleted = s'.book.tradesCompleted := by
  obtain ⟨s, hs, hf⟩ := exists_path (opening 1000) twoBuyers
    (fun s => s.endsIn [limit .sell 100 25, cancel 3] [.orderId 3, .done true] fun _ => true) (by
      simp only [opening, OrderBook.new, OrderPool.new_eq]
      decide +kernel)
  obtain ⟨s'', hs'', -⟩ :=
    exists_path s [(limit .sell 100 25, .orderId 3), (cancel 3, .done true)] (fun _ => true) hf
  cases hs'' with
  | @cons _ s' _ _ _ hadd hrest =>
    cases hrest with
    | cons hcancel hrest =>
      cases hrest
      obtain ⟨-, hown, -, htrades⟩ := add_cancel (opening_fresh 1000) (twoBuyers_ordinary hs)
        (by decide) (by decide) (by decide) hadd hcancel
      exact ⟨s, s', s'', hs, hadd, hcancel, hown, htrades⟩

end Session
end Orderbook
