import Orderbook.Report
import Orderbook.Backpressure
import Orderbook.IncomingOrder

/-! # What the matching benchmark prints

    `bench_match20_m.cpp` and `bench_match20_s.cpp`: a fixed pattern of orders
    is submitted to queues with room for all of it, and every worker reports
    when it has stopped.  The pattern is meant to trade around a fifth of the
    orders; what is printed is a function of the three sizes alone.

    Prices are whole numbers. -/

namespace Orderbook

/-! ### The orders -/

/-- `"S" + std::to_string(i)`. -/
def benchInstrument (i : ℕ) : Instrument := String.ofList ('S' :: Table.ofNat i)

def benchInstruments (numInstruments : ℕ) : List Instrument :=
  (List.range numInstruments).map benchInstrument

/-- The order of a turn of the loop, where `j` is `i % 10`. -/
def benchOrder (instrument : Instrument) (j : ℕ) (now : TimePoint) : Order ℤ :=
  if j < 5 then .ofClient instrument .buy (6 + j) 1000 now
  else .ofClient instrument .sell (5 + j) 1000 now

/-- `instrument_idx` after the two tests of the turn `i`. -/
def turnIdx (numInstruments i instrumentIdx : ℕ) : ℕ :=
  let instrumentIdx := if i % 10 = 0 then instrumentIdx + 1 else instrumentIdx
  if instrumentIdx = numInstruments then 0 else instrumentIdx

/-- The loop that fills `order_commands`, with `n` turns to go from the turn `i`. -/
def orderCommands (numInstruments : ℕ) (clock : Clock) (n i instrumentIdx : ℕ) :
    List (OrderCommand ℤ) :=
  match n with
  | 0 => []
  | n + 1 =>
    let idx := turnIdx numInstruments i instrumentIdx
    ⟨.add, benchOrder (benchInstrument idx) (i % 10) (clock i)⟩ ::
      orderCommands numInstruments clock n (i + 1) idx

/-- The instrument of the turn `i`. -/
def idxOfTurn (numInstruments i : ℕ) : ℕ := (i / 10 + 1) % numInstruments

theorem turnIdx_eq {numInstruments : ℕ} (h : 1 ≤ numInstruments) {i idx : ℕ}
    (hidx : idx = if i % 10 = 0 then i / 10 % numInstruments else idxOfTurn numInstruments i) :
    turnIdx numInstruments i idx = idxOfTurn numInstruments i := by
  have hlt : idxOfTurn numInstruments i < numInstruments := Nat.mod_lt _ h
  unfold turnIdx
  by_cases hi : i % 10 = 0
  · rw [if_pos hi] at hidx
    simp only [if_pos hi, hidx]
    have hmod : i / 10 % numInstruments < numInstruments := Nat.mod_lt _ h
    have hstep : idxOfTurn numInstruments i = (i / 10 % numInstruments + 1) % numInstruments :=
      (Nat.mod_add_mod _ _ _).symm
    by_cases hlast : i / 10 % numInstruments + 1 = numInstruments
    · rw [if_pos hlast, hstep, hlast, Nat.mod_self]
    · have hless : i / 10 % numInstruments + 1 < numInstruments := by omega
      rw [if_neg hlast, hstep, Nat.mod_eq_of_lt hless]
  · rw [if_neg hi] at hidx
    simp only [if_neg hi, hidx]
    rw [if_neg (Nat.ne_of_lt hlt)]

/-- The loop in closed form. -/
theorem orderCommands_eq {numInstruments : ℕ} (h : 1 ≤ numInstruments) (clock : Clock)
    (n : ℕ) {i idx : ℕ}
    (hidx : idx = if i % 10 = 0 then i / 10 % numInstruments else idxOfTurn numInstruments i) :
    orderCommands numInstruments clock n i idx = (List.range' i n).map fun i =>
      ⟨.add, benchOrder (benchInstrument (idxOfTurn numInstruments i)) (i % 10) (clock i)⟩ := by
  induction n generalizing i idx with
  | zero => rfl
  | succ n ih =>
    have hnext : idxOfTurn numInstruments i = if (i + 1) % 10 = 0 then (i + 1) / 10 % numInstruments
        else idxOfTurn numInstruments (i + 1) := by
      unfold idxOfTurn
      split
      · rw [show (i + 1) / 10 = i / 10 + 1 by omega]
      · rw [show (i + 1) / 10 = i / 10 by omega]
    rw [orderCommands, turnIdx_eq h hidx, ih hnext]
    rfl

/-- The turns for the instrument `k` among the first `n`. -/
def turnsOf (numInstruments k n : ℕ) : List ℕ :=
  (List.range n).filter fun i => idxOfTurn numInstruments i = k

/-- Whole rounds of ten turns go to one instrument. -/
theorem turnsOf_length_mod (numInstruments k n : ℕ) :
    (turnsOf numInstruments k n).length % 10 =
      if idxOfTurn numInstruments n = k then n % 10 else 0 := by
  induction n with
  | zero => simp [turnsOf]
  | succ n ih =>
    have hsplit : turnsOf numInstruments k (n + 1) = turnsOf numInstruments k n ++
        if idxOfTurn numInstruments n = k then [n] else [] := by
      rw [turnsOf, List.range_succ, List.filter_append]
      by_cases hk : idxOfTurn numInstruments n = k <;> simp [turnsOf, hk]
    rw [hsplit, List.length_append]
    by_cases hround : n % 10 = 9
    · -- The round is over.
      have hzero : (n + 1) % 10 = 0 := by omega
      rw [hzero, ite_self]
      by_cases hk : idxOfTurn numInstruments n = k
      · rw [if_pos hk] at ih ⊢
        simp only [List.length_singleton]
        omega
      · rw [if_neg hk] at ih ⊢
        exact ih
    · have hsame : idxOfTurn numInstruments (n + 1) = idxOfTurn numInstruments n := by
        unfold idxOfTurn
        rw [show (n + 1) / 10 = n / 10 by omega]
      rw [hsame]
      by_cases hk : idxOfTurn numInstruments n = k
      · simp only [if_pos hk, List.length_singleton] at ih ⊢
        omega
      · rw [if_neg hk] at ih ⊢
        rw [if_neg hk]
        exact ih

/-- A book is sent the pattern from its beginning. -/
theorem turnsOf_pattern (numInstruments k n : ℕ) :
    (turnsOf numInstruments k n).map (· % 10) =
      (List.range (turnsOf numInstruments k n).length).map (· % 10) := by
  induction n with
  | zero => rfl
  | succ n ih =>
    have hmod := turnsOf_length_mod numInstruments k n
    rw [turnsOf, List.range_succ, List.filter_append]
    show (turnsOf numInstruments k n ++ _).map _ =
      (List.range (turnsOf numInstruments k n ++ _).length).map _
    by_cases hk : idxOfTurn numInstruments n = k
    · rw [if_pos hk] at hmod
      rw [List.filter_cons_of_pos (by simpa using hk), List.filter_nil, List.map_append, ih,
        List.length_append, List.length_singleton, List.range_succ, List.map_append,
        List.map_singleton, List.map_singleton, hmod]
    · rw [List.filter_cons_of_neg (by simpa using hk), List.filter_nil, List.append_nil, ih]

/-! ### The pattern at the reference exchange -/

/-- The bids among the first `n` orders of the pattern. -/
def benchBids (n : ℕ) : ℕ := 5 * (n / 10) + min (n % 10) 5

/-- How often the first `n` orders of the pattern trade: the last bid of every
    round meets the first ask. -/
def benchTrades (n : ℕ) : ℕ := (n + 4) / 10

/-- The exchange after the first `n` orders of the pattern. -/
structure Patterned (n : ℕ) (ref : Reference ℤ) : Prop where
  wf : ref.WF
  arrivals : ref.arrivals = n
  trades : ref.trades = benchTrades n
  bids : (ref.resting .buy).length + benchTrades n = benchBids n
  asks : (ref.resting .sell).length + benchTrades n + benchBids n = n
  low : ∀ k ∈ ref.resting .buy, ref.price k ≤ 9 ∨ n % 10 = 5 ∧ k + 1 = n
  high : ∀ k ∈ ref.resting .sell, 11 ≤ ref.price k
  /-- Halfway through a round the bid at 10 waits to be met. -/
  top : n % 10 = 5 → ∃ k, k + 1 = n ∧ k ∈ ref.resting .buy ∧
    ref.account k = ⟨.buy, 10, 1000, 0, .new⟩

namespace Patterned
variable {n : ℕ} {ref : Reference ℤ}

theorem empty : Patterned 0 .empty where
  wf := Reference.empty_wf
  arrivals := rfl
  trades := rfl
  bids := rfl
  asks := rfl
  low := by simp [Reference.empty]
  high := by simp [Reference.empty]
  top := by simp

/-- One more order, `t` trades and `b` bids of the pattern.  What rested keeps
    its price, so only the new order and the one that was met are looked at. -/
theorem next (h : Patterned n ref) {id : OrderId} {side : OrderSide} {price : ℤ}
    (hprice : 0 < price) {t b : ℕ} (ht : benchTrades (n + 1) = benchTrades n + t)
    (hb : benchBids (n + 1) = benchBids n + b)
    (htrades : (ref.add id side price 1000).trades = ref.trades + t)
    (hbids : ((ref.add id side price 1000).resting .buy).length + t =
      (ref.resting .buy).length + b)
    (hasks : ((ref.add id side price 1000).resting .sell).length + t + b =
      (ref.resting .sell).length + 1)
    (hlow : side = .buy → price ≤ 9 ∨ n % 10 = 4)
    (hhigh : ref.arrivals ∈ (ref.add id side price 1000).resting .sell → 11 ≤ price)
    (hmet : n % 10 = 5 → ∀ k ∈ (ref.add id side price 1000).resting .buy, k + 1 ≠ n)
    (htop : n % 10 = 4 → ∃ k, k + 1 = n + 1 ∧ k ∈ (ref.add id side price 1000).resting .buy ∧
      (ref.add id side price 1000).account k = ⟨.buy, 10, 1000, 0, .new⟩) :
    Patterned (n + 1) (ref.add id side price 1000) := by
  have harrivals := h.arrivals
  have hqty : 0 < 1000 := by decide
  constructor
  case wf => exact Reference.add_wf h.wf id side hprice hqty
  case arrivals => rw [Reference.add_arrivals, harrivals]
  case trades => rw [htrades, h.trades, ht]
  case bids =>
    have := h.bids
    omega
  case asks =>
    have := h.asks
    omega
  case low =>
    intro k hk
    rcases h.wf.of_mem_add id side hprice hqty hk with ⟨hmem, hsame⟩ | ⟨hnew, hside, hsame⟩
    · rw [hsame]
      refine Or.inl ((h.low k hmem).resolve_right ?_)
      rintro ⟨hround, hlast⟩
      exact hmet hround k hk hlast
    · rw [hsame]
      have := hlow hside.symm
      omega
  case high =>
    intro k hk
    rcases h.wf.of_mem_add id side hprice hqty hk with ⟨hmem, hsame⟩ | ⟨hnew, -, hsame⟩
    · rw [hsame]
      exact h.high k hmem
    · rw [hsame]
      rw [hnew] at hk
      exact hhigh hk
  case top =>
    intro hround
    exact htop (by omega)

/-- A bid of the pattern crosses no ask. -/
theorem bid (h : Patterned n ref) (hn : n % 10 < 5) (id : OrderId) {price : ℤ}
    (hprice : price = 6 + (n % 10 : ℕ)) : Patterned (n + 1) (ref.add id .buy price 1000) := by
  have hpos : 0 < price := by omega
  have hnone : ref.crossed .buy price = [] := by
    apply List.filter_eq_nil_iff.mpr
    intro k hk
    have hhigh := h.high k hk
    have hnot : ¬ OrderSide.buy.Meets price (ref.price k) := by
      show ¬ ref.price k ≤ price
      omega
    simp [hnot]
  have hqty : 0 < 1000 := by decide
  obtain ⟨htrades, haccount, hmem⟩ := h.wf.add_uncrossed id .buy hpos hqty hnone
  have hwf := Reference.add_wf h.wf id .buy hpos hqty
  have hbids := h.wf.length_added hwf .buy fun k => by simp [hmem]
  have hasks := h.wf.length_kept hwf .sell fun k => by simp [hmem]
  refine h.next (t := 0) (b := 1) hpos ?_ ?_ htrades hbids (by omega) ?_ ?_ ?_ ?_
  · unfold benchTrades
    omega
  · unfold benchBids
    omega
  · intro _
    omega
  · intro hin
    rcases (hmem _ _).mp hin with hin | ⟨-, hside⟩
    · exact absurd ((h.wf.mem _ _).mp hin).1 (Nat.lt_irrefl _)
    · cases hside
  · intro hround
    omega
  · intro hround
    refine ⟨n, rfl, (hmem _ n).mpr (Or.inr ⟨h.arrivals.symm, rfl⟩), ?_⟩
    have hten : price = 10 := by omega
    rw [haccount, if_pos h.arrivals.symm, hten]

/-- The first ask of a round takes the last bid, and with it everything at 10. -/
theorem meet (h : Patterned n ref) (hn : n % 10 = 5) (id : OrderId) {price : ℤ}
    (hprice : price = 5 + (n % 10 : ℕ)) : Patterned (n + 1) (ref.add id .sell price 1000) := by
  have hpos : 0 < price := by omega
  have hqty : 0 < 1000 := by decide
  obtain ⟨j, hj, hmemj, haccountj⟩ := h.top hn
  have hpricej : ref.price j = 10 := congrArg Account.price haccountj
  have hone : ref.crossed .sell price = [j] := by
    refine List.perm_singleton.mp ((List.perm_ext_iff_of_nodup
      ((h.wf.sorted .buy).nodup.filter _) (List.nodup_singleton j)).mpr fun k => ?_)
    rw [List.mem_filter, List.mem_singleton, decide_eq_true_iff]
    constructor
    · rintro ⟨hk, hmeets⟩
      have hmeets : price ≤ ref.price k := hmeets
      rcases h.low k hk with hlow | ⟨-, hlast⟩ <;> omega
    · rintro rfl
      exact ⟨hmemj, show price ≤ ref.price k by omega⟩
  have hleft : (ref.account j).remaining = 1000 := by
    rw [haccountj]
    rfl
  obtain ⟨htrades, -, hmem⟩ := h.wf.add_even id .sell hpos hqty hone hleft
  have hwf := Reference.add_wf h.wf id .sell hpos hqty
  have hnotj : j ∉ ref.resting .sell := by
    intro hin
    have hside := ((h.wf.mem .sell j).mp hin).2.2
    rw [haccountj] at hside
    cases hside
  have hbids := h.wf.length_removed hwf .buy hmemj fun k => hmem .buy k
  have hasks := h.wf.length_kept hwf .sell fun k => by
    rw [hmem]
    exact and_iff_left_of_imp fun hk heq => hnotj (heq ▸ hk)
  refine h.next (t := 1) (b := 0) hpos ?_ ?_ htrades hbids (by omega) ?_ ?_ ?_ ?_
  · unfold benchTrades
    omega
  · unfold benchBids
    omega
  · intro hside
    cases hside
  · intro hin
    exact absurd ((h.wf.mem _ _).mp ((hmem _ _).mp hin).1).1 (Nat.lt_irrefl _)
  · intro _ k hk hlast
    exact ((hmem .buy k).mp hk).2 (by omega)
  · intro hround
    omega

/-- The other asks of the pattern cross no bid. -/
theorem ask (h : Patterned n ref) (hn : 5 < n % 10) (id : OrderId) {price : ℤ}
    (hprice : price = 5 + (n % 10 : ℕ)) : Patterned (n + 1) (ref.add id .sell price 1000) := by
  have hpos : 0 < price := by omega
  have hnone : ref.crossed .sell price = [] := by
    apply List.filter_eq_nil_iff.mpr
    intro k hk
    have hlow := h.low k hk
    have hnot : ¬ OrderSide.sell.Meets price (ref.price k) := by
      show ¬ price ≤ ref.price k
      omega
    simp [hnot]
  have hqty : 0 < 1000 := by decide
  obtain ⟨htrades, -, hmem⟩ := h.wf.add_uncrossed id .sell hpos hqty hnone
  have hwf := Reference.add_wf h.wf id .sell hpos hqty
  have hbids := h.wf.length_kept hwf .buy fun k => by simp [hmem]
  have hasks := h.wf.length_added hwf .sell fun k => by simp [hmem]
  refine h.next (t := 0) (b := 0) hpos ?_ ?_ htrades hbids hasks ?_ ?_ ?_ ?_
  · unfold benchTrades
    omega
  · unfold benchBids
    omega
  · intro hside
    cases hside
  · intro _
    omega
  · intro hround
    omega
  · intro hround
    omega

/-- The pattern, whatever the instrument and the clock. -/
theorem ofOrders (n : ℕ) : Patterned n (.ofOrders ((List.range n).map fun i =>
    benchOrder default (i % 10) 0)) := by
  induction n with
  | zero => exact .empty
  | succ n ih =>
    rw [List.range_succ, List.map_append, Reference.ofOrders, List.foldl_append]
    show Patterned (n + 1) (Reference.add _ DEFAULT_ORDER_ID (benchOrder default (n % 10) 0).side
      (benchOrder default (n % 10) 0).price (benchOrder default (n % 10) 0).quantity.toNat)
    unfold benchOrder
    by_cases hbid : n % 10 < 5
    · rw [if_pos hbid]
      exact ih.bid hbid DEFAULT_ORDER_ID rfl
    · rw [if_neg hbid]
      by_cases hmeet : n % 10 = 5
      · exact ih.meet hmeet DEFAULT_ORDER_ID rfl
      · exact ih.ask (by omega) DEFAULT_ORDER_ID rfl

end Patterned

/-! ### What every book is sent -/

theorem benchInstrument_inj {i j : ℕ} : benchInstrument i = benchInstrument j ↔ i = j := by
  refine ⟨fun h => ?_, congrArg benchInstrument⟩
  have hchars := congrArg String.toList h
  simp only [benchInstrument, String.toList_ofList, List.cons.injEq, true_and] at hchars
  rw [← Table.toNat_ofNat i, hchars, Table.toNat_ofNat]

theorem benchOrder_instrument (instrument : Instrument) (j : ℕ) (now : TimePoint) :
    (benchOrder instrument j now).instrument = instrument := by
  unfold benchOrder
  split <;> rfl

/-- The terms of an order depend on its place in the pattern only. -/
theorem benchOrder_terms (instrument : Instrument) (j : ℕ) (now : TimePoint) :
    (benchOrder instrument j now).terms = (benchOrder default j 0).terms := by
  unfold benchOrder
  split <;> rfl

theorem benchOrder_limit (instrument : Instrument) (j : ℕ) (now : TimePoint) :
    OrderCommand.Limit ⟨.add, benchOrder instrument j now⟩ := by
  unfold benchOrder
  split
  · exact ⟨rfl, by show (0 : ℤ) < 6 + j; omega, by show (1 : Quantity) ≤ 1000; decide⟩
  · exact ⟨rfl, by show (0 : ℤ) < 5 + j; omega, by show (1 : Quantity) ≤ 1000; decide⟩

section Commands
variable {numInstruments : ℕ} {clock : Clock} {n : ℕ}

theorem orderCommands_start (h : 1 ≤ numInstruments) :
    orderCommands numInstruments clock n 0 0 = (List.range n).map fun i =>
      ⟨.add, benchOrder (benchInstrument (idxOfTurn numInstruments i)) (i % 10) (clock i)⟩ := by
  rw [List.range_eq_range']
  exact orderCommands_eq h clock n (by simp)

theorem orderCommands_length (h : 1 ≤ numInstruments) :
    (orderCommands numInstruments clock n 0 0).length = n := by
  rw [orderCommands_start h, List.length_map, List.length_range]

/-- Every command is a limit order for one of the instruments. -/
theorem mem_orderCommands (h : 1 ≤ numInstruments) {cmd : OrderCommand ℤ}
    (hcmd : cmd ∈ orderCommands numInstruments clock n 0 0) :
    cmd.Limit ∧ cmd.order.instrument ∈ benchInstruments numInstruments := by
  rw [orderCommands_start h] at hcmd
  obtain ⟨i, -, rfl⟩ := List.mem_map.mp hcmd
  refine ⟨benchOrder_limit _ _ _, ?_⟩
  rw [benchOrder_instrument]
  exact List.mem_map_of_mem (List.mem_range.mpr (Nat.mod_lt _ h))

/-- A book is sent the pattern. -/
theorem terms_of_orderCommands (h : 1 ≤ numInstruments) (k : ℕ) :
    ((orderCommands numInstruments clock n 0 0).filter fun cmd =>
        cmd.order.instrument = benchInstrument k).map (·.order.terms) =
      (List.range (turnsOf numInstruments k n).length).map fun i =>
        (benchOrder default (i % 10) 0).terms := by
  have hturns : (orderCommands numInstruments clock n 0 0).filter (fun cmd =>
      cmd.order.instrument = benchInstrument k) = (turnsOf numInstruments k n).map fun i =>
        ⟨.add, benchOrder (benchInstrument (idxOfTurn numInstruments i)) (i % 10) (clock i)⟩ := by
    rw [orderCommands_start h, List.filter_map, turnsOf]
    congr 1
    apply List.filter_congr
    intro i _
    simp [benchOrder_instrument, benchInstrument_inj]
  have hpattern := congrArg (List.map fun j => (benchOrder default j 0).terms)
    (turnsOf_pattern numInstruments k n)
  rw [List.map_map, List.map_map] at hpattern
  rw [hturns, List.map_map]
  refine Eq.trans (List.map_congr_left ?_) hpattern
  intro i _
  exact benchOrder_terms _ _ _

end Commands

/-! ### The report -/

namespace Threads
variable {numWorkers : ℕ} [NeZero numWorkers]
  {moved : OrderCommand ℤ → OrderCommand ℤ → OrderCommand ℤ}
  {es : List (Event ℤ numWorkers)} {t₀ t : Threads ℤ numWorkers} {blockSize : OrderId}
  {numOrders numInstruments : ℕ} {clock submitClock : Clock} {blank : OrderCommand ℤ}

/-- No order of the benchmark is refused, since the queues have two slots more
    than there are orders. -/
theorem bench_accepted (hinstruments : 1 ≤ numInstruments)
    (ht₀ : t₀ = start (benchInstruments numInstruments) (.new blockSize) (numOrders + 2) numOrders
      clock blank)
    (hr : Path (Guarded ClientCommand (Step moved)) t₀ es t)
    (hsubmitted : (returned es).map Prod.fst =
      orderCommands numInstruments submitClock numOrders 0 0) :
    ∀ r ∈ returned es, r.2 = true := by
  obtain ⟨-, cs, x, hpath, hlin⟩ := linearizes_of_path (by omega) ht₀ hr
  have hcount : (results cs).length ≤ numOrders + 1 := by
    have hlen := congrArg List.length hsubmitted
    rw [List.length_map, orderCommands_length hinstruments] at hlen
    rw [hlin.results_eq, List.length_append, hlen]
    exact Nat.add_le_add_left (pending_length_le t) _
  have hunrouted := System.unrouted_of_refused rfl hpath fun w =>
    Nat.le_trans (System.submittedTo_length_le _ w cs) hcount
  obtain ⟨-, -, -, hrouted⟩ := System.start_spec (benchInstruments numInstruments) (.new blockSize)
    numOrders clock
    (x := (.start (benchInstruments numInstruments) (.new blockSize) numOrders clock :
      System ℤ numWorkers (numOrders + 1))) rfl
  rintro ⟨cmd, ok⟩ hmem
  cases ok with
  | true => rfl
  | false =>
    -- A command that was refused is for an instrument that the router knows.
    have hcmd : cmd ∈ orderCommands numInstruments submitClock numOrders 0 0 := by
      rw [← hsubmitted]
      exact List.mem_map_of_mem hmem
    have hin : (cmd, false) ∈ results cs := by
      rw [hlin.results_eq]
      exact List.mem_append_left _ hmem
    obtain ⟨e, he, heq⟩ := List.mem_filterMap.mp hin
    cases e with
    | submit cmd' ok =>
      cases heq
      exact absurd (hunrouted cmd he)
        ((hrouted _).mpr (mem_orderCommands hinstruments hcmd).2)
    | _ => cases heq

/-- **What the benchmark prints.**  However the threads are scheduled, no
    order is refused, and once the workers have stopped each instrument has
    its line: of every ten of its orders two have traded with each other. -/
theorem bench_report (hinstruments : 1 ≤ numInstruments) (hsize : 1 ≤ blockSize)
    (ht₀ : t₀ = start (benchInstruments numInstruments) (.new blockSize) (numOrders + 2) numOrders
      clock blank)
    (hr : Path (Guarded ClientCommand (Step moved)) t₀ es t)
    (hsubmitted : (returned es).map Prod.fst =
      orderCommands numInstruments submitClock numOrders 0 0)
    (hroom : FIRST_ORDER_ID.toNat + blockSize.toNat * (numInstruments + numOrders) < 2 ^ 64)
    (hstopped : ∀ w, t.workerStates w = .stopped) :
    (∀ r ∈ returned es, r.2 = true) ∧ ∀ k, k < numInstruments →
      ∃ w, t₀.router.find? (benchInstrument k) = some w ∧
        let n := (turnsOf numInstruments k numOrders).length
        reportLine (benchInstrument k) (benchTrades n) (benchBids n - benchTrades n)
          (n - benchBids n - benchTrades n) <:+: (t.workers w).report := by
  have htrue := bench_accepted hinstruments ht₀ hr hsubmitted
  refine ⟨htrue, ?_⟩
  intro k hk
  obtain ⟨-, cs, x, hpath, hlin⟩ := linearizes_of_path (by omega) ht₀ hr
  obtain ⟨-, -, -, hrouted⟩ := System.start_spec (benchInstruments numInstruments) (.new blockSize)
    numOrders clock
    (x := (.start (benchInstruments numInstruments) (.new blockSize) numOrders clock :
      System ℤ numWorkers (numOrders + 1))) rfl
  obtain ⟨w, hw⟩ := Option.ne_none_iff_exists'.mp
    ((hrouted (benchInstrument k)).mpr (List.mem_map_of_mem (List.mem_range.mpr hk)))
  have hall : System.accepted cs = orderCommands numInstruments submitClock numOrders 0 0 := by
    rw [hlin.accepted_eq, ← hsubmitted, accepted, ← List.filterMap_eq_map]
    apply List.filterMap_congr
    intro r hmem
    rw [htrue r hmem]
    rfl
  have hfor : System.acceptedFor (benchInstrument k) cs =
      (orderCommands numInstruments submitClock numOrders 0 0).filter fun cmd =>
        cmd.order.instrument = benchInstrument k := by
    rw [System.acceptedFor, hall]
  have hlen : (benchInstruments numInstruments).length = numInstruments := by
    rw [benchInstruments, List.length_map, List.length_range]
  have hroom' : FIRST_ORDER_ID.toNat + blockSize.toNat *
      ((benchInstruments numInstruments).length + (System.accepted cs).length) < 2 ^ 64 := by
    rw [hlen, hall, orderCommands_length hinstruments]
    exact hroom
  have hlimit : ∀ cmd ∈ System.acceptedFor (benchInstrument k) cs, cmd.Limit := by
    intro cmd hcmd
    rw [hfor] at hcmd
    exact (mem_orderCommands hinstruments (List.mem_filter.mp hcmd).1).1
  have hstop : x.workerStates w = .stopped := by
    rw [hlin.states_eq]
    exact hstopped w
  obtain ⟨hline, -⟩ := System.reports_ofOrders hsize rfl hpath hroom' hlimit hw hstop
  -- The accepted orders have the terms of the pattern.
  have hpattern : Reference.ofOrders ((System.acceptedFor (benchInstrument k) cs).map (·.order)) =
      .ofOrders ((List.range (turnsOf numInstruments k numOrders).length).map fun i =>
        benchOrder default (i % 10) 0) := by
    apply Reference.ofOrders_congr
    rw [hfor, List.map_map, List.map_map]
    exact terms_of_orderCommands hinstruments k
  have hdone := Patterned.ofOrders (turnsOf numInstruments k numOrders).length
  have hbids := hdone.bids
  have hasks := hdone.asks
  rw [hpattern, hdone.trades, hlin.workers_eq, Nat.eq_sub_of_add_eq hbids,
    show _ = _ from Nat.eq_sub_of_add_eq (Nat.eq_sub_of_add_eq hasks)] at hline
  rw [ht₀]
  exact ⟨w, hw, hline⟩

/-- Six orders for one instrument, which are all submitted before the worker starts. -/
def sixOrders (w : Fin numWorkers) : List (System.Event ℤ numWorkers) :=
  let cmds := orderCommands 1 (fun _ => 0) 6 0 0
  cmds.map (.submit · true) ++
    [.shutdownLoop, .shutdownLoop, .pushShutdown w (System.shutdownCmd 0) true] ++
    cmds.flatMap (fun cmd => [.pop w (some cmd), .process w cmd (fun _ => 0) true]) ++
    [.pop w (some (System.shutdownCmd 0))]

/-- The fifth order is a bid at 10, which the sixth one meets. -/
theorem bench_report_sixOrders : ∃ es, ∃ t : Threads ℤ 1,
    Path (Guarded ClientCommand (Step fun source _ => source))
      (start ["S0"] (.new 1000) 8 6 (fun _ => 0) (System.shutdownCmd 0)) es t ∧
    (returned es).map Prod.snd = List.replicate 6 true ∧
    reportLine "S0" 1 4 0 <:+: (t.workers 0).report := by
  have hr : ∃ x ∈ (sixOrders 0).foldlM System.next?
      (.start (benchInstruments 1) (.new 1000) 6 (fun _ => 0) : System ℤ 1 (8 - 1)),
      x.workerStates 0 = .stopped := by
    simp only [System.start, buildOrderRoutingSystem, addWorkerContext_eq]
    decide +kernel
  obtain ⟨x, hx, hstopped⟩ := hr
  have hclient : ∀ e ∈ (sixOrders 0 : List (System.Event ℤ 1)), ∀ x : System ℤ 1 (8 - 1),
      x.ClientCommand e := by
    simp [sixOrders, orderCommands, System.ClientCommand]
  have hrun := System.path_of_foldlM hclient hx
  obtain ⟨es, t, hpath, hlin, hb⟩ := realized (by decide) (benchInstruments 1) (.new 1000) 6
    (fun _ => 0) (System.shutdownCmd 0) hrun
  have hreturned : returned es = results (sixOrders (0 : Fin 1)) := by
    rw [hlin.results_eq, pending_of_idle hb.1, List.append_nil]
  have hall : ∀ w, t.workerStates w = .stopped := by
    intro w
    rw [Subsingleton.elim w 0, ← hlin.states_eq]
    exact hstopped
  have hsubmitted : (returned es).map Prod.fst = orderCommands 1 (fun _ => 0) 6 0 0 := by
    rw [hreturned]
    decide
  obtain ⟨-, hlines⟩ := bench_report (by decide) (by decide) rfl hpath hsubmitted (by decide) hall
  obtain ⟨w, -, hline⟩ := hlines 0 (by decide)
  rw [Subsingleton.elim w 0] at hline
  refine ⟨es, t, hpath, ?_, hline⟩
  rw [hreturned]
  decide

end Threads
end Orderbook
