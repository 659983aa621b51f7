import Orderbook.BookQueue
import Mathlib.Algebra.BigOperators.Group.Finset.Basic

/-! # The open quantity of a level

    `total_qty` adds up the open quantities of the valid entries.  With
    distinct ids every live order of the level has exactly one of these, and
    the others were left behind by orders that are filled, which add
    nothing; so the total is that of the live orders, up to the wrap of the
    64-bit sum. -/

namespace Orderbook

/-- A 64-bit sum wraps, however often. -/
theorem foldl_add_toNat {α : Type} (f : α → Quantity) (l : List α) (qty : Quantity) :
    (l.foldl (fun qty a => qty + f a) qty).toNat =
      (qty.toNat + (l.map fun a => (f a).toNat).sum) % 2 ^ 64 := by
  induction l generalizing qty with
  | nil =>
    have hlt := qty.toNat_lt
    simp only [List.foldl_nil, List.map_nil, List.sum_nil, Nat.add_zero]
    exact (Nat.mod_eq_of_lt hlt).symm
  | cons a l ih =>
    rw [List.foldl_cons, ih, UInt64.toNat_add, List.map_cons, List.sum_cons]
    omega

/-- Elements that add nothing need not be summed. -/
theorem sum_map_filter_of_zero {α : Type} {f : α → ℕ} {p : α → Bool} {l : List α}
    (h : ∀ a ∈ l, p a = false → f a = 0) : ((l.filter p).map f).sum = (l.map f).sum := by
  induction l with
  | nil => rfl
  | cons a l ih =>
    have hrec := ih fun b hb => h b (List.mem_cons_of_mem a hb)
    cases hp : p a with
    | true => rw [List.filter_cons_of_pos hp, List.map_cons, List.sum_cons, hrec, List.map_cons,
        List.sum_cons]
    | false =>
      have hzero := h a List.mem_cons_self hp
      rw [List.filter_cons_of_neg (by simp [hp]), hrec, List.map_cons, List.sum_cons, hzero,
        Nat.zero_add]

namespace OrderBook
variable {P : Type} [LinearOrder P] {book : OrderBook P}

/-- The slot holds a live order of this side and price. -/
def LiveAt (book : OrderBook P) (side : OrderSide) (price : P) (i : ℕ) : Prop :=
  (book.slot i).Live ∧ (book.slot i).side = side ∧ (book.slot i).price = price

instance (book : OrderBook P) (side : OrderSide) (price : P) (i : ℕ) :
    Decidable (book.LiveAt side price i) :=
  inferInstanceAs (Decidable (_ ∧ _ ∧ _))

/-- What is left to fill of the live orders of this side and price. -/
def openQuantity (book : OrderBook P) (side : OrderSide) (price : P) : ℕ :=
  ∑ i ∈ Finset.range book.orderPool.nextFreeIndex, if book.LiveAt side price i then
    (book.slot i).quantity.toNat - (book.slot i).quantityFilled.toNat else 0

/-- `total_qty`, slot by slot. -/
theorem totalQty_toNat (book : OrderBook P) (lvl : PriceLevel P) :
    (lvl.totalQty book.orderPool.get).toNat =
      (lvl.queue.map fun i => (book.slot i).available.toNat).sum % 2 ^ 64 := by
  have hqueue : lvl.totalQty book.orderPool.get =
      lvl.queue.foldl (fun qty i => qty + (book.slot i).available) 0 := by
    rw [PriceLevel.queue, List.foldl_map, List.foldl_filter]
    rfl
  rw [hqueue, foldl_add_toNat]
  simp

section Level
variable {side : OrderSide} {price : P} {lvl : PriceLevel P}

/-- The live orders among the valid entries of a level. -/
theorem Linked.mem_queue_live_iff (h : book.Linked) (hs : book.Sound)
    (hlvl : (book.levels side).find? price = some lvl) (i : ℕ) :
    (i ∈ lvl.queue ∧ (book.slot i).Live) ↔ book.Accepted i ∧ book.LiveAt side price i := by
  have hsound := hs.level _ _ _ hlvl
  rw [PriceLevel.mem_queue_iff]
  constructor
  · intro hi
    obtain ⟨⟨j, p, hj, rfl⟩, hlive⟩ := hi
    obtain ⟨hacc, hside⟩ := hsound.entries _ (List.mem_of_getElem? hj)
    exact ⟨hacc, hlive, hside, ((h.level _ _ _ hlvl).keys j p hj).1⟩
  · intro hi
    obtain ⟨hacc, hlive, hside, hprice⟩ := hi
    obtain ⟨l, j, hl, hj⟩ := h.placed i hacc hlive
    rw [hside, hprice, hlvl, Option.some.injEq] at hl
    subst hl
    -- The entry that the map has for the id is one of this slot.
    obtain ⟨q, hq, hqid, -⟩ := (h.level _ _ _ hlvl).keys.of_key hsound.wf hj
    have hqacc := (hsound.entries _ (List.mem_of_getElem? hq)).1
    exact ⟨⟨j, q, hq, h.slot_inj hqacc hacc hqid⟩, hlive⟩

/-- A live order has no two valid entries. -/
theorem Linked.queue_live_nodup (h : book.Linked)
    (hlvl : (book.levels side).find? price = some lvl) :
    (lvl.queue.filter fun i => (book.slot i).Live).Nodup := by
  have hkeys := (h.level _ _ _ hlvl).keys
  unfold PriceLevel.queue
  rw [List.filter_map, List.Nodup, List.pairwise_map, List.filter_filter, List.pairwise_filter,
    List.pairwise_iff_getElem]
  intro i j hi hj hij hvi hvj heq
  simp only [Function.comp_apply, Bool.and_eq_true, decide_eq_true_eq] at hvi hvj
  have hentry : ∀ (n : ℕ) (hn : n < lvl.orderEntries.length), lvl.orderEntries[n].isValid = true →
      lvl.orderEntries[n]? = some (.queued lvl.orderEntries[n].order) := by
    intro n hn hvalid
    rw [List.getElem?_eq_getElem hn, Option.some.injEq]
    exact congrArg (OrderEntry.mk · lvl.orderEntries[n].order) hvalid
  -- One id would be mapped to both indices.
  have hfi := hkeys.find? (hentry i hi hvi.2) hvi.1
  have hfj := hkeys.find? (hentry j hj hvj.2) hvj.1
  have hid : (book.orderPool.get lvl.orderEntries[i].order).id =
      (book.orderPool.get lvl.orderEntries[j].order).id := congrArg (fun k => (book.slot k).id) heq
  rw [hid, hfj, Option.some.injEq] at hfi
  omega

/-- An order that is in the queue and not live has nothing left to fill. -/
theorem Linked.available_eq_zero (h : book.Linked) (hs : book.Sound)
    (hlvl : (book.levels side).find? price = some lvl) {i : ℕ} (hi : i ∈ lvl.queue)
    (hlive : ¬ (book.slot i).Live) : (book.slot i).available = 0 := by
  obtain ⟨j, p, hj, rfl⟩ := PriceLevel.mem_queue_iff.mp hi
  have hacc := ((hs.level _ _ _ hlvl).entries _ (List.mem_of_getElem? hj)).1
  rcases ((h.level _ _ _ hlvl).keys j p hj).2 with ⟨-, hl⟩ | ⟨-, hfilled⟩
  · exact absurd hl hlive
  · rw [Order.available, h.filledUp p.slot hacc hfilled, UInt64.sub_self]

theorem Linked.totalQty_eq (h : book.Linked) (hs : book.Sound)
    (hlvl : (book.levels side).find? price = some lvl) :
    (lvl.totalQty book.orderPool.get).toNat = book.openQuantity side price % 2 ^ 64 := by
  have hlive : ((lvl.queue.filter fun i => (book.slot i).Live).map
      fun i => (book.slot i).available.toNat).sum =
      (lvl.queue.map fun i => (book.slot i).available.toNat).sum := by
    apply sum_map_filter_of_zero
    intro i hi hnot
    rw [h.available_eq_zero hs hlvl hi (by simpa using hnot)]
    rfl
  have hset : (lvl.queue.filter fun i => (book.slot i).Live).toFinset =
      (Finset.range book.orderPool.nextFreeIndex).filter (book.LiveAt side price) := by
    ext i
    rw [List.mem_toFinset, List.mem_filter, decide_eq_true_eq, h.mem_queue_live_iff hs hlvl,
      Finset.mem_filter, Finset.mem_range]
    rfl
  rw [totalQty_toNat, ← hlive, ← List.sum_toFinset _ (h.queue_live_nodup hlvl), hset,
    Finset.sum_filter, openQuantity]
  congr 1
  apply Finset.sum_congr rfl
  intro i hi
  split
  · exact Order.available_toNat (hs.filled_le i (Finset.mem_range.mp hi))
  · rfl

end Level

end OrderBook

/-! ### Over runs -/

namespace Session
open OrderBook
variable {P : Type} [LinearOrder P] [Zero P]

/-- **The total of a level is that of its live orders.**  In a run with
    distinct ids `total_qty` of every stored level is, modulo `2 ^ 64`, the
    open quantity of the live orders of its side and price, each of them
    counted once. -/
theorem total_qty_of_live {s s' : Session P} {ls : List (Label P)} (hf : Fresh s)
    (hr : Path Step s ls s') (hids : (addedIds ls).Nodup) {side : OrderSide} {price : P}
    {lvl : PriceLevel P} (hlvl : (s'.book.levels side).find? price = some lvl) :
    (lvl.totalQty s'.book.orderPool.get).toNat = s'.book.openQuantity side price % 2 ^ 64 :=
  (linked_of_path hf hr hids).totalQty_eq (sound_of_path hf hr) hlvl

/-- A buyer who is alone at 100 raises its quantity and so leaves a tombstone
    at the head; the seller who fills it leaves its second entry valid, in
    front of the second buyer. -/
def leavesFilledEntry : List (Label ℤ) :=
  [(limit .buy 100 10, .orderId 1), (amend 1 100 20, .done true), (limit .buy 100 5, .orderId 2),
    (limit .sell 100 20, .orderId 3)]

theorem total_qty_of_live_leavesFilledEntry :
    ∃ s : Session ℤ, Path Step (opening 1000) leavesFilledEntry s ∧
      ∃ lvl, (s.book.levels .buy).find? 100 = some lvl ∧ lvl.queue = [0, 1] ∧
        lvl.totalQty s.book.orderPool.get = 5 ∧
        (lvl.totalQty s.book.orderPool.get).toNat = s.book.openQuantity .buy 100 % 2 ^ 64 := by
  obtain ⟨s, hs, hf⟩ := exists_path (opening 1000) leavesFilledEntry
    (fun s => ((s.book.levels .buy).find? 100).map
      (fun lvl => (lvl.queue, lvl.totalQty s.book.orderPool.get)) == some ([0, 1], 5)) (by
      simp only [opening, OrderBook.new, OrderPool.new_eq]
      decide +kernel)
  obtain ⟨lvl, hlvl, heq⟩ := Option.map_eq_some_iff.mp (beq_iff_eq.mp hf)
  obtain ⟨hqueue, hqty⟩ := Prod.mk.inj heq
  exact ⟨s, hs, lvl, hlvl, hqueue, hqty,
    total_qty_of_live (opening_fresh 1000) hs (by decide) hlvl⟩

end Session
end Orderbook
