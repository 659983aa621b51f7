import Orderbook.Linked

/-! # Where the orders of a book are

    With distinct ids, the live orders are exactly the ones that are queued,
    each of them once and in the level of its side and price, whatever calls
    were made.  So the lookups of a level in `cancel_order` and
    `modify_order` never fail, and the totals count the live orders. -/

namespace Orderbook
namespace OrderBook
variable {P : Type} [LinearOrder P]

/-- The id is a key of the level of this side and price. -/
def KeyAt (book : OrderBook P) (side : OrderSide) (price : P) (id : OrderId) : Prop :=
  ∃ lvl j, (book.levels side).find? price = some lvl ∧ lvl.ordersMap.find? id = some j

/-- The slots of the live orders of a side. -/
def liveSlots (book : OrderBook P) (side : OrderSide) : List ℕ :=
  (List.range book.orderPool.nextFreeIndex).filter fun i =>
    (book.slot i).Live ∧ (book.slot i).side = side

/-- The registry, the levels, their maps and the orders agree. -/
structure Placed (book : OrderBook P) : Prop where
  live_iff : ∀ id p, book.orderRegistry.find? id = some p →
    ((book.order p).Live ↔ ∃! at_ : OrderSide × P, book.KeyAt at_.1 at_.2 id)
  here : ∀ id p side price, book.orderRegistry.find? id = some p → book.KeyAt side price id →
    side = (book.order p).side ∧ price = (book.order p).price
  entry : ∀ side price lvl id j, (book.levels side).find? price = some lvl →
    lvl.ordersMap.find? id = some j → ∃ p q, book.orderRegistry.find? id = some p ∧
      lvl.orderEntries[j]? = some (.queued q) ∧ q.slot = p.slot
  not_empty : ∀ side price lvl, (book.levels side).find? price = some lvl → lvl.empty = false
  total : ∀ side, book.getTotalOrders side = (book.liveSlots side).length

/-! ### Keys and live orders -/

/-- A key leads to a registered live order of that side and price. -/
theorem Linked.of_keyAt {book : OrderBook P} (h : book.Linked) (hs : book.Sound)
    {side : OrderSide} {price : P} {id : OrderId} (hk : book.KeyAt side price id) :
    ∃ p, book.orderRegistry.find? id = some p ∧ (book.order p).Live ∧
      (book.order p).side = side ∧ (book.order p).price = price := by
  obtain ⟨lvl, j, hlvl, hj⟩ := hk
  obtain ⟨q, hq, hid, hprice, hlive⟩ := (h.level _ _ _ hlvl).keys.of_key (hs.level _ _ _ hlvl).wf hj
  obtain ⟨hacc, hside⟩ := (hs.level _ _ _ hlvl).entries _ (List.mem_of_getElem? hq)
  obtain ⟨p, hp, hslot⟩ := h.owned _ hacc
  have horder : book.order p = book.order q := congrArg book.slot hslot
  refine ⟨p, ?_, ?_⟩
  · rw [show id = (book.slot q.slot).id from hid.symm]
    exact hp
  · rw [horder]
    exact ⟨hlive, hside, hprice⟩

theorem Linked.keyAt_of_live {book : OrderBook P} (h : book.Linked) (hs : book.Sound)
    {id : OrderId} {p : OrderPtr} (hp : book.orderRegistry.find? id = some p)
    (hlive : (book.order p).Live) : book.KeyAt (book.order p).side (book.order p).price id := by
  obtain ⟨hacc, rfl⟩ := hs.registered id p hp
  exact h.placed p.slot hacc hlive

theorem Linked.findable {book : OrderBook P} (h : book.Linked) (hs : book.Sound) :
    book.Findable := by
  intro id p hp hlive
  obtain ⟨lvl, j, hlvl, -⟩ := h.keyAt_of_live hs hp hlive
  exact ⟨lvl, hlvl⟩

/-! ### Counting -/

/-- The keys of all levels of a side, level by level. -/
def keys (book : OrderBook P) (side : OrderSide) : List OrderId :=
  (book.levels side).entries.flatMap fun e => e.2.ordersMap.entries.map Prod.fst

theorem mem_keys_iff {book : OrderBook P} {side : OrderSide} {id : OrderId} :
    id ∈ book.keys side ↔ ∃ price, book.KeyAt side price id := by
  simp only [keys, List.mem_flatMap, SortedMap.mem_keys_iff, KeyAt]
  constructor
  · rintro ⟨e, he, j, hj⟩
    exact ⟨e.1, e.2, j, SortedMap.mem_entries_iff.mp he, hj⟩
  · rintro ⟨price, lvl, j, hlvl, hj⟩
    exact ⟨(price, lvl), SortedMap.mem_entries_iff.mpr hlvl, j, hj⟩

theorem Linked.keys_nodup {book : OrderBook P} (h : book.Linked) (hs : book.Sound)
    (side : OrderSide) : (book.keys side).Nodup := by
  refine List.nodup_flatMap.mpr ⟨fun e _ => SortedMap.keys_nodup _, ?_⟩
  refine List.Pairwise.imp_of_mem ?_ (book.levels side).sorted
  intro e e' he he' hlt id hid hid'
  obtain ⟨j, hj⟩ := SortedMap.mem_keys_iff.mp hid
  obtain ⟨j', hj'⟩ := SortedMap.mem_keys_iff.mp hid'
  obtain ⟨p, hp, -, -, hprice⟩ :=
    h.of_keyAt hs ⟨e.2, j, SortedMap.mem_entries_iff.mp he, hj⟩
  obtain ⟨p', hp', -, -, hprice'⟩ :=
    h.of_keyAt hs ⟨e'.2, j', SortedMap.mem_entries_iff.mp he', hj'⟩
  rw [hp, Option.some.injEq] at hp'
  rw [← hprice, ← hprice', hp'] at hlt
  exact irrefl_of side.before _ hlt

/-- The totals count the live orders. -/
theorem Linked.total {book : OrderBook P} (h : book.Linked) (hs : book.Sound)
    (side : OrderSide) : book.getTotalOrders side = (book.liveSlots side).length := by
  have hmem : ∀ i, i ∈ book.liveSlots side ↔
      book.Accepted i ∧ (book.slot i).Live ∧ (book.slot i).side = side := by
    intro i
    simp [liveSlots, Accepted]
  have hids : ((book.liveSlots side).map fun i => (book.slot i).id).Nodup := by
    refine List.Nodup.map_on ?_ (List.nodup_range.filter _)
    intro i hi j hj heq
    exact h.slot_inj ((hmem i).mp hi).1 ((hmem j).mp hj).1 heq
  have hperm : (book.keys side).Perm ((book.liveSlots side).map fun i => (book.slot i).id) := by
    refine (List.perm_ext_iff_of_nodup (h.keys_nodup hs side) hids).mpr ?_
    intro id
    rw [mem_keys_iff, List.mem_map]
    constructor
    · rintro ⟨price, hk⟩
      obtain ⟨p, hp, hlive, hside, -⟩ := h.of_keyAt hs hk
      obtain ⟨hacc, hid⟩ := hs.registered id p hp
      exact ⟨p.slot, (hmem _).mpr ⟨hacc, hlive, hside⟩, hid⟩
    · rintro ⟨i, hi, rfl⟩
      obtain ⟨hacc, hlive, rfl⟩ := (hmem i).mp hi
      exact ⟨_, h.placed i hacc hlive⟩
  have hlen := hperm.length_eq
  rw [List.length_map] at hlen
  rw [← hlen, keys, List.length_flatMap, getTotalOrders]
  simp [PriceLevel.size, SortedMap.size]

theorem Linked.toPlaced {book : OrderBook P} (h : book.Linked) (hs : book.Sound) : book.Placed where
  live_iff id p hp := by
    constructor
    · intro hlive
      refine ⟨((book.order p).side, (book.order p).price), h.keyAt_of_live hs hp hlive, ?_⟩
      rintro ⟨side, price⟩ hk
      obtain ⟨p', hp', -, rfl, rfl⟩ := h.of_keyAt hs hk
      rw [hp, Option.some.injEq] at hp'
      rw [hp']
    · rintro ⟨⟨side, price⟩, hk, -⟩
      obtain ⟨p', hp', hlive, -⟩ := h.of_keyAt hs hk
      rw [hp, Option.some.injEq] at hp'
      rwa [hp']
  here id p side price hp hk := by
    obtain ⟨p', hp', -, hside, hprice⟩ := h.of_keyAt hs hk
    rw [hp, Option.some.injEq] at hp'
    rw [hp']
    exact ⟨hside.symm, hprice.symm⟩
  entry side price lvl id j hlvl hj := by
    obtain ⟨q, hq, hid, -⟩ := (h.level _ _ _ hlvl).keys.of_key (hs.level _ _ _ hlvl).wf hj
    have hacc := ((hs.level _ _ _ hlvl).entries _ (List.mem_of_getElem? hq)).1
    obtain ⟨p, hp, hslot⟩ := h.owned _ hacc
    exact ⟨p, q, by rw [← hid]; exact hp, hq, hslot.symm⟩
  not_empty side price lvl hlvl := (hs.level side price lvl hlvl).not_empty
  total := h.total hs

end OrderBook

/-! ### Over runs -/

namespace Session
open OrderBook
variable {P : Type} [LinearOrder P] [Zero P]

/-- **No order is lost or duplicated.**  In a run with distinct ids every
    reachable book is `Placed`, and from it every further call returns: no
    lookup of a level fails. -/
theorem placed_of_distinct_ids {s s' : Session P} {ls : List (Label P)} (hf : Fresh s)
    (hr : Path Step s ls s') (hids : (addedIds ls).Nodup) :
    s'.book.Placed ∧ s'.book.Findable ∧ ∀ e, ∃ s'' r, s'.step e = .ok (s'', r) := by
  have hs := sound_of_path hf hr
  have h := linked_of_path hf hr hids
  refine ⟨h.toPlaced hs, h.findable hs, ?_⟩
  intro e
  exact (step_ok hs e).resolve_right fun ⟨_, hnot⟩ => hnot (h.findable hs)

/-- Two buyers at one price; the first raises its quantity and so goes to the
    back, a seller fills the second and part of the first, and the first
    moves to another price. -/
def queueChanges : List (Label ℤ) :=
  [(limit .buy 100 10, .orderId 1), (limit .buy 100 5, .orderId 2), (amend 1 100 20, .done true),
    (limit .sell 100 8, .orderId 3), (amend 1 99 20, .done true), (cancel 2, .done false)]

theorem placed_queueChanges : ∃ s : Session ℤ, Path Step (opening 1000) queueChanges s ∧
    s.book.Placed ∧ s.book.getTotalOrders .buy = 1 := by
  obtain ⟨s, hs, hf⟩ := exists_path (opening 1000) queueChanges
    (fun s => s.book.getTotalOrders .buy == 1) (by
      simp only [opening, OrderBook.new, OrderPool.new_eq]
      decide +kernel)
  exact ⟨s, hs, (placed_of_distinct_ids (opening_fresh 1000) hs (by decide)).1, by simpa using hf⟩

end Session
end Orderbook
