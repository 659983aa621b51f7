import Orderbook.Placement

/-! # What an amendment does to the queues

    The queue of a level, read off its map: the orders whose ids are keys, by
    increasing index.  With distinct ids `modify_order` moves its order to
    the end of the queue of the new price, or to the end of its own queue if
    the quantity was raised, or leaves it where it is; the other orders keep
    their places. -/

namespace Orderbook
namespace PriceLevel
variable {P : Type} {heap : OrderPtr → Order P} {lvl lvl' : PriceLevel P}

/-- Some id is mapped to the index. -/
def Mapped (lvl : PriceLevel P) (i : ℕ) : Bool := lvl.ordersMap.entries.any fun e => e.2 == i

/-- The slots of the orders in the map, by increasing index. -/
def mapQueue (lvl : PriceLevel P) : List ℕ :=
  (List.range lvl.orderEntries.length).filterMap fun i =>
    if lvl.Mapped i then lvl.orderEntries[i]?.map fun e => e.order.slot else none

theorem mapped_iff {i : ℕ} : lvl.Mapped i = true ↔ ∃ id, lvl.ordersMap.find? id = some i := by
  simp only [Mapped, List.any_eq_true, beq_iff_eq]
  constructor
  · intro h
    obtain ⟨e, he, rfl⟩ := h
    exact ⟨e.1, SortedMap.mem_entries_iff.mp he⟩
  · intro h
    obtain ⟨id, hid⟩ := h
    exact ⟨(id, i), SortedMap.mem_entries_iff.mpr hid, rfl⟩

theorem mem_mapQueue_iff {k : ℕ} : k ∈ lvl.mapQueue ↔
    ∃ (id : OrderId) (i : ℕ) (e : OrderEntry), lvl.ordersMap.find? id = some i ∧
      lvl.orderEntries[i]? = some e ∧ e.order.slot = k := by
  simp only [mapQueue, List.mem_filterMap, List.mem_range]
  constructor
  · rintro ⟨i, hi, hk⟩
    split at hk
    · next hmapped =>
      obtain ⟨id, hid⟩ := mapped_iff.mp hmapped
      obtain ⟨e, he, hek⟩ := Option.map_eq_some_iff.mp hk
      exact ⟨id, i, e, hid, he, hek⟩
    · cases hk
  · rintro ⟨id, i, e, hid, he, hk⟩
    refine ⟨i, (List.getElem?_eq_some_iff.mp he).1, ?_⟩
    rw [if_pos (mapped_iff.mpr ⟨id, hid⟩), he, Option.map_some, hk]

/-- Two indices in use hold different orders. -/
theorem WF.mapped_inj (h : lvl.WF heap) {i j : ℕ} (hi : lvl.Mapped i = true)
    (hj : lvl.Mapped j = true) {e e' : OrderEntry} (he : lvl.orderEntries[i]? = some e)
    (he' : lvl.orderEntries[j]? = some e') (hslot : (heap e.order).id = (heap e'.order).id) :
    i = j := by
  obtain ⟨id, hid⟩ := mapped_iff.mp hi
  obtain ⟨id', hid'⟩ := mapped_iff.mp hj
  obtain ⟨-, p, hp, rfl⟩ := h.mapped id i hid
  obtain ⟨-, p', hp', rfl⟩ := h.mapped id' j hid'
  rw [hp, Option.some.injEq] at he
  rw [hp', Option.some.injEq] at he'
  rw [← he, ← he'] at hslot
  have hslot : (heap p).id = (heap p').id := hslot
  rw [hslot, hid', Option.some.injEq] at hid
  exact hid.symm

/-- The map is empty exactly when the queue is. -/
theorem WF.mapQueue_eq_nil_iff (h : lvl.WF heap) : lvl.mapQueue = [] ↔ lvl.empty = true := by
  rw [empty_iff, List.eq_nil_iff_forall_not_mem]
  constructor
  · intro hnone id
    cases hid : lvl.ordersMap.find? id with
    | none => rfl
    | some i =>
      obtain ⟨-, p, hp, -⟩ := h.mapped id i hid
      exact absurd (mem_mapQueue_iff.mpr ⟨id, i, _, hid, hp, rfl⟩) (hnone p.slot)
  · intro hnone k hk
    obtain ⟨id, i, e, hid, -⟩ := mem_mapQueue_iff.mp hk
    rw [hnone id] at hid
    cases hid

/-- An order is in the queue once, where entries of one slot name one order. -/
theorem WF.mapQueue_nodup (h : lvl.WF heap)
    (hslots : ∀ e ∈ lvl.orderEntries, ∀ e' ∈ lvl.orderEntries,
      e.order.slot = e'.order.slot → (heap e.order).id = (heap e'.order).id) :
    lvl.mapQueue.Nodup := by
  unfold mapQueue
  apply List.Nodup.filterMap _ List.nodup_range
  -- Two indices in use with one slot would map one id twice.
  intro i j k hi hj
  simp only [Option.mem_def, Option.ite_none_right_eq_some, Option.map_eq_some_iff] at hi hj
  obtain ⟨hmi, e, he, hek⟩ := hi
  obtain ⟨hmj, e', he', hek'⟩ := hj
  apply h.mapped_inj hmi hmj he he'
  apply hslots e (List.mem_of_getElem? he) e' (List.mem_of_getElem? he')
  rw [hek, hek']

/-- An order with a new id goes to the end. -/
theorem mapQueue_addOrder {p : OrderPtr}
    (hnew : lvl.ordersMap.find? (heap p).id = none) :
    (lvl.addOrder heap p).mapQueue = lvl.mapQueue ++ [p.slot] := by
  have hfind : ∀ id i, (lvl.addOrder heap p).ordersMap.find? id = some i ↔
      (id = (heap p).id ∧ i = lvl.orderEntries.length) ∨ lvl.ordersMap.find? id = some i := by
    intro id i
    simp only [PriceLevel.addOrder, SortedMap.find?_insert]
    split
    · next hid =>
      rw [hid, hnew]
      simp [eq_comm]
    · next hid => simp [hid]
  -- The last index is the new one, and the others are in use as before.
  have hlast : (lvl.addOrder heap p).Mapped lvl.orderEntries.length = true :=
    mapped_iff.mpr ⟨_, (hfind _ _).mpr (Or.inl ⟨rfl, rfl⟩)⟩
  have hsame : ∀ i, i < lvl.orderEntries.length →
      (lvl.addOrder heap p).Mapped i = lvl.Mapped i := by
    intro i hi
    rw [Bool.eq_iff_iff, mapped_iff, mapped_iff]
    apply exists_congr
    intro id
    rw [hfind]
    constructor
    · rintro (⟨-, rfl⟩ | hid)
      · exact absurd hi (Nat.lt_irrefl _)
      · exact hid
    · exact Or.inr
  have hlen : (lvl.addOrder heap p).orderEntries.length = lvl.orderEntries.length + 1 := by
    simp [PriceLevel.addOrder]
  unfold mapQueue
  rw [hlen, List.range_succ, List.filterMap_append]
  congr 1
  · apply List.filterMap_congr
    intro i hi
    have hi := List.mem_range.mp hi
    rw [hsame i hi]
    simp only [PriceLevel.addOrder, List.getElem?_append_left hi]
  · rw [List.filterMap_cons, hlast]
    simp [PriceLevel.addOrder]

/-- Taking the id at index `i` out leaves the other indices in use. -/
theorem WF.mapped_removed_iff (h : lvl.WF heap) {id : OrderId} {i : ℕ}
    (hid : lvl.ordersMap.find? id = some i) (hrem : Removed heap lvl id lvl') (j : ℕ) :
    lvl'.Mapped j = true ↔ lvl.Mapped j = true ∧ j ≠ i := by
  rw [mapped_iff, mapped_iff]
  constructor
  · intro hmapped
    obtain ⟨id', hid'⟩ := hmapped
    have hne : id' ≠ id := by
      intro heq
      rw [heq, hrem.find?_self] at hid'
      cases hid'
    rw [hrem.find?_ne hne] at hid'
    refine ⟨⟨id', hid'⟩, ?_⟩
    intro heq
    rw [heq] at hid'
    exact hne (h.index_inj hid' hid)
  · intro hmapped
    obtain ⟨⟨id', hid'⟩, hne⟩ := hmapped
    have hne' : id' ≠ id := by
      intro heq
      rw [heq, hid, Option.some.injEq] at hid'
      exact hne hid'.symm
    rw [← hrem.find?_ne hne'] at hid'
    exact ⟨id', hid'⟩

theorem Removed.getElem?_ne {id : OrderId} {i : ℕ} (hrem : Removed heap lvl id lvl')
    (hid : lvl.ordersMap.find? id = some i) :
    lvl'.orderEntries.length = lvl.orderEntries.length ∧
      ∀ j, j ≠ i → lvl'.orderEntries[j]? = lvl.orderEntries[j]? := by
  cases hrem with
  | absent hnone =>
    rw [hnone] at hid
    cases hid
  | removed i' n q hi' _ _ _ _ _ =>
    rw [hid, Option.some.injEq] at hi'
    subst hi'
    refine ⟨List.length_set, ?_⟩
    intro j hj
    exact List.getElem?_set_ne (Ne.symm hj)

/-- A removed order leaves the queue. -/
theorem WF.mapQueue_removed (h : lvl.WF heap) {id : OrderId} {i : ℕ} {p : OrderPtr}
    (hid : lvl.ordersMap.find? id = some i) (hp : lvl.orderEntries[i]? = some (.queued p))
    (hrem : Removed heap lvl id lvl')
    (hslots : ∀ e ∈ lvl.orderEntries, ∀ e' ∈ lvl.orderEntries,
      e.order.slot = e'.order.slot → (heap e.order).id = (heap e'.order).id) :
    lvl'.mapQueue = lvl.mapQueue.erase p.slot := by
  have hmap := h.mapped_removed_iff hid hrem
  obtain ⟨hlength, hentries⟩ := hrem.getElem?_ne hid
  -- Of the indices in use, only `i` holds an order of this slot.
  have hmem : ∀ j e, lvl.Mapped j = true → lvl.orderEntries[j]? = some e →
      (e.order.slot = p.slot ↔ j = i) := by
    intro j e hj he
    constructor
    · intro hslot
      exact h.mapped_inj hj (mapped_iff.mpr ⟨id, hid⟩) he hp
        (hslots e (List.mem_of_getElem? he) _ (List.mem_of_getElem? hp) hslot)
    · intro heq
      rw [heq, hp, Option.some.injEq] at he
      rw [← he]
  have hfilter : lvl'.mapQueue = lvl.mapQueue.filter (· != p.slot) := by
    unfold mapQueue
    rw [hlength, List.filter_filterMap]
    apply List.filterMap_congr
    intro j hj
    obtain ⟨e, he⟩ : ∃ e, lvl.orderEntries[j]? = some e :=
      ⟨_, List.getElem?_eq_getElem (List.mem_range.mp hj)⟩
    by_cases hmapped : lvl.Mapped j = true
    · by_cases hji : j = i
      · have hnot : ¬ lvl'.Mapped j = true := fun hc => ((hmap j).mp hc).2 hji
        have hslot : e.order.slot = p.slot := (hmem j e hmapped he).mpr hji
        rw [if_neg hnot, if_pos hmapped, he]
        simp [Option.filter, hslot]
      · have hslot : e.order.slot ≠ p.slot := fun hc => hji ((hmem j e hmapped he).mp hc)
        rw [if_pos ((hmap j).mpr ⟨hmapped, hji⟩), if_pos hmapped, hentries j hji, he]
        simp [Option.filter, hslot]
    · have hnot : ¬ lvl'.Mapped j = true := fun hc => hmapped ((hmap j).mp hc).1
      rw [if_neg hnot, if_neg hmapped]
      rfl
  rw [hfilter, (h.mapQueue_nodup hslots).erase_eq_filter]

end PriceLevel

namespace OrderBook
variable {P : Type} [LinearOrder P] {book book' : OrderBook P}

/-- The queue of a price, empty if there is no level. -/
def queueAt (book : OrderBook P) (side : OrderSide) (price : P) : List ℕ :=
  match (book.levels side).find? price with
  | none => []
  | some lvl => lvl.mapQueue

/-- What the queue of a price is to become when the order of `p` is given
    this price and quantity. -/
def amendedQueue (book : OrderBook P) (p : OrderPtr) (price : P) (qty : Quantity)
    (side : OrderSide) (k : P) : List ℕ :=
  let o := book.order p
  let queue := book.queueAt side k
  if side ≠ o.side then queue
  else if price ≠ o.price then
    if k = o.price then queue.erase p.slot
    else if k = price then queue ++ [p.slot]
    else queue
  else if k = price ∧ o.quantity < qty then queue.erase p.slot ++ [p.slot]
  else queue

/-- The order of `p` has this price and quantity now, and has been moved for
    it; nothing else happened. -/
structure Amended (book book' : OrderBook P) (p : OrderPtr) (price : P) (qty : Quantity) :
    Prop where
  order : ∃ time, book'.order p =
    { book.order p with price := price, quantity := qty, updatedTime := time }
  others : ∀ i, i ≠ p.slot → book'.slot i = book.slot i
  accepted : ∀ i, book'.Accepted i ↔ book.Accepted i
  registry : book'.orderRegistry = book.orderRegistry
  trades : book'.tradesCompleted = book.tradesCompleted
  queued : p.slot ∈ book.queueAt (book.order p).side (book.order p).price
  queue : ∀ side k, book'.queueAt side k = book.amendedQueue p price qty side k
  nodup : ∀ side k, (book'.queueAt side k).Nodup
  pruned : ∀ side k, (book'.levels side).find? k = none ↔ book'.queueAt side k = []

/-! ### The queues of a sound book -/

theorem queueAt_of_find? {side : OrderSide} {k : P} {lvl : PriceLevel P}
    (h : (book.levels side).find? k = some lvl) : book.queueAt side k = lvl.mapQueue := by
  rw [queueAt, h]

theorem queueAt_levelOrNew (book : OrderBook P) (side : OrderSide) (k : P) :
    book.queueAt side k = (book.levelOrNew side k).mapQueue := by
  unfold queueAt OrderBook.levelOrNew
  cases (book.levels side).find? k <;> rfl

theorem queueAt_congr {side : OrderSide} {k : P}
    (h : (book'.levels side).find? k = (book.levels side).find? k) :
    book'.queueAt side k = book.queueAt side k := by
  rw [queueAt, h, queueAt]

theorem Sound.queueAt_nodup (hs : book.Sound) (side : OrderSide) (k : P) :
    (book.queueAt side k).Nodup := by
  rw [queueAt_levelOrNew]
  apply (hs.levelOrNew side k).1.mapQueue_nodup
  intro e _ e' _ hslot
  exact congrArg (fun i => (book.slot i).id) hslot

theorem Sound.queueAt_eq_nil_iff (hs : book.Sound) (side : OrderSide) (k : P) :
    (book.levels side).find? k = none ↔ book.queueAt side k = [] := by
  cases hlvl : (book.levels side).find? k with
  | none => simp [queueAt, hlvl]
  | some lvl =>
    have hsound := hs.level side k lvl hlvl
    rw [queueAt_of_find? hlvl, hsound.wf.mapQueue_eq_nil_iff, hsound.not_empty]
    simp

/-! ### Taking the order out, and putting it back -/

namespace Withdrawn
variable {p : OrderPtr} {lvl lvl' : PriceLevel P}

theorem mapQueue (w : Withdrawn book p lvl lvl') (h : book.Linked) (hs : book.Sound) :
    p.slot ∈ lvl.mapQueue ∧ lvl'.mapQueue = lvl.mapQueue.erase p.slot := by
  obtain ⟨lvl₀, j, hlvl, hj⟩ := h.placed p.slot w.acc w.live
  have hsame : lvl₀ = lvl := Option.some.inj (hlvl.symm.trans w.find)
  subst hsame
  have hsound := hs.level _ _ _ hlvl
  -- The entry that the map has for the id is one of this very slot.
  obtain ⟨q, hq, hqid, -⟩ := (h.level _ _ _ hlvl).keys.of_key hsound.wf hj
  have hacc := (hsound.entries _ (List.mem_of_getElem? hq)).1
  have hslot : q.slot = p.slot := h.slot_inj hacc w.acc hqid
  have hslots : ∀ e ∈ lvl₀.orderEntries, ∀ e' ∈ lvl₀.orderEntries,
      e.order.slot = e'.order.slot →
        (book.orderPool.get e.order).id = (book.orderPool.get e'.order).id := by
    intro e _ e' _ heq
    exact congrArg (fun i => (book.slot i).id) heq
  rw [← hslot]
  exact ⟨PriceLevel.mem_mapQueue_iff.mpr ⟨_, j, _, hj, hq, rfl⟩,
    hsound.wf.mapQueue_removed hj hq w.rem hslots⟩

/-- The order that was taken out goes back to the end. -/
theorem mapQueue_requeued (w : Withdrawn book p lvl lvl') (h : book.Linked) (hs : book.Sound) :
    (lvl'.addOrder book.orderPool.get p).mapQueue = lvl.mapQueue.erase p.slot ++ [p.slot] := by
  rw [PriceLevel.mapQueue_addOrder w.rem.find?_self, (w.mapQueue h hs).2]

/-- No level of another price has the order. -/
theorem mapQueue_moved (w : Withdrawn book p lvl lvl') (h : book.Linked) (hs : book.Sound) {k : P}
    (hk : k ≠ (book.order p).price) :
    ((book.levelOrNew (book.order p).side k).addOrder book.orderPool.get p).mapQueue =
      book.queueAt (book.order p).side k ++ [p.slot] := by
  rw [queueAt_levelOrNew]
  apply PriceLevel.mapQueue_addOrder
  cases hlvl : (book.levels (book.order p).side).find? k with
  | none =>
    rw [OrderBook.levelOrNew, hlvl]
    rfl
  | some l =>
    rw [OrderBook.levelOrNew, hlvl, Option.getD_some]
    cases hj : l.ordersMap.find? (book.orderPool.get p).id with
    | none => rfl
    | some j =>
      -- A key for its id would be an entry of the order at another price.
      obtain ⟨q, hq, hid, -⟩ := (h.level _ _ _ hlvl).keys.of_key (hs.level _ _ _ hlvl).wf hj
      exact absurd (w.same_id h hs hlvl (List.mem_of_getElem? hq) hid).2 hk

/-- The queue of the old price, whether or not the level was pruned. -/
theorem queueAt_putLevel (w : Withdrawn book p lvl lvl') (h : book.Linked) (hs : book.Sound) :
    (match (putLevel (book.levels (book.order p).side) (book.order p).price lvl').find?
        (book.order p).price with
      | none => []
      | some l => l.mapQueue) = lvl.mapQueue.erase p.slot := by
  rw [find?_putLevel, if_pos rfl, ← (w.mapQueue h hs).2]
  cases hempty : lvl'.empty with
  | true => simp [w.wf.mapQueue_eq_nil_iff.mpr hempty]
  | false => simp

end Withdrawn

/-! ### The outcomes of `modify_order` -/

/-- The queues of the other side are not touched. -/
theorem queueAt_other_side {p : OrderPtr} (o : Order P) (lvs : SideLevels P (book.order p).side)
    (flag : Bool) {side : OrderSide} (hside : side ≠ (book.order p).side) (k : P) :
    OrderBook.queueAt { (book.setOrder p o).setLevels (book.order p).side lvs with
      tryMatchFlag := flag } side k = book.queueAt side k := by
  apply queueAt_congr
  exact congrArg (SortedMap.find? · k) (setLevels_levels_ne _ hside _)

/-- On its own side, the queue of the price at which it was inserted. -/
theorem queueAt_inserted {p : OrderPtr} (o : Order P) {lvs : SideLevels P (book.order p).side}
    (price : P) (lvl : PriceLevel P) (flag : Bool) :
    OrderBook.queueAt
      { (book.setOrder p o).setLevels (book.order p).side (lvs.insert price lvl) with
      tryMatchFlag := flag } (book.order p).side price = lvl.mapQueue := by
  apply queueAt_of_find?
  simp only [setLevels_levels_self]
  exact SortedMap.find?_insert_self _ _ _

theorem queueAt_not_inserted {p : OrderPtr} (o : Order P)
    {lvs : SideLevels P (book.order p).side} {price : P} (lvl : PriceLevel P) (flag : Bool) {k : P}
    (hk : k ≠ price) :
    OrderBook.queueAt
      { (book.setOrder p o).setLevels (book.order p).side (lvs.insert price lvl) with
      tryMatchFlag := flag } (book.order p).side k =
      (match lvs.find? k with
        | none => []
        | some l => l.mapQueue) := by
  simp only [queueAt, setLevels_levels_self]
  rw [SortedMap.find?_insert_ne _ hk]

namespace Withdrawn
variable {p : OrderPtr} {lvl lvl' : PriceLevel P} {price : P} {qty : Quantity}

theorem queueAt_requeued (w : Withdrawn book p lvl lvl') (h : book.Linked) (hs : book.Sound)
    (hprice : price = (book.order p).price) (hgt : (book.order p).quantity < qty) (o : Order P)
    (flag : Bool) (side : OrderSide) (k : P) :
    OrderBook.queueAt { (book.setOrder p o).setLevels (book.order p).side
        ((book.levels (book.order p).side).insert price (lvl'.addOrder book.orderPool.get p)) with
      tryMatchFlag := flag } side k = book.amendedQueue p price qty side k := by
  unfold amendedQueue
  by_cases hside : side = (book.order p).side
  · subst hside
    simp only [ne_eq, not_true_eq_false, if_false, if_neg (not_not.mpr hprice)]
    by_cases hk : k = price
    · rw [hk, if_pos ⟨rfl, hgt⟩, queueAt_inserted, w.mapQueue_requeued h hs, hprice,
        queueAt_of_find? w.find]
    · rw [if_neg (fun hc => hk hc.1), queueAt_not_inserted _ _ _ hk]
      rfl
  · rw [if_pos hside]
    exact queueAt_other_side _ _ _ hside k

theorem queueAt_moved (w : Withdrawn book p lvl lvl') (h : book.Linked) (hs : book.Sound)
    (hprice : price ≠ (book.order p).price) (o : Order P) (flag : Bool) (side : OrderSide) (k : P) :
    OrderBook.queueAt { (book.setOrder p o).setLevels (book.order p).side
        ((putLevel (book.levels (book.order p).side) (book.order p).price lvl').insert price
          ((book.levelOrNew (book.order p).side price).addOrder book.orderPool.get p)) with
      tryMatchFlag := flag } side k = book.amendedQueue p price qty side k := by
  unfold amendedQueue
  by_cases hside : side = (book.order p).side
  · subst hside
    simp only [ne_eq, not_true_eq_false, if_false, if_pos hprice]
    by_cases hnew : k = price
    · have hold : k ≠ (book.order p).price := fun heq => hprice (hnew.symm.trans heq)
      rw [if_neg hold, if_pos hnew, hnew, queueAt_inserted, w.mapQueue_moved h hs hprice]
    · rw [queueAt_not_inserted _ _ _ hnew]
      by_cases hold : k = (book.order p).price
      · rw [if_pos hold, hold, queueAt_of_find? w.find, ← w.queueAt_putLevel h hs]
      · rw [if_neg hold, if_neg hnew, find?_putLevel, if_neg hold]
        rfl
  · rw [if_pos hside]
    exact queueAt_other_side _ _ _ hside k

end Withdrawn

variable [Zero P]

theorem ModifyOutcome.queue {id : OrderId} {price : P} {qty : Quantity} {p : OrderPtr}
    (ho : ModifyOutcome book id price qty true book') (hs : book.Sound) (h : book.Linked)
    (hp : book.orderRegistry.find? id = some p) (side : OrderSide) (k : P) :
    book'.queueAt side k = book.amendedQueue p price qty side k := by
  have hacc := (hs.registered id p hp).1
  cases ho with
  | reduced q hreg hlive hpos hqty hprice hlt =>
    rw [hp, Option.some.injEq] at hreg
    subst hreg
    -- The quantity is lower, so the order is not moved.
    have hnot : ¬ (k = price ∧ (book.order p).quantity < qty) :=
      fun hc => UInt64.lt_asymm hc.2 hlt
    simp only [amendedQueue, hprice, ne_eq, not_true_eq_false, if_false]
    rw [← hprice, if_neg hnot, ite_self]
    exact queueAt_congr rfl
  | requeued q lvl lvl' hreg hlive hpos hqty hprice hgt hlvl hrem hwf =>
    rw [hp, Option.some.injEq] at hreg
    subst hreg
    have w : Withdrawn book p lvl lvl' := ⟨hacc, hlive, hprice ▸ hlvl, hrem, hwf⟩
    exact w.queueAt_requeued h hs hprice hgt _ book.tryMatchFlag side k
  | moved q lvl lvl' now hreg hlive hpos hqty hprice hlvl hrem hwf =>
    rw [hp, Option.some.injEq] at hreg
    subst hreg
    have w : Withdrawn book p lvl lvl' := ⟨hacc, hlive, hlvl, hrem, hwf⟩
    exact w.queueAt_moved h hs hprice _ _ side k

omit [Zero P] in
/-- What one written order and the levels of its side leave as it was. -/
theorem Amended.of_setOrder {p : OrderPtr} {o : Order P} {price : P} {qty : Quantity}
    {side : OrderSide} {lvs : SideLevels P side} {flag : Bool}
    (hbook : book' = { (book.setOrder p o).setLevels side lvs with tryMatchFlag := flag })
    (horder : ∃ time,
      o = { book.order p with price := price, quantity := qty, updatedTime := time })
    (hqueued : p.slot ∈ book.queueAt (book.order p).side (book.order p).price) (hs' : book'.Sound)
    (hqueue : ∀ side k, book'.queueAt side k = book.amendedQueue p price qty side k) :
    Amended book book' p price qty where
  order := by
    have hself : book'.order p = o := by
      rw [hbook]
      exact OrderPool.get_set_self _ _ _
    rw [hself]
    exact horder
  others i hi := by
    rw [hbook]
    exact (setOrder_slot book p o i).trans (if_neg hi)
  accepted i := by rw [hbook]; rfl
  registry := by rw [hbook]; rfl
  trades := by rw [hbook]; rfl
  queued := hqueued
  queue := hqueue
  nodup := hs'.queueAt_nodup
  pruned := hs'.queueAt_eq_nil_iff

/-- Every successful amendment does what it should. -/
theorem ModifyOutcome.amended {id : OrderId} {price : P} {qty : Quantity} {p : OrderPtr}
    (ho : ModifyOutcome book id price qty true book') (hs : book.Sound) (h : book.Linked)
    (hp : book.orderRegistry.find? id = some p) : Amended book book' p price qty := by
  have hs' := ho.sound hs
  have hqueue := ho.queue hs h hp
  -- A live order is a key of its level, so it is in that level's queue.
  have hqueued : (book.order p).Live →
      p.slot ∈ book.queueAt (book.order p).side (book.order p).price := by
    intro hlive
    obtain ⟨lvl, hlvl⟩ := h.findable hs id p hp hlive
    obtain ⟨b, lvl', -, hrem, hwf⟩ :=
      PriceLevel.removeOrder_ok (hs.level _ _ _ hlvl).wf (book.order p).id
    have w : Withdrawn book p lvl lvl' := ⟨(hs.registered id p hp).1, hlive, hlvl, hrem, hwf⟩
    rw [queueAt_of_find? hlvl]
    exact (w.mapQueue h hs).1
  cases ho with
  | reduced q hreg hlive hpos hqty hprice hlt =>
    rw [hp, Option.some.injEq] at hreg
    subst hreg
    have hbook := setLevels_self (book.setOrder p ((book.order p).setQuantity qty))
      (book.order p).side
    apply Amended.of_setOrder hbook.symm _ (hqueued hlive) hs' hqueue
    exact ⟨(book.order p).updatedTime, by rw [hprice]; rfl⟩
  | requeued q lvl lvl' hreg hlive hpos hqty hprice hgt hlvl hrem hwf =>
    rw [hp, Option.some.injEq] at hreg
    subst hreg
    apply Amended.of_setOrder rfl _ (hqueued hlive) hs' hqueue
    exact ⟨(book.order p).updatedTime, by rw [hprice]; rfl⟩
  | moved q lvl lvl' now hreg hlive hpos hqty hprice hlvl hrem hwf =>
    rw [hp, Option.some.injEq] at hreg
    subst hreg
    apply Amended.of_setOrder rfl _ (hqueued hlive) hs' hqueue
    exact ⟨now, rfl⟩

/-- When an amendment is accepted. -/
def Amendable (book : OrderBook P) (id : OrderId) (price : P) (qty : Quantity) : Prop :=
  ∃ p, book.orderRegistry.find? id = some p ∧ (book.order p).Live ∧ 0 < price ∧
    (book.order p).quantityFilled < qty ∧
    (price ≠ (book.order p).price ∨ qty ≠ (book.order p).quantity)

theorem ModifyOutcome.success_iff {id : OrderId} {price : P} {qty : Quantity} {b : Bool}
    (ho : ModifyOutcome book id price qty b book') : b = true ↔ book.Amendable id price qty := by
  cases ho with
  | unknown hreg => simp [Amendable, hreg]
  | dead p hreg hlive => simp [Amendable, hreg, hlive]
  | invalid p hreg hlive hbad =>
    simp only [Amendable, hreg, Option.some.injEq, exists_eq_left', Bool.false_eq_true, false_iff]
    intro hgood
    obtain ⟨-, hpos, hqty, -⟩ := hgood
    rcases hbad with hprice | hle
    · exact absurd hpos (not_lt.mpr hprice)
    · exact absurd hqty (UInt64.not_lt.mpr hle)
  | same p hreg hlive hpos hqty hprice hsame => simp [Amendable, hreg, hprice, hsame]
  | reduced p hreg hlive hpos hqty hprice hlt =>
    have hne : qty ≠ (book.order p).quantity := UInt64.ne_of_lt hlt
    exact iff_of_true rfl ⟨p, hreg, hlive, hpos, hqty, Or.inr hne⟩
  | requeued p lvl lvl' hreg hlive hpos hqty hprice hgt hlvl hrem hwf =>
    have hne : qty ≠ (book.order p).quantity := Ne.symm (UInt64.ne_of_lt hgt)
    exact iff_of_true rfl ⟨p, hreg, hlive, hpos, hqty, Or.inr hne⟩
  | moved p lvl lvl' now hreg hlive hpos hqty hprice hlvl hrem hwf =>
    exact iff_of_true rfl ⟨p, hreg, hlive, hpos, hqty, Or.inl hprice⟩

theorem ModifyOutcome.refused {id : OrderId} {price : P} {qty : Quantity}
    (ho : ModifyOutcome book id price qty false book') : book' = book := by
  cases ho <;> rfl

end OrderBook

/-! ### Over runs -/

namespace Session
open OrderBook
variable {P : Type} [LinearOrder P] [Zero P]

/-- **`modify_order` end to end.**  On a book that a run with distinct ids
    reaches, the call returns, with `true` exactly if the amendment is
    acceptable; it leaves the book as it was or makes the amendment, with the
    priority that goes with it. -/
theorem modify_end_to_end {s s' : Session P} {ls : List (Label P)} (hf : Fresh s)
    (hr : Path Step s ls s') (hids : (addedIds ls).Nodup) (id : OrderId) (price : P)
    (qty : Quantity) (clock : Clock) :
    ∃ (b : Bool) (book' : OrderBook P),
      s'.step (.modifyOrder id price qty clock) = .ok (⟨book', s'.alloc⟩, .done b) ∧
      (b = true ↔ s'.book.Amendable id price qty) ∧
      (b = false → book' = s'.book) ∧
      (b = true → ∀ p, s'.book.orderRegistry.find? id = some p →
        Amended s'.book book' p price qty) := by
  have hs := sound_of_path hf hr
  have h := linked_of_path hf hr hids
  rcases modifyOrder_cases hs id price qty clock with ⟨b, book', hok, ho⟩ | ⟨-, hnot⟩
  · refine ⟨b, book', by simp only [step, hok, bind, Except.bind], ho.success_iff, ?_, ?_⟩
    · intro hb
      subst hb
      exact ho.refused
    · intro hb p hp
      subst hb
      exact ho.amended hs h hp
  · exact absurd (h.findable hs) hnot

/-- Two buyers at 100; the first raises its quantity and goes to the back, and
    then moves to a level of its own. -/
theorem modify_end_to_end_queueChanges : ∃ s : Session ℤ,
    Path Step (opening 1000)
      [(limit .buy 100 10, .orderId 1), (limit .buy 100 5, .orderId 2),
        (amend 1 100 20, .done true)] s ∧
    s.book.queueAt .buy 100 = [1, 0] ∧
    ∃ (b : Bool) (book' : OrderBook ℤ),
      s.step (.modifyOrder 1 99 20 fun _ => 0) = .ok (⟨book', s.alloc⟩, .done b) ∧
      (b = true ↔ s.book.Amendable 1 99 20) ∧
      (b = false → book' = s.book) ∧
      (b = true → ∀ p, s.book.orderRegistry.find? 1 = some p → Amended s.book book' p 99 20) := by
  obtain ⟨s, hs, hf⟩ := exists_path (opening 1000)
    [(limit .buy 100 10, .orderId 1), (limit .buy 100 5, .orderId 2),
      (amend 1 100 20, .done true)]
    (fun s => s.book.queueAt .buy 100 == [1, 0]) (by
      simp only [opening, OrderBook.new, OrderPool.new_eq]
      decide +kernel)
  exact ⟨s, hs, by simpa using hf,
    modify_end_to_end (opening_fresh 1000) hs (by decide) 1 99 20 fun _ => 0⟩

/-- Two buyers with one id, which is drawn again after all others. -/
def twoWithOneId : List (Label ℤ) :=
  [(limit .buy 80 10, .orderId 1)] ++ draws (2 ^ 64 - 1) ++ [(limit .buy 100 10, .orderId 1)]

/-- With an id drawn twice the map of the new level forgets an order: the
    second buyer moves to the level of the first, under the same id. -/
theorem twoWithOneId_loses_order : Fresh (opening 1) ∧ ∃ s s' : Session ℤ, ∃ p,
    Path Step (opening 1) twoWithOneId s ∧ Path Step s [(amend 1 80 10, .done true)] s' ∧
      s.book.asks.front? = none ∧ s.book.orderRegistry.find? 1 = some p ∧
      s.book.queueAt .buy 80 = [0] ∧ s'.book.queueAt .buy 80 = [1] ∧
      ¬ Amended s.book s'.book p 80 10 := by
  obtain ⟨s, hs, hf⟩ := exists_path_draws (opening 1) [(limit .buy 80 10, .orderId 1)] (2 ^ 64 - 1)
    [(limit .buy 100 10, .orderId 1)]
    (fun s => s.book.asks.front?.isNone && (s.book.orderRegistry.find? 1 == some ⟨1, 1⟩) &&
      (s.book.queueAt .buy 80 == [0]) && ((s.book.order ⟨1, 1⟩).price == 100) &&
      ((s.book.order ⟨1, 1⟩).side == .buy) &&
      s.endsIn [amend 1 80 10] [.done true] fun s' => s'.book.queueAt .buy 80 == [1]) (by
      simp only [opening, OrderBook.new, OrderPool.new_eq]
      decide +kernel)
  simp only [Bool.and_eq_true, beq_iff_eq, Option.isNone_iff_eq_none] at hf
  obtain ⟨⟨⟨⟨⟨hasks, hp⟩, hbefore⟩, hprice⟩, hside⟩, hend⟩ := hf
  obtain ⟨s', hs', hf'⟩ := exists_path s [(amend 1 80 10, .done true)] _ hend
  have hafter := beq_iff_eq.mp hf'
  refine ⟨opening_fresh 1, s, s', ⟨1, 1⟩, hs, hs', hasks, hp, hbefore, hafter, ?_⟩
  intro ham
  -- The queue should be 0 and then 1, and 0 is missing.
  have hqueue := ham.queue .buy 80
  rw [hafter, amendedQueue, hbefore, hprice, hside] at hqueue
  simp at hqueue

end Session
end Orderbook
