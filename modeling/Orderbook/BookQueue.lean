import Orderbook.TidyQueue
import Orderbook.Lib.Priority

/-! # A side of the book, read as one queue

    The levels in map order, and of each level the valid entries in index
    order.  As long as no order is queued again, the entries of a level are
    in the order of arrival, and the queue of a side holds its live orders by
    price and then by arrival. -/

namespace Orderbook

/-- Calls with a positive price and quantity, and amendments that only lower
    the quantity of their order. -/
def Session.Ordinary {P : Type} [LinearOrder P] [Zero P] (s : Session P)
    (l : Session.Label P) : Prop :=
  match l.1 with
  | .addOrder client _ => 0 < client.price ∧ 1 ≤ client.quantity
  | .modifyOrder id price qty _ =>
    ∀ p, s.book.orderRegistry.find? id = some p → (s.book.order p).Live →
      price = (s.book.order p).price ∧ qty ≤ (s.book.order p).quantity
  | _ => True

instance {P : Type} [LinearOrder P] [Zero P] (s : Session P) (l : Session.Label P) :
    Decidable (s.Ordinary l) :=
  match l with
  | (.addOrder client _, _) => inferInstanceAs (Decidable (0 < client.price ∧ 1 ≤ client.quantity))
  | (.modifyOrder id price qty _, _) =>
    inferInstanceAs (Decidable (∀ p ∈ s.book.orderRegistry.find? id, (s.book.order p).Live →
      price = (s.book.order p).price ∧ qty ≤ (s.book.order p).quantity))
  | (.cancelOrder _ _, _) => .isTrue trivial
  | (.otherDraws, _) => .isTrue trivial

namespace PriceLevel
variable {P : Type} {heap : OrderPtr → Order P} {lvl lvl' : PriceLevel P}

/-- The slots of the valid entries in index order. -/
def queue (lvl : PriceLevel P) : List ℕ :=
  (lvl.orderEntries.filter OrderEntry.isValid).map fun e => e.order.slot

/-- Of two valid entries the one in front arrived earlier. -/
def InOrder (lvl : PriceLevel P) : Prop :=
  ∀ (i j : ℕ) (p q : OrderPtr), i < j → lvl.orderEntries[i]? = some (.queued p) →
    lvl.orderEntries[j]? = some (.queued q) → p.slot < q.slot

theorem mem_queue_iff {k : ℕ} :
    k ∈ lvl.queue ↔ ∃ (j : ℕ) (p : OrderPtr),
      lvl.orderEntries[j]? = some (.queued p) ∧ p.slot = k := by
  simp only [queue, List.mem_map, List.mem_filter]
  constructor
  · rintro ⟨⟨valid, p⟩, ⟨hmem, hvalid⟩, rfl⟩
    obtain ⟨j, hj⟩ := List.mem_iff_getElem?.mp hmem
    have hvalid : valid = true := hvalid
    subst hvalid
    exact ⟨j, p, hj, rfl⟩
  · rintro ⟨j, p, hj, rfl⟩
    exact ⟨.queued p, ⟨List.mem_of_getElem? hj, rfl⟩, rfl⟩

theorem InOrder.queue_increasing (h : lvl.InOrder) : lvl.queue.Pairwise (· < ·) := by
  unfold queue
  rw [List.pairwise_map, List.pairwise_filter, List.pairwise_iff_getElem]
  intro i j hi hj hij hvi hvj
  refine h i j _ _ hij ?_ ?_
  · rw [List.getElem?_eq_getElem hi, Option.some.injEq]
    exact congrArg (OrderEntry.mk · lvl.orderEntries[i].order) hvi
  · rw [List.getElem?_eq_getElem hj, Option.some.injEq]
    exact congrArg (OrderEntry.mk · lvl.orderEntries[j].order) hvj

theorem WF.queue_eq_cons (h : lvl.WF heap) {p : OrderPtr}
    (hp : lvl.orderEntries[lvl.queueHeadIndex]? = some (.queued p)) :
    ∃ t, lvl.queue = p.slot :: t := by
  obtain ⟨t, ht⟩ := h.valid_eq_cons hp
  exact ⟨t.map fun e => e.order.slot, by rw [queue, ht, List.map_cons]⟩

/-! ### What keeps a level in order -/

theorem InOrder.new (k : P) : (PriceLevel.new k).InOrder := by
  intro i j p q _ hi
  simp [PriceLevel.new] at hi

theorem InOrder.addOrder (h : lvl.InOrder) {p : OrderPtr}
    (hlast : ∀ e ∈ lvl.orderEntries, e.order.slot < p.slot) :
    (lvl.addOrder heap p).InOrder := by
  intro i j q q' hij hi hj
  simp only [PriceLevel.addOrder] at hi hj
  have hlen : j < lvl.orderEntries.length + 1 := by
    have := (List.getElem?_eq_some_iff.mp hj).1
    simpa using this
  rw [List.getElem?_append_left (by omega)] at hi
  by_cases hlt : j < lvl.orderEntries.length
  · rw [List.getElem?_append_left hlt] at hj
    exact h i j q q' hij hi hj
  · have heq : j - lvl.orderEntries.length = 0 := by omega
    rw [List.getElem?_append_right (by omega), heq] at hj
    simp only [List.getElem?_cons_zero, Option.some.injEq, OrderEntry.mk.injEq, true_and] at hj
    rw [← hj]
    exact hlast _ (List.mem_of_getElem? hi)

/-- Entries that were dropped leave the others in order. -/
theorem InOrder.mono (h : lvl.InOrder)
    (hsub : ∀ (j : ℕ) (p : OrderPtr), lvl'.orderEntries[j]? = some (.queued p) →
      lvl.orderEntries[j]? = some (.queued p)) : lvl'.InOrder :=
  fun i j p q hij hi hj => h i j p q hij (hsub i p hi) (hsub j q hj)

theorem Removed.queued_sub {id : OrderId} (h : Removed heap lvl id lvl') (j : ℕ) (p : OrderPtr)
    (hj : lvl'.orderEntries[j]? = some (.queued p)) : lvl.orderEntries[j]? = some (.queued p) := by
  cases h with
  | absent _ => exact hj
  | removed i n q _ _ _ _ _ _ => exact (queued_of_set hj).2

end PriceLevel

namespace OrderBook
variable {P : Type} [LinearOrder P]

/-- The slots of a side: the levels in map order, the valid entries of each
    in index order. -/
def queue (book : OrderBook P) (side : OrderSide) : List ℕ :=
  (book.levels side).entries.flatMap fun e => e.2.queue

def InOrder (book : OrderBook P) : Prop :=
  ∀ side price lvl, (book.levels side).find? price = some lvl → lvl.InOrder

/-- The price of the order in a slot. -/
def priceOf (book : OrderBook P) (k : ℕ) : P := (book.slot k).price

theorem mem_queue_iff_entry {book : OrderBook P} {side : OrderSide} {k : ℕ} :
    k ∈ book.queue side ↔ ∃ (price : P) (lvl : PriceLevel P) (j : ℕ) (p : OrderPtr),
      (book.levels side).find? price = some lvl ∧
      lvl.orderEntries[j]? = some (.queued p) ∧ p.slot = k := by
  simp only [queue, List.mem_flatMap, PriceLevel.mem_queue_iff]
  constructor
  · rintro ⟨e, he, j, p, hj, hp⟩
    exact ⟨e.1, e.2, j, p, SortedMap.mem_entries_iff.mp he, hj, hp⟩
  · rintro ⟨price, lvl, j, p, hlvl, hj, hp⟩
    exact ⟨(price, lvl), SortedMap.mem_entries_iff.mpr hlvl, j, p, hj, hp⟩

/-- On a tidy book the queue of a side holds exactly its live orders. -/
theorem Tidy.mem_queue_iff {book : OrderBook P} (h : book.Tidy) (hs : book.Sound)
    {side : OrderSide} {k : ℕ} : k ∈ book.queue side ↔
      book.Accepted k ∧ (book.slot k).Live ∧ (book.slot k).side = side := by
  rw [mem_queue_iff_entry]
  constructor
  · rintro ⟨price, lvl, j, p, hlvl, hj, rfl⟩
    obtain ⟨hacc, hside⟩ := (hs.level _ _ _ hlvl).entries _ (List.mem_of_getElem? hj)
    exact ⟨hacc, ((h.level _ _ _ hlvl).entry (h.linked.level _ _ _ hlvl).keys hj).2, hside⟩
  · rintro ⟨hacc, hlive, rfl⟩
    obtain ⟨lvl, j, hlvl, hj⟩ := h.linked.placed k hacc hlive
    have hsound := hs.level _ _ _ hlvl
    obtain ⟨-, p, hp, hid⟩ := hsound.wf.mapped _ j hj
    have hpacc := (hsound.entries _ (List.mem_of_getElem? hp)).1
    exact ⟨_, lvl, j, p, hlvl, hp, h.linked.slot_inj hpacc hacc hid⟩

/-- The queue of a side is sorted by price and then by arrival. -/
theorem InOrder.queue_sorted {book : OrderBook P} (h : book.InOrder) (ht : book.Tidy)
    (side : OrderSide) : Priority.Sorted side.before book.priceOf (book.queue side) := by
  have hprice : ∀ e ∈ (book.levels side).entries, ∀ k ∈ e.2.queue, book.priceOf k = e.1 := by
    intro e he k hk
    obtain ⟨j, p, hj, rfl⟩ := PriceLevel.mem_queue_iff.mp hk
    exact ((ht.linked.level _ _ _ (SortedMap.mem_entries_iff.mp he)).keys j p hj).1
  unfold Priority.Sorted queue
  rw [List.pairwise_flatMap]
  constructor
  · intro e he
    -- Inside a level the prices are equal.
    refine List.Pairwise.imp_of_mem ?_
      (h side e.1 e.2 (SortedMap.mem_entries_iff.mp he)).queue_increasing
    intro a b ha hb hab
    exact Or.inr ⟨(hprice e he a ha).trans (hprice e he b hb).symm, hab⟩
  · refine List.Pairwise.imp_of_mem ?_ (book.levels side).sorted
    intro e e' he he' hlt a ha b hb
    left
    rw [hprice e he a ha, hprice e' he' b hb]
    exact hlt

/-- The order that trades is at the front of the queue of its side. -/
theorem Iteration.queue_eq_cons {book book' : OrderBook P} (x : Iteration book book')
    (hs : book.Sound) (h : book.Tidy) (side : OrderSide) :
    ∃ t, book.queue side = (x.ptr side).slot :: t := by
  have hlvl := hs.level _ _ _ (x.find side)
  obtain ⟨p, hp⟩ := (h.level _ _ _ (x.find side)).head
  have heq : x.entry side = .queued p := by
    have hhead := x.head side
    rw [hp, Option.some.injEq] at hhead
    exact hhead.symm
  obtain ⟨t, ht⟩ := hlvl.wf.queue_eq_cons hp
  have hfront := x.front side
  rw [SortedMap.front?, List.head?_eq_some_iff] at hfront
  obtain ⟨es, hes⟩ := hfront
  refine ⟨t ++ es.flatMap fun e => e.2.queue, ?_⟩
  unfold queue
  rw [hes, List.flatMap_cons, ht, Iteration.ptr, heq]
  rfl

/-! ### What keeps the levels in order -/

theorem Enqueued.inOrder {book queued : OrderBook P} {client : Order P} {id : OrderId}
    {p : OrderPtr} (hq : Enqueued book client id p queued) (hs : book.Sound) (h : book.InOrder) :
    queued.InOrder := by
  intro side price lvl hlvl
  rw [hq.find?] at hlvl
  split at hlvl
  · cases hlvl
    obtain ⟨-, hentries⟩ := hs.levelOrNew side price
    apply PriceLevel.InOrder.addOrder
    · unfold OrderBook.levelOrNew
      cases hf : (book.levels side).find? price with
      | none => exact .new _
      | some lvl => exact h side price lvl hf
    · intro e he
      -- The new order has the largest slot that was handed out.
      have hacc := (hentries e he).1
      unfold Accepted at hacc
      rw [hq.slot_eq]
      exact hacc
  · exact h side price lvl hlvl

theorem inOrder_putLevel {book : OrderBook P} (h : book.InOrder) {side : OrderSide} {key : P}
    {lvl' : PriceLevel P} (hlvl' : lvl'.InOrder) {k : P} {l : PriceLevel P}
    (hl : (putLevel (book.levels side) key lvl').find? k = some l) : l.InOrder := by
  rw [find?_putLevel] at hl
  split at hl
  · split at hl
    · cases hl
    · cases hl
      exact hlvl'
  · exact h side k l hl

theorem CancelOutcome.inOrder {book book' : OrderBook P} {id : OrderId} {b : Bool}
    (ho : CancelOutcome book id b book') (h : book.InOrder) : book'.InOrder := by
  cases ho with
  | unknown _ => exact h
  | dead _ _ _ => exact h
  | cancelled p lvl lvl' now hreg hlive hlvl hrem hwf =>
    intro side k l hl
    rw [find?_setLevels] at hl
    split at hl
    · next heq =>
      subst heq
      exact inOrder_putLevel h ((h _ _ _ hlvl).mono hrem.queued_sub) hl
    · exact h side k l hl

theorem Iteration.inOrder {book book' : OrderBook P} (x : Iteration book book')
    (h : book.InOrder) : book'.InOrder := by
  intro side k l hl
  rw [x.levels side] at hl
  exact inOrder_putLevel h ((h _ _ _ (x.find side)).mono fun _ _ hj => (x.popped side).queued hj) hl

end OrderBook

/-! ### Over runs -/

namespace Session
open OrderBook
variable {P : Type} [LinearOrder P] [Zero P]

/-- An ordinary amendment is refused or lowers a quantity. -/
theorem Ordinary.reduced {s : Session P} {id : OrderId} {price : P} {qty : Quantity}
    {clock : Clock} {b : Bool} {book' : OrderBook P}
    (hG : Ordinary s (.modifyOrder id price qty clock, .done b))
    (ho : ModifyOutcome s.book id price qty b book') :
    (b = false ∧ book' = s.book) ∨
      ∃ p, s.book.orderRegistry.find? id = some p ∧ b = true ∧
        book' = s.book.setOrder p ((s.book.order p).setQuantity qty) := by
  cases ho with
  | unknown _ => exact Or.inl ⟨rfl, rfl⟩
  | dead _ _ _ => exact Or.inl ⟨rfl, rfl⟩
  | invalid _ _ _ _ => exact Or.inl ⟨rfl, rfl⟩
  | same _ _ _ _ _ _ _ => exact Or.inl ⟨rfl, rfl⟩
  | reduced p hreg hlive hpos hqty hprice hlt => exact Or.inr ⟨p, hreg, rfl, rfl⟩
  | requeued p lvl lvl' hreg hlive hpos hqty hprice hgt hlvl hrem hwf =>
    exact absurd (hG p hreg hlive).2 (UInt64.not_le.mpr hgt)
  | moved p lvl lvl' now hreg hlive hpos hqty hprice hlvl hrem hwf =>
    exact absurd (hG p hreg hlive).1 hprice

theorem preserved_inOrder : Preserved (P := P) Ordinary InOrder where
  enqueue _ _ _ _ _ _ hs _ hq h := hq.inOrder hs h
  iterate _ _ x _ _ h := x.inOrder h
  setFlag _ h := h
  cancel _ _ _ _ _ _ _ ho h := ho.inOrder h
  modify _ _ _ _ _ _ _ _ hG ho h := by
    rcases Ordinary.reduced hG ho with ⟨-, rfl⟩ | ⟨p, -, -, rfl⟩
    · exact h
    · exact h

end Session
end Orderbook
