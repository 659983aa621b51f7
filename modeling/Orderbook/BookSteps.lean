import Orderbook.Session
import Orderbook.LevelQueue

/-! # What the operations of the book do

    `OrderBook.Sound` collects what holds of a book whatever ids its orders
    carry: the levels are well formed and not empty, their entries are
    accepted orders of the right side, and no order is filled beyond its
    quantity.  On a sound book each operation has one lemma that says what it
    does to the orders, to the levels (read through `find?`) and to the
    registry; the invariants are derived from these lemmas. -/

namespace Orderbook

namespace OrderBook
variable {P : Type} [LinearOrder P]

/-- A slot of the pool has been handed out to an accepted order. -/
def Accepted (book : OrderBook P) (slot : ℕ) : Prop := slot < book.orderPool.nextFreeIndex

/-- The order in a slot. -/
abbrev slot (book : OrderBook P) (i : ℕ) : Order P := book.orderPool.orders.cells i

/-- What holds of a stored level, whatever the ids. -/
structure LevelSound (book : OrderBook P) (side : OrderSide) (lvl : PriceLevel P) : Prop where
  not_empty : lvl.empty = false
  wf : lvl.WF book.orderPool.get
  entries : ∀ e ∈ lvl.orderEntries, book.Accepted e.order.slot ∧ (book.order e.order).side = side

structure Sound (book : OrderBook P) : Prop where
  pool : book.orderPool.Sound
  filled_le : ∀ i, book.Accepted i → (book.slot i).quantityFilled ≤ (book.slot i).quantity
  registered : ∀ id p, book.orderRegistry.find? id = some p →
    book.Accepted p.slot ∧ (book.order p).id = id
  level : ∀ side price lvl, (book.levels side).find? price = some lvl → book.LevelSound side lvl

/-! ### Reading what was written -/

theorem find?_setLevels (book : OrderBook P) (side side' : OrderSide) (lvs : SideLevels P side)
    (k : P) : ((book.setLevels side lvs).levels side').find? k =
      if side' = side then lvs.find? k else (book.levels side').find? k := by
  by_cases h : side' = side
  · subst h
    simp [setLevels]
  · simp [setLevels, h]

@[simp] theorem setLevels_levels_self (book : OrderBook P) (side : OrderSide)
    (lvs : SideLevels P side) : (book.setLevels side lvs).levels side = lvs := by
  simp [setLevels]

theorem setLevels_levels_ne (book : OrderBook P) {side side' : OrderSide} (h : side' ≠ side)
    (lvs : SideLevels P side) : (book.setLevels side lvs).levels side' = book.levels side' := by
  simp [setLevels, h]

@[simp] theorem setLevels_self (book : OrderBook P) (side : OrderSide) :
    book.setLevels side (book.levels side) = book := by
  simp [setLevels]

@[simp] theorem setLevels_orderPool (book : OrderBook P) (side : OrderSide)
    (lvs : SideLevels P side) : (book.setLevels side lvs).orderPool = book.orderPool := rfl

@[simp] theorem setLevels_orderRegistry (book : OrderBook P) (side : OrderSide)
    (lvs : SideLevels P side) : (book.setLevels side lvs).orderRegistry = book.orderRegistry := rfl

@[simp] theorem setOrder_levels (book : OrderBook P) (p : OrderPtr) (o : Order P) :
    (book.setOrder p o).levels = book.levels := rfl

@[simp] theorem setOrder_orderRegistry (book : OrderBook P) (p : OrderPtr) (o : Order P) :
    (book.setOrder p o).orderRegistry = book.orderRegistry := rfl

/-- Storing a level and pruning it if it is empty. -/
def putLevel {side : OrderSide} (lvs : SideLevels P side) (key : P) (lvl : PriceLevel P) :
    SideLevels P side :=
  removePriceLevelIfEmpty (lvs.insert key lvl) key

theorem find?_putLevel {side : OrderSide} (lvs : SideLevels P side) (key : P)
    (lvl : PriceLevel P) (k : P) : (putLevel lvs key lvl).find? k =
      if k = key then (if lvl.empty then none else some lvl) else lvs.find? k := by
  simp only [putLevel, removePriceLevelIfEmpty, SortedMap.find?_insert_self]
  by_cases hempty : lvl.empty = true
  · by_cases hk : k = key <;> simp [hempty, hk, SortedMap.find?_erase, SortedMap.find?_insert]
  · by_cases hk : k = key <;> simp [hempty, hk, SortedMap.find?_insert]

/-- The entries around a level that is replaced, and pruned if it is empty. -/
theorem putLevel_entries {side : OrderSide} {lvs : SideLevels P side} {key : P}
    {lvl : PriceLevel P} (h : lvs.find? key = some lvl) :
    ∃ l₁ l₂, lvs.entries = l₁ ++ (key, lvl) :: l₂ ∧
      (∀ e ∈ l₁, side.before e.1 key) ∧ (∀ e ∈ l₂, side.before key e.1) ∧
      ∀ lvl' : PriceLevel P, (putLevel lvs key lvl').entries =
        l₁ ++ ((if lvl'.empty then [] else [(key, lvl')]) ++ l₂) := by
  obtain ⟨l₁, l₂, hes, h₁, h₂, hins, herase⟩ := SortedMap.split_of_find? h
  refine ⟨l₁, l₂, hes, h₁, h₂, ?_⟩
  intro lvl'
  simp only [putLevel, removePriceLevelIfEmpty, SortedMap.find?_insert_self]
  split
  · rw [SortedMap.erase_insert, herase]
    rfl
  · exact hins lvl'

theorem removePriceLevelIfEmpty_of_not_empty {side : OrderSide} {lvs : SideLevels P side} {key : P}
    (h : ∀ lvl, lvs.find? key = some lvl → lvl.empty = false) :
    removePriceLevelIfEmpty lvs key = lvs := by
  unfold removePriceLevelIfEmpty
  split
  · next lvl hlvl => simp [h lvl hlvl]
  · rfl

theorem LevelSound.congr {book book' : OrderBook P} {side : OrderSide} {lvl : PriceLevel P}
    (h : book.LevelSound side lvl)
    (hacc : ∀ i, book.Accepted i → book'.Accepted i ∧ (book'.slot i).id = (book.slot i).id ∧
      (book'.slot i).side = (book.slot i).side) : book'.LevelSound side lvl where
  not_empty := h.not_empty
  wf := h.wf.congr fun e he => (hacc _ (h.entries e he).1).2.1
  entries e he := by
    obtain ⟨hslot, hside⟩ := h.entries e he
    obtain ⟨hslot', -, hside'⟩ := hacc _ hslot
    exact ⟨hslot', hside'.trans hside⟩

/-- The entries of a level are accepted orders of the right side. -/
def EntriesSound (book : OrderBook P) (side : OrderSide) (lvl : PriceLevel P) : Prop :=
  ∀ e ∈ lvl.orderEntries, book.Accepted e.order.slot ∧ (book.order e.order).side = side

theorem EntriesSound.mono {book : OrderBook P} {side : OrderSide} {lvl lvl' : PriceLevel P}
    (h : book.EntriesSound side lvl)
    (hsub : ∀ x ∈ lvl'.orderEntries, ∃ y ∈ lvl.orderEntries, y.order = x.order) :
    book.EntriesSound side lvl' := by
  intro x hx
  obtain ⟨y, hy, hyx⟩ := hsub x hx
  rw [← hyx]
  exact h y hy

theorem LevelSound.addOrder {book : OrderBook P} {side : OrderSide} {lvl : PriceLevel P}
    (hwf : lvl.WF book.orderPool.get) (he : book.EntriesSound side lvl) {p : OrderPtr}
    (hp : book.Accepted p.slot) (hside : (book.order p).side = side) :
    book.LevelSound side (lvl.addOrder book.orderPool.get p) where
  not_empty := PriceLevel.addOrder_not_empty _ _ _
  wf := hwf.addOrder p
  entries e h := by
    simp only [PriceLevel.addOrder, List.mem_append, List.mem_singleton] at h
    rcases h with h | rfl
    · exact he e h
    · exact ⟨hp, hside⟩

/-- The level of a side and price, a fresh one if there is none. -/
def levelOrNew (book : OrderBook P) (side : OrderSide) (price : P) : PriceLevel P :=
  ((book.levels side).find? price).getD (.new price)

theorem Sound.levelOrNew {book : OrderBook P} (h : book.Sound) (side : OrderSide) (price : P) :
    (book.levelOrNew side price).WF book.orderPool.get ∧
      book.EntriesSound side (book.levelOrNew side price) := by
  unfold OrderBook.levelOrNew
  cases hf : (book.levels side).find? price with
  | none => exact ⟨.new _ _, fun e he => by simp [PriceLevel.new] at he⟩
  | some lvl => exact ⟨(h.level _ _ _ hf).wf, (h.level _ _ _ hf).entries⟩

theorem setOrder_slot (book : OrderBook P) (p : OrderPtr) (o : Order P) (i : ℕ) :
    (book.setOrder p o).slot i = if i = p.slot then o else book.slot i :=
  OrderPool.set_cells _ _ _ _

/-- Writing an order back with its id and side, and the levels of one side. -/
theorem Sound.amend {book : OrderBook P} (h : book.Sound) {p : OrderPtr} {o : Order P}
    (hid : o.id = (book.order p).id) (hside : o.side = (book.order p).side)
    (hp : book.Accepted p.slot) (hfill : o.quantityFilled ≤ o.quantity) {side : OrderSide}
    {lvs : SideLevels P side}
    (hlvs : ∀ k lvl, lvs.find? k = some lvl → book.LevelSound side lvl) :
    ((book.setOrder p o).setLevels side lvs).Sound := by
  -- Ids and sides are the same in every slot.
  have hacc : ∀ i, book.Accepted i → ((book.setOrder p o).setLevels side lvs).Accepted i ∧
      (((book.setOrder p o).setLevels side lvs).slot i).id = (book.slot i).id ∧
      (((book.setOrder p o).setLevels side lvs).slot i).side = (book.slot i).side := by
    intro i hi
    have hslot : ((book.setOrder p o).setLevels side lvs).slot i =
        if i = p.slot then o else book.slot i := setOrder_slot _ _ _ _
    refine ⟨hi, ?_, ?_⟩ <;> rw [hslot] <;> split
    · next heq => rw [hid, heq]; rfl
    · rfl
    · next heq => rw [hside, heq]; rfl
    · rfl
  constructor
  case pool =>
    refine ⟨?_, h.pool.next_le, h.pool.size_pos⟩
    intro i hi hlt
    have hne : i ≠ p.slot := by
      unfold Accepted at hp
      have hi : book.orderPool.nextFreeIndex ≤ i := hi
      omega
    show ((book.setOrder p o).slot i).quantityFilled = 0 ∧
      ((book.setOrder p o).slot i).status = .new
    rw [setOrder_slot, if_neg hne]
    exact h.pool.unused i hi hlt
  case filled_le =>
    intro i hi
    show ((book.setOrder p o).slot i).quantityFilled ≤ ((book.setOrder p o).slot i).quantity
    rw [setOrder_slot]
    split
    · exact hfill
    · exact h.filled_le i hi
  case registered =>
    intro id q hq
    obtain ⟨hslot, hqid⟩ := h.registered id q hq
    exact ⟨hslot, (hacc _ hslot).2.1.trans hqid⟩
  case level =>
    intro side' k lvl hlvl
    rw [find?_setLevels] at hlvl
    split at hlvl
    · next heq =>
      subst heq
      exact (hlvs k lvl hlvl).congr hacc
    · exact (h.level side' k lvl hlvl).congr hacc

theorem Sound.setFlag {book : OrderBook P} (h : book.Sound) (flag : Bool) :
    Sound { book with tryMatchFlag := flag } where
  pool := h.pool
  filled_le := h.filled_le
  registered := h.registered
  level side price lvl hlvl :=
    ⟨(h.level side price lvl hlvl).not_empty, (h.level side price lvl hlvl).wf,
      (h.level side price lvl hlvl).entries⟩

/-! ### `add_order` before the match -/

/-- What `enqueueOrder` did: the client order is in the slot `p`, which was
    unused, it is the last of the queue of its price, and it is registered. -/
structure Enqueued (book : OrderBook P) (client : Order P) (id : OrderId) (p : OrderPtr)
    (book' : OrderBook P) : Prop where
  slot_eq : p.slot = book.orderPool.nextFreeIndex
  next_eq : book'.orderPool.nextFreeIndex = book.orderPool.nextFreeIndex + 1
  pool : book'.orderPool.Sound
  kept : ∀ i, book.Accepted i → book'.slot i = book.slot i
  side : (book'.order p).side = client.side
  price : (book'.order p).price = client.price
  quantity : (book'.order p).quantity = client.quantity
  id_eq : (book'.order p).id = id
  unfilled : (book'.order p).quantityFilled = 0
  status : (book'.order p).status = .new
  levels_self : book'.levels client.side = (book.levels client.side).insert client.price
    ((book.levelOrNew client.side client.price).addOrder book'.orderPool.get p)
  levels_other : ∀ side, side ≠ client.side → book'.levels side = book.levels side
  registry : book'.orderRegistry = book.orderRegistry.insert id p
  flag : book'.tryMatchFlag = ((book.levels client.side).find? client.price).isNone
  trades : book'.tradesCompleted = book.tradesCompleted
  live : book'.orderPool.orders.Live p
  stays : book.orderPool.nextFreeIndex < book.orderPool.orders.size →
    book.orderPool.orders.Stays book'.orderPool.orders
  moves : book.orderPool.orders.size ≤ book.orderPool.nextFreeIndex →
    book.orderPool.orders.capacity = book.orderPool.orders.size →
    book'.orderPool.orders.buffer = book.orderPool.orders.buffer + 1

theorem getOrderId_book (book : OrderBook P) (alloc : IdAllocator) :
    (book.getOrderId alloc).2.1 =
      { book with
        orderIdBlock := (book.getOrderId alloc).2.1.orderIdBlock
        nextAvailableOrderId := (book.getOrderId alloc).2.1.nextAvailableOrderId } := by
  unfold getOrderId
  split <;> rfl

theorem addOrderDispatcher_eq (book : OrderBook P) (side : OrderSide) (p : OrderPtr) :
    book.addOrderDispatcher side p =
      { book.setLevels side ((book.levels side).insert (book.order p).price
          ((((book.levels side).find? (book.order p).price).getD
            (.new (book.order p).price)).addOrder book.orderPool.get p)) with
        tryMatchFlag := ((book.levels side).find? (book.order p).price).isNone
        orderRegistry := book.orderRegistry.insert (book.order p).id p } := by
  unfold addOrderDispatcher
  cases h : (book.levels side).find? (book.order p).price with
  | none => simp [SortedMap.tryEmplace_of_none h, SortedMap.insert_insert]
  | some lvl => simp [SortedMap.tryEmplace_of_find? h]

variable [Zero P]

/-- The pool once the client order has been copied into its slot. -/
def queuedPool (book : OrderBook P) (client : Order P) (orderId : OrderId) (clock : Clock) :
    OrderPool P :=
  let (p, pool, _) := book.orderPool.allocate clock
  pool.set p ((pool.get p).copyFromClient client orderId)

theorem queuedPool_get (book : OrderBook P) (client : Order P) (orderId : OrderId)
    (clock : Clock) :
    (book.queuedPool client orderId clock).get (book.orderPool.allocate clock).1 =
      ((book.orderPool.allocate clock).2.1.get
        (book.orderPool.allocate clock).1).copyFromClient client orderId :=
  OrderPool.get_set_self _ _ _

theorem queuedPool_cells_ne (book : OrderBook P) (client : Order P) (orderId : OrderId)
    (clock : Clock) {i : ℕ} (hi : i ≠ (book.orderPool.allocate clock).1.slot) :
    (book.queuedPool client orderId clock).orders.cells i =
      (book.orderPool.allocate clock).2.1.orders.cells i := by
  simp only [queuedPool, OrderPool.set_cells, if_neg hi]

/-- The book before the match, in one piece. -/
theorem enqueueOrder_eq (book : OrderBook P) (alloc : IdAllocator) (client : Order P)
    (clock : Clock) : ∃ orderId block next alloc',
      book.enqueueOrder alloc client clock =
        (orderId,
          { instrument := book.instrument
            levels := Function.update book.levels client.side
              ((book.levels client.side).insert client.price
                ((book.levelOrNew client.side client.price).addOrder
                  (book.queuedPool client orderId clock).get (book.orderPool.allocate clock).1))
            orderRegistry := book.orderRegistry.insert orderId (book.orderPool.allocate clock).1
            orderPool := book.queuedPool client orderId clock
            orderIdBlock := block
            nextAvailableOrderId := next
            tradesCompleted := book.tradesCompleted
            tryMatchFlag := ((book.levels client.side).find? client.price).isNone },
          alloc', (book.orderPool.allocate clock).2.2) := by
  have hdrawn :=
    getOrderId_book { book with orderPool := (book.orderPool.allocate clock).2.1 } alloc
  simp only [enqueueOrder]
  generalize ({ book with orderPool := (book.orderPool.allocate clock).2.1 } :
    OrderBook P).getOrderId alloc = g at hdrawn ⊢
  obtain ⟨orderId, drawn, alloc'⟩ := g
  have hdrawn : drawn = { book with
      orderPool := (book.orderPool.allocate clock).2.1
      orderIdBlock := drawn.orderIdBlock
      nextAvailableOrderId := drawn.nextAvailableOrderId } := hdrawn
  refine ⟨orderId, drawn.orderIdBlock, drawn.nextAvailableOrderId, alloc', ?_⟩
  -- The order is in its slot now: its side, price and id are known.
  have hself : (drawn.setOrder (book.orderPool.allocate clock).1
      ((drawn.order (book.orderPool.allocate clock).1).copyFromClient client orderId)).order
        (book.orderPool.allocate clock).1 =
      (drawn.order (book.orderPool.allocate clock).1).copyFromClient client orderId :=
    OrderPool.get_set_self _ _ _
  simp only [addOrderDispatcher_eq, hself]
  rw [hdrawn]
  rfl

/-- `allocate`, with the client order copied into the slot. -/
theorem queuedPool_sound {book : OrderBook P} (h : book.orderPool.Sound) (client : Order P)
    (orderId : OrderId) (clock : Clock) : (book.queuedPool client orderId clock).Sound := by
  obtain ⟨hslot, hnext, hsound, -⟩ := OrderPool.allocate_spec h clock
  refine ⟨?_, hsound.next_le, hsound.size_pos⟩
  intro i hi hlt
  have hi : (book.orderPool.allocate clock).2.1.nextFreeIndex ≤ i := hi
  rw [queuedPool_cells_ne book client orderId clock (by omega)]
  exact hsound.unused i hi hlt

theorem enqueueOrder_spec {book : OrderBook P} (h : book.orderPool.Sound) (alloc : IdAllocator)
    (client : Order P) (clock : Clock) :
    ∃ p, Enqueued book client (book.enqueueOrder alloc client clock).1 p
      (book.enqueueOrder alloc client clock).2.1 := by
  obtain ⟨hslot, hnext, -, hkept, hfilled, hstatus⟩ := OrderPool.allocate_spec h clock
  obtain ⟨orderId, block, next, alloc', heq⟩ := enqueueOrder_eq book alloc client clock
  have hget := queuedPool_get book client orderId clock
  rw [← hslot] at hfilled hstatus
  rw [heq]
  refine ⟨(book.orderPool.allocate clock).1, ?_⟩
  constructor
  · exact hslot
  · exact hnext
  · exact queuedPool_sound h client orderId clock
  · intro i hi
    have hne : i ≠ (book.orderPool.allocate clock).1.slot := by
      rw [hslot]
      exact Nat.ne_of_lt hi
    exact (queuedPool_cells_ne book client orderId clock hne).trans (hkept i hi)
  -- `copy_from_client` takes these four from the client, and keeps the next two.
  · exact (congrArg Order.side hget).trans rfl
  · exact (congrArg Order.price hget).trans rfl
  · exact (congrArg Order.quantity hget).trans rfl
  · exact (congrArg Order.id hget).trans rfl
  · exact (congrArg Order.quantityFilled hget).trans hfilled
  · exact (congrArg Order.status hget).trans hstatus
  · exact Function.update_self _ _ _
  · intro side hside
    exact Function.update_of_ne hside _ _
  · rfl
  · rfl
  · rfl
  · exact OrderPool.allocate_live h clock
  · intro hroom
    exact (OrderPool.allocate_stays hroom clock).trans (Buffer.stays_write _ _ _)
  · intro hfull hcap
    exact OrderPool.allocate_moves hfull h.size_pos hcap clock

omit [Zero P] in
theorem Enqueued.accepted {book book' : OrderBook P} {client : Order P} {id : OrderId}
    {p : OrderPtr} (h : Enqueued book client id p book') (i : ℕ) :
    book'.Accepted i ↔ book.Accepted i ∨ i = p.slot := by
  unfold Accepted
  rw [h.next_eq, h.slot_eq]
  omega

omit [Zero P] in
/-- The levels after an order was queued. -/
theorem Enqueued.find? {book book' : OrderBook P} {client : Order P} {id : OrderId}
    {p : OrderPtr} (h : Enqueued book client id p book') (side : OrderSide) (k : P) :
    (book'.levels side).find? k =
      if side = client.side ∧ k = client.price then
        some ((book.levelOrNew side k).addOrder book'.orderPool.get p)
      else (book.levels side).find? k := by
  by_cases hs : side = client.side
  · subst hs
    rw [h.levels_self, SortedMap.find?_insert]
    by_cases hk : k = client.price
    · subst hk
      simp
    · simp [hk]
  · rw [h.levels_other side hs, if_neg (fun hc => hs hc.1)]

omit [Zero P] in
theorem Enqueued.sound {book book' : OrderBook P} {client : Order P} {id : OrderId}
    {p : OrderPtr} (h : Enqueued book client id p book') (hs : book.Sound) : book'.Sound := by
  have hacc : ∀ i, book.Accepted i → book'.Accepted i ∧ (book'.slot i).id = (book.slot i).id ∧
      (book'.slot i).side = (book.slot i).side := fun i hi =>
    ⟨(h.accepted i).mpr (Or.inl hi), by rw [h.kept i hi], by rw [h.kept i hi]⟩
  constructor
  case pool => exact h.pool
  case filled_le =>
    intro i hi
    rcases (h.accepted i).mp hi with hi | rfl
    · rw [h.kept i hi]
      exact hs.filled_le i hi
    · show (book'.order p).quantityFilled ≤ (book'.order p).quantity
      rw [h.unfilled]
      exact UInt64.zero_le
  case registered =>
    intro id' q hq
    rw [h.registry, SortedMap.find?_insert] at hq
    split at hq
    · next hid =>
      simp only [Option.some.injEq] at hq
      subst hq
      exact ⟨(h.accepted _).mpr (Or.inr rfl), h.id_eq.trans hid.symm⟩
    · obtain ⟨hslot, hid⟩ := hs.registered id' q hq
      exact ⟨(hacc _ hslot).1, (hacc _ hslot).2.1.trans hid⟩
  case level =>
    intro side k lvl hlvl
    rw [h.find?] at hlvl
    split at hlvl
    · next hat =>
      obtain ⟨rfl, rfl⟩ := hat
      simp only [Option.some.injEq] at hlvl
      subst hlvl
      obtain ⟨hwf, hentries⟩ := hs.levelOrNew client.side client.price
      -- The older entries of the level that the order joins.
      have hids : ∀ e ∈ (book.levelOrNew client.side client.price).orderEntries,
          book'.Accepted e.order.slot ∧ (book'.order e.order).id = (book.order e.order).id ∧
            (book'.order e.order).side = client.side := by
        intro e he
        obtain ⟨h₁, h₂, h₃⟩ := hacc _ (hentries e he).1
        exact ⟨h₁, h₂, h₃.trans (hentries e he).2⟩
      exact .addOrder (hwf.congr fun e he => (hids e he).2.1)
        (fun e he => ⟨(hids e he).1, (hids e he).2.2⟩) ((h.accepted _).mpr (Or.inr rfl)) h.side
    · exact (hs.level side k lvl hlvl).congr hacc

end OrderBook
end Orderbook
