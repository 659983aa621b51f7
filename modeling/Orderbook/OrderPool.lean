import Orderbook.Order

/-! # The order pool

    `order_pool.h`: a vector of preallocated orders and the index of the
    next one to hand out.  An `Order*` is a pointer into that vector. -/

namespace Orderbook

structure OrderPool (P : Type) where
  nextFreeIndex : ℕ
  orders        : Buffer (Order P)

namespace OrderPool
variable {P : Type}

/-- `*p`, the pointer taken as the identity of its slot. -/
def get (pool : OrderPool P) (p : OrderPtr) : Order P := pool.orders.cells p.slot

/-- `*p = o`. -/
def set (pool : OrderPool P) (p : OrderPtr) (o : Order P) : OrderPool P :=
  { pool with orders := pool.orders.write p.slot o }

@[simp] theorem set_nextFreeIndex (pool : OrderPool P) (p : OrderPtr) (o : Order P) :
    (pool.set p o).nextFreeIndex = pool.nextFreeIndex := rfl

@[simp] theorem set_size (pool : OrderPool P) (p : OrderPtr) (o : Order P) :
    (pool.set p o).orders.size = pool.orders.size := rfl

@[simp] theorem set_cells (pool : OrderPool P) (p : OrderPtr) (o : Order P) (i : ℕ) :
    (pool.set p o).orders.cells i = if i = p.slot then o else pool.orders.cells i :=
  Buffer.write_cells _ _ _ _

theorem get_set (pool : OrderPool P) (p q : OrderPtr) (o : Order P) :
    (pool.set p o).get q = if q.slot = p.slot then o else pool.get q :=
  set_cells pool p o q.slot

@[simp] theorem get_set_self (pool : OrderPool P) (p : OrderPtr) (o : Order P) :
    (pool.set p o).get p = o := by
  simp [get_set]

theorem get_set_ne (pool : OrderPool P) {p q : OrderPtr} (h : q.slot ≠ p.slot) (o : Order P) :
    (pool.set p o).get q = pool.get q := by
  simp [get_set, h]

variable [Zero P]

/-- The constructor: reserve, then build `reserveSize` blank orders. -/
def new (reserveSize : ℕ) (clock : Clock) : OrderPool P where
  nextFreeIndex := 0
  orders :=
    (Buffer.empty.reserve reserveSize).emplaceMany (fun i => Order.blank (clock i)) reserveSize

/-- `reserve_more`: double the storage and fill it with blank orders. -/
def reserveMore (pool : OrderPool P) (clock : Clock) : OrderPool P :=
  { pool with
    orders := (pool.orders.reserve (pool.orders.size * 2)).emplaceMany
      (fun i => Order.blank (clock i)) pool.orders.size }

/-- `allocate`: the pointer, the pool afterwards and the clock readings left. -/
def allocate (pool : OrderPool P) (clock : Clock) : OrderPtr × OrderPool P × Clock :=
  if pool.orders.size ≤ pool.nextFreeIndex then
    let grown := pool.reserveMore clock
    (grown.orders.ptr grown.nextFreeIndex,
      { grown with nextFreeIndex := grown.nextFreeIndex + 1 },
      clock.skip pool.orders.size)
  else
    (pool.orders.ptr pool.nextFreeIndex,
      { pool with nextFreeIndex := pool.nextFreeIndex + 1 },
      clock)

/-! ### The blank orders -/

/-- The fresh pool in closed form. -/
theorem new_eq (reserveSize : ℕ) (clock : Clock) :
    (new reserveSize clock : OrderPool P) =
      { nextFreeIndex := 0
        orders :=
          { buffer   := if reserveSize = 0 then 0 else 1
            capacity := reserveSize
            size     := reserveSize
            cells    := fun i =>
              if i < reserveSize then Order.blank (clock i) else Order.blank 0
            size_le  := Nat.le_refl _ } } := by
  have hroom : (Buffer.empty.reserve reserveSize : Buffer (Order P)).size + reserveSize ≤
      (Buffer.empty.reserve reserveSize : Buffer (Order P)).capacity :=
    Buffer.reserve_room _ (by simp)
  obtain ⟨hbuf, hcap, hsize, hcells⟩ :=
    Buffer.emplaceMany_spec _ (fun i => Order.blank (P := P) (clock i)) hroom
  have hreserve : (Buffer.empty.reserve reserveSize : Buffer (Order P)).buffer =
      (if reserveSize = 0 then 0 else 1) ∧
      (Buffer.empty.reserve reserveSize : Buffer (Order P)).capacity = reserveSize := by
    unfold Buffer.reserve
    by_cases h : reserveSize = 0 <;> simp [h, Buffer.empty]
  rw [hreserve.1] at hbuf
  rw [hreserve.2] at hcap
  simp only [Buffer.reserve_size, Buffer.empty_size, Nat.zero_add, Nat.zero_le, true_and,
    Nat.sub_zero, Buffer.reserve_cells] at hsize hcells
  simp only [new, mk.injEq, true_and]
  generalize (Buffer.empty.reserve reserveSize).emplaceMany
    (fun i => Order.blank (P := P) (clock i)) reserveSize = b at hbuf hcap hsize hcells ⊢
  obtain ⟨buffer, capacity, size, cells, hle⟩ := b
  simp only [Buffer.mk.injEq]
  exact ⟨hbuf, hcap, hsize, funext hcells⟩

/-- The slots of a fresh pool are blank orders. -/
theorem new_spec (reserveSize : ℕ) (clock : Clock) :
    (new reserveSize clock : OrderPool P).nextFreeIndex = 0 ∧
      (new reserveSize clock : OrderPool P).orders.size = reserveSize ∧
      (new reserveSize clock : OrderPool P).orders.capacity = reserveSize ∧
      ∀ i, i < reserveSize →
        (new reserveSize clock : OrderPool P).orders.cells i = Order.blank (clock i) := by
  rw [new_eq]
  exact ⟨rfl, rfl, rfl, fun i hi => if_pos hi⟩

/-- What `reserve_more` does to the storage. -/
theorem reserveMore_spec (pool : OrderPool P) (clock : Clock) :
    (pool.reserveMore clock).nextFreeIndex = pool.nextFreeIndex ∧
      (pool.reserveMore clock).orders.size = 2 * pool.orders.size ∧
      (∀ i, (pool.reserveMore clock).orders.cells i =
        if pool.orders.size ≤ i ∧ i < 2 * pool.orders.size
          then Order.blank (clock (i - pool.orders.size)) else pool.orders.cells i) := by
  have hroom : (pool.orders.reserve (pool.orders.size * 2)).size + pool.orders.size ≤
      (pool.orders.reserve (pool.orders.size * 2)).capacity :=
    Buffer.reserve_room _ (by omega)
  obtain ⟨-, -, hsize, hcells⟩ :=
    Buffer.emplaceMany_spec _ (fun i => Order.blank (P := P) (clock i)) hroom
  refine ⟨rfl, ?_, ?_⟩
  · simp only [reserveMore, hsize, Buffer.reserve_size]
    omega
  · intro i
    simp only [reserveMore, hcells, Buffer.reserve_size, Buffer.reserve_cells]
    congr 1
    simp only [eq_iff_iff, and_congr_right_iff]
    omega

/-- The unused part of the pool is blank, and the pool never runs dry. -/
structure Sound (pool : OrderPool P) : Prop where
  unused : ∀ i, pool.nextFreeIndex ≤ i → i < pool.orders.size →
    (pool.orders.cells i).quantityFilled = 0 ∧ (pool.orders.cells i).status = .new
  next_le : pool.nextFreeIndex ≤ pool.orders.size
  size_pos : 0 < pool.orders.size

theorem new_sound {reserveSize : ℕ} (h : 0 < reserveSize) (clock : Clock) :
    (new reserveSize clock : OrderPool P).Sound := by
  obtain ⟨hnext, hsize, -, hcells⟩ := new_spec (P := P) reserveSize clock
  refine ⟨?_, by omega, by omega⟩
  intro i _ hi
  rw [hcells i (by omega)]
  exact ⟨rfl, rfl⟩

/-- `allocate` hands out the first unused slot, blank, and keeps the orders
    that were handed out before. -/
theorem allocate_spec {pool : OrderPool P} (h : pool.Sound) (clock : Clock) :
    (pool.allocate clock).1.slot = pool.nextFreeIndex ∧
      (pool.allocate clock).2.1.nextFreeIndex = pool.nextFreeIndex + 1 ∧
      (pool.allocate clock).2.1.Sound ∧
      (∀ i, i < pool.nextFreeIndex →
        (pool.allocate clock).2.1.orders.cells i = pool.orders.cells i) ∧
      ((pool.allocate clock).2.1.orders.cells pool.nextFreeIndex).quantityFilled = 0 ∧
      ((pool.allocate clock).2.1.orders.cells pool.nextFreeIndex).status = .new := by
  have hle := h.next_le
  have hpos := h.size_pos
  unfold allocate
  split
  · next hfull =>
    -- The pool is full: blank orders are built behind the old ones first.
    obtain ⟨hnext, hsize, hcells⟩ := reserveMore_spec pool clock
    have hblank : ∀ i, pool.nextFreeIndex ≤ i → i < 2 * pool.orders.size →
        ((pool.reserveMore clock).orders.cells i).quantityFilled = 0 ∧
          ((pool.reserveMore clock).orders.cells i).status = .new := by
      intro i hi hlt
      rw [hcells, if_pos (by omega)]
      exact ⟨rfl, rfl⟩
    refine ⟨hnext, by simp [hnext], ⟨?_, ?_, ?_⟩, ?_, ?_⟩
    · intro i hi hlt
      exact hblank i (by simp only [hnext] at hi; omega) (by simp only [hsize] at hlt; exact hlt)
    · simp only [hnext, hsize]
      omega
    · simp only [hsize]
      omega
    · intro i hi
      simp only [hcells]
      rw [if_neg (by omega)]
    · exact hblank _ (Nat.le_refl _) (by omega)
  · next hroom =>
    refine ⟨rfl, rfl, ⟨?_, ?_, hpos⟩, fun i _ => rfl, ?_⟩
    · intro i hi hlt
      have hi : pool.nextFreeIndex + 1 ≤ i := hi
      exact h.unused i (by omega) hlt
    · show pool.nextFreeIndex + 1 ≤ pool.orders.size
      omega
    · exact h.unused _ (Nat.le_refl _) (by omega)

/-! ### Where the orders are kept -/

/-- The pointer handed out denotes an element of the storage after the call. -/
theorem allocate_live {pool : OrderPool P} (h : pool.Sound) (clock : Clock) :
    (pool.allocate clock).2.1.orders.Live (pool.allocate clock).1 := by
  have hle := h.next_le
  have hpos := h.size_pos
  unfold allocate
  split
  · obtain ⟨hnext, hsize, -⟩ := reserveMore_spec pool clock
    refine ⟨rfl, ?_⟩
    simp only [Buffer.ptr, hnext, hsize]
    omega
  · exact ⟨rfl, by simp only [Buffer.ptr]; omega⟩

/-- While there is a slot left, nothing moves. -/
theorem allocate_stays {pool : OrderPool P} (h : pool.nextFreeIndex < pool.orders.size)
    (clock : Clock) : pool.orders.Stays (pool.allocate clock).2.1.orders := by
  unfold allocate
  rw [if_neg (by omega)]
  exact .refl _

/-- The call that finds no slot left moves all orders to a new buffer. -/
theorem allocate_moves {pool : OrderPool P} (h : pool.orders.size ≤ pool.nextFreeIndex)
    (hpos : 0 < pool.orders.size) (hcap : pool.orders.capacity = pool.orders.size)
    (clock : Clock) : (pool.allocate clock).2.1.orders.buffer = pool.orders.buffer + 1 := by
  -- Twice the size is more than the capacity, so the storage is replaced.
  have hgrow : ¬ pool.orders.size * 2 ≤ pool.orders.capacity := by omega
  have hbuf : (pool.orders.reserve (pool.orders.size * 2)).buffer = pool.orders.buffer + 1 := by
    simp [Buffer.reserve, hgrow]
  have hroom : (pool.orders.reserve (pool.orders.size * 2)).size + pool.orders.size ≤
      (pool.orders.reserve (pool.orders.size * 2)).capacity :=
    Buffer.reserve_room _ (by omega)
  unfold allocate
  rw [if_pos h]
  exact (Buffer.emplaceMany_spec _ _ hroom).1.trans hbuf

/-- `n` calls of `allocate`: the pointers returned, the oldest first, the pool
    afterwards and the clock readings left. -/
def allocateMany (pool : OrderPool P) (clock : Clock) : ℕ → List OrderPtr × OrderPool P × Clock
  | 0 => ([], pool, clock)
  | n + 1 =>
    let (ps, pool, clock) := pool.allocateMany clock n
    let (p, pool, clock) := pool.allocate clock
    (ps ++ [p], pool, clock)

end OrderPool
end Orderbook
