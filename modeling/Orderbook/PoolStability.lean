import Orderbook.Runs

/-! # When the pointers into the pool stay valid

    The pool hands out pointers into its vector and grows the vector when it
    runs out.  Growing moves the orders to a new buffer, and every pointer
    handed out before is left dangling.  A pool of `reserveSize` slots
    therefore serves exactly `reserveSize` calls, and a book exactly
    `SPACE_RESERVE` orders. -/

namespace Orderbook
open OrderBook

/-! ### The pool by itself -/

namespace OrderPool
variable {P : Type} [Zero P]

/-- The pointers `ps` denote slots of the present storage, no two the same. -/
structure Intact (pool : OrderPool P) (ps : List OrderPtr) : Prop where
  live : ∀ p ∈ ps, pool.orders.Live p
  distinct : (ps.map BufferPtr.slot).Nodup

/-- Up to the size of the pool the calls hand out the slots in turn and
    nothing moves. -/
theorem allocateMany_within {pool : OrderPool P} (hnext : pool.nextFreeIndex = 0) (clock : Clock)
    {n : ℕ} (hn : n ≤ pool.orders.size) :
    (pool.allocateMany clock n).1 = (List.range n).map pool.orders.ptr ∧
      (pool.allocateMany clock n).2.1.nextFreeIndex = n ∧
      pool.orders.Stays (pool.allocateMany clock n).2.1.orders := by
  induction n with
  | zero => exact ⟨rfl, hnext, .refl _⟩
  | succ n ih =>
    obtain ⟨hps, hfree, hstays⟩ := ih (by omega)
    have hroom : (pool.allocateMany clock n).2.1.nextFreeIndex <
        (pool.allocateMany clock n).2.1.orders.size := by
      rw [hfree, hstays.size]
      omega
    simp only [allocateMany, hps, List.range_succ, List.map_append, List.map_singleton]
    generalize pool.allocateMany clock n = r at hfree hstays hroom
    have hlast : r.2.1.allocate r.2.2 =
        (r.2.1.orders.ptr n, { r.2.1 with nextFreeIndex := n + 1 }, r.2.2) := by
      rw [allocate, if_neg (Nat.not_le.mpr hroom), hfree]
    refine ⟨?_, by rw [hlast], hstays.trans (allocate_stays hroom r.2.2)⟩
    rw [hlast, Buffer.ptr, hstays.buffer]
    rfl

omit [Zero P] in
theorem ptr_live_of_stays {b b' : Buffer (Order P)} (h : b.Stays b') {i : ℕ} (hi : i < b.size) :
    b'.Live (b.ptr i) :=
  (h.live_iff _).mpr ⟨rfl, hi⟩

/-- The pointers of `n` calls on a fresh pool stay intact exactly when the
    pool was built with at least `n` slots. -/
theorem intact_iff (reserveSize : ℕ) (clock clock' : Clock) (n : ℕ) :
    (∀ m ≤ n, Intact ((new reserveSize clock : OrderPool P).allocateMany clock' m).2.1
      ((new reserveSize clock : OrderPool P).allocateMany clock' m).1) ↔ n ≤ reserveSize := by
  obtain ⟨hnext, hsize, hcap, -⟩ := new_spec (P := P) reserveSize clock
  generalize hpool : (new reserveSize clock : OrderPool P) = pool at hnext hsize hcap
  constructor
  · intro h
    by_contra hlt
    obtain ⟨hps, hfree, hstays⟩ := allocateMany_within hnext clock' (Nat.le_of_eq hsize.symm)
    have hintact := h (reserveSize + 1) (by omega)
    simp only [allocateMany, hps] at hintact
    generalize pool.allocateMany clock' reserveSize = r at hfree hstays hintact
    have hfull : r.2.1.orders.size ≤ r.2.1.nextFreeIndex := by rw [hstays.size, hfree, hsize]
    rcases Nat.eq_zero_or_pos reserveSize with hzero | hpos
    · -- A pool without slots doubles to a pool without slots.
      have hlive := hintact.live (r.2.1.allocate r.2.2).1 (by simp)
      have hlast := hlive.2
      simp only [allocate, if_pos hfull] at hlast
      rw [(reserveMore_spec r.2.1 r.2.2).2.1, hstays.size, hsize] at hlast
      omega
    · -- The first pointer refers to the buffer before the growth.
      have hlive := hintact.live (pool.orders.ptr 0) (by simp; left; exact ⟨0, hpos, rfl⟩)
      have hmoved := allocate_moves hfull (by rw [hstays.size]; omega)
        (by rw [hstays.capacity, hstays.size, hcap, hsize]) r.2.2
      have hbuffer := hlive.1
      rw [hmoved, hstays.buffer] at hbuffer
      simp [Buffer.ptr] at hbuffer
  · intro hn m hm
    obtain ⟨hps, -, hstays⟩ := allocateMany_within hnext clock' (n := m) (by omega)
    rw [hps]
    refine ⟨?_, ?_⟩
    · intro p hp
      obtain ⟨i, hi, rfl⟩ := List.mem_map.mp hp
      have := List.mem_range.mp hi
      exact ptr_live_of_stays hstays (by omega)
    · rw [List.map_map]
      simpa [Function.comp_def, Buffer.ptr] using List.nodup_range

end OrderPool

/-! ### The pointers that a book keeps -/

namespace OrderBook
variable {P : Type} [LinearOrder P]

/-- Every pointer in the registry and in the levels denotes a slot of the
    present storage. -/
structure PointersLive (book : OrderBook P) : Prop where
  registry : ∀ id p, book.orderRegistry.find? id = some p → book.orderPool.orders.Live p
  entries : ∀ side k lvl, (book.levels side).find? k = some lvl →
    ∀ e ∈ lvl.orderEntries, book.orderPool.orders.Live e.order

/-- The pointers of a level are live. -/
abbrev EntriesLive (book : OrderBook P) (lvl : PriceLevel P) : Prop :=
  ∀ e ∈ lvl.orderEntries, book.orderPool.orders.Live e.order

theorem EntriesLive.mono {book : OrderBook P} {lvl lvl' : PriceLevel P} (h : book.EntriesLive lvl)
    (hsub : ∀ x ∈ lvl'.orderEntries, ∃ y ∈ lvl.orderEntries, y.order = x.order) :
    book.EntriesLive lvl' := by
  intro x hx
  obtain ⟨y, hy, hyx⟩ := hsub x hx
  rw [← hyx]
  exact h y hy

theorem EntriesLive.addOrder {book : OrderBook P} {lvl : PriceLevel P} (h : book.EntriesLive lvl)
    {heap : OrderPtr → Order P} {p : OrderPtr} (hp : book.orderPool.orders.Live p) :
    book.EntriesLive (lvl.addOrder heap p) := by
  intro e he
  simp only [PriceLevel.addOrder, List.mem_append, List.mem_singleton] at he
  rcases he with he | rfl
  · exact h e he
  · exact hp

theorem PointersLive.levelOrNew {book : OrderBook P} (h : book.PointersLive) (side : OrderSide)
    (price : P) : book.EntriesLive (book.levelOrNew side price) := by
  unfold OrderBook.levelOrNew
  cases hf : (book.levels side).find? price with
  | none => simp [PriceLevel.new, EntriesLive]
  | some lvl => exact h.entries side price lvl hf

/-- Writing the levels of one side and one order leaves the storage where it
    is. -/
theorem PointersLive.amend {book : OrderBook P} (h : book.PointersLive) {p : OrderPtr}
    {o : Order P} {side : OrderSide} {m : SideLevels P side}
    (hlvs : ∀ k lvl, m.find? k = some lvl → book.EntriesLive lvl) :
    ((book.setOrder p o).setLevels side m).PointersLive where
  registry := h.registry
  entries side' k lvl hlvl := by
    rw [find?_setLevels] at hlvl
    split at hlvl
    · next heq =>
      subst heq
      exact hlvs k lvl hlvl
    · exact h.entries side' k lvl hlvl

theorem PointersLive.putLevel {book : OrderBook P} (h : book.PointersLive) {side : OrderSide}
    {key : P} {lvl lvl' : PriceLevel P} {id : OrderId}
    (hlvl : (book.levels side).find? key = some lvl)
    (hrem : PriceLevel.Removed book.orderPool.get lvl id lvl') (k : P) (l : PriceLevel P)
    (hl : (OrderBook.putLevel (book.levels side) key lvl').find? k = some l) :
    book.EntriesLive l := by
  rw [find?_putLevel] at hl
  split at hl
  · split at hl
    · cases hl
    · cases hl
      exact EntriesLive.mono (h.entries side key lvl hlvl) hrem.entries
  · exact h.entries side k l hl

theorem Iteration.stays {book book' : OrderBook P} (x : Iteration book book') :
    book.orderPool.orders.Stays book'.orderPool.orders := by
  rw [x.orderPool_eq]
  exact (Buffer.stays_write _ _ _).trans (Buffer.stays_write _ _ _)

theorem Iteration.pointersLive {book book' : OrderBook P} (x : Iteration book book')
    (h : book.PointersLive) : book'.PointersLive where
  registry id p hp := by
    rw [x.registry_eq] at hp
    exact (x.stays.live_iff p).mpr (h.registry id p hp)
  entries side k lvl hlvl e he := by
    refine (x.stays.live_iff _).mpr ?_
    rw [x.find?] at hlvl
    split at hlvl
    · split at hlvl
      · cases hlvl
      · cases hlvl
        exact EntriesLive.mono (h.entries side _ _ (x.find side))
          ((x.popped side).entries (x.head side)) e he
    · exact h.entries side k lvl hlvl e he

theorem Enqueued.pointersLive {book queued : OrderBook P} {client : Order P} {id : OrderId}
    {p : OrderPtr} (hq : Enqueued book client id p queued)
    (hroom : book.orderPool.nextFreeIndex < book.orderPool.orders.size) (h : book.PointersLive) :
    queued.PointersLive where
  registry id' q hid := by
    rw [hq.registry, SortedMap.find?_insert] at hid
    split at hid
    · cases hid
      exact hq.live
    · exact ((hq.stays hroom).live_iff q).mpr (h.registry id' q hid)
  entries side k lvl hlvl := by
    have hold : ∀ l, book.EntriesLive l → queued.EntriesLive l := fun l hl e he =>
      ((hq.stays hroom).live_iff _).mpr (hl e he)
    rw [hq.find?] at hlvl
    split at hlvl
    · cases hlvl
      exact EntriesLive.addOrder (hold _ (h.levelOrNew side k)) hq.live
    · exact hold _ (h.entries side k lvl hlvl)

theorem CancelOutcome.pointersLive {book book' : OrderBook P} {id : OrderId} {b : Bool}
    (ho : CancelOutcome book id b book') (h : book.PointersLive) : book'.PointersLive := by
  cases ho with
  | unknown _ => exact h
  | dead _ _ _ => exact h
  | cancelled p lvl lvl' now hreg hlive hlvl hrem hwf =>
    exact h.amend (h.putLevel hlvl hrem)

variable [Zero P]

theorem ModifyOutcome.pointersLive {book book' : OrderBook P} {id : OrderId} {price : P}
    {qty : Quantity} {b : Bool} (ho : ModifyOutcome book id price qty b book')
    (h : book.PointersLive) : book'.PointersLive := by
  cases ho with
  | unknown _ => exact h
  | dead _ _ _ => exact h
  | invalid _ _ _ _ => exact h
  | same _ _ _ _ _ _ _ => exact h
  | reduced p hreg hlive hpos hqty hprice hlt => exact ⟨h.registry, h.entries⟩
  | requeued p lvl lvl' hreg hlive hpos hqty hprice hgt hlvl hrem hwf =>
    refine h.amend ?_
    intro k l hl
    rw [SortedMap.find?_insert] at hl
    split at hl
    · cases hl
      exact EntriesLive.addOrder (EntriesLive.mono (h.entries _ _ lvl hlvl) hrem.entries)
        (h.registry id p hreg)
    · exact h.entries _ k l hl
  | moved p lvl lvl' now hreg hlive hpos hqty hprice hlvl hrem hwf =>
    have hlvs : ∀ k l, ((OrderBook.putLevel (book.levels (book.order p).side) (book.order p).price
        lvl').insert price ((book.levelOrNew (book.order p).side price).addOrder
          book.orderPool.get p)).find? k = some l → book.EntriesLive l := by
      intro k l hl
      rw [SortedMap.find?_insert] at hl
      split at hl
      · cases hl
        exact EntriesLive.addOrder (h.levelOrNew _ price) (h.registry id p hreg)
      · exact h.putLevel hlvl hrem k l hl
    have hnew := h.amend (p := p) (o := ((book.order p).setPrice price now).setQuantity qty) hlvs
    exact ⟨hnew.registry, hnew.entries⟩

end OrderBook

/-! ### Over runs -/

namespace Session
variable {P : Type} [LinearOrder P] [Zero P]

/-- An `add_order` finds a slot left in the pool. -/
def HasRoom (s : Session P) (l : Label P) : Prop :=
  ∀ id, l.2 = .orderId id → s.book.orderPool.nextFreeIndex < s.book.orderPool.orders.size

theorem preserved_pointersLive : Preserved (P := P) HasRoom PointersLive where
  enqueue _ _ _ id _ _ _ hG hq h := hq.pointersLive (hG id rfl) h
  iterate _ _ x _ _ h := x.pointersLive h
  setFlag _ h := ⟨h.registry, h.entries⟩
  cancel _ _ _ _ _ _ _ ho h := ho.pointersLive h
  modify _ _ _ _ _ _ _ _ _ ho h := ho.pointersLive h

omit [Zero P] in
/-- The loop neither hands out slots nor moves the orders. -/
theorem loop_stays {book last : OrderBook P} (hsteps : Relation.ReflTransGen LoopStep book last)
    (h : book.Sound) : last.orderPool.nextFreeIndex = book.orderPool.nextFreeIndex ∧
      book.orderPool.orders.Stays last.orderPool.orders :=
  (loop_invariant (I := fun b => b.orderPool.nextFreeIndex = book.orderPool.nextFreeIndex ∧
      book.orderPool.orders.Stays b.orderPool.orders)
    (fun _ _ x _ _ hinv => ⟨x.nextFreeIndex_eq.trans hinv.1, hinv.2.trans x.stays⟩)
    hsteps h ⟨rfl, .refl _⟩).2

/-- What one event does to the pool. -/
theorem Step.pool {s s' : Session P} {l : Label P} (hs : Step s l s') (h : s.book.Sound) :
    s'.book.orderPool.nextFreeIndex =
        s.book.orderPool.nextFreeIndex + (addedIds [l]).length ∧
      (HasRoom s l → s.book.orderPool.orders.Stays s'.book.orderPool.orders) ∧
      (∀ id, l.2 = .orderId id →
        s.book.orderPool.orders.size ≤ s.book.orderPool.nextFreeIndex →
        s.book.orderPool.orders.capacity = s.book.orderPool.orders.size →
        s'.book.orderPool.orders.buffer = s.book.orderPool.orders.buffer + 1) := by
  cases hs.outcome h with
  | added client clock id p queued last book' alloc' hq hsteps hun hsame hor =>
    obtain ⟨hnext, hstays⟩ := loop_stays hsteps (hq.sound h)
    have hpool : book'.orderPool = last.orderPool := by rcases hor with rfl | rfl <;> rfl
    simp only [hpool]
    exact ⟨hnext.trans hq.next_eq, fun hroom => (hq.stays (hroom id rfl)).trans hstays,
      fun _ _ hfull hcap => hstays.buffer.trans (hq.moves hfull hcap)⟩
  | cancelled id clock b book' ho =>
    refine ⟨?_, fun _ => ?_, by simp⟩ <;> cases ho <;>
      first | rfl | exact .refl _ | exact Buffer.stays_write _ _ _
  | modified id price qty clock b book' ho =>
    refine ⟨?_, fun _ => ?_, by simp⟩ <;> cases ho <;>
      first | rfl | exact .refl _ | exact Buffer.stays_write _ _ _
  | drew => exact ⟨rfl, fun _ => .refl _, by simp⟩

/-- A run with no more orders than the pool has slots left always finds room. -/
theorem hasRoom_path {s s' : Session P} {ls : List (Label P)} (hr : Path Step s ls s')
    (h : s.book.Sound) (hroom : s.book.orderPool.nextFreeIndex + (addedIds ls).length ≤
      s.book.orderPool.orders.size) : Path (Guarded HasRoom Step) s ls s' := by
  induction hr with
  | nil s => exact .nil s
  | @cons s s₁ s' l ls hs hrest ih =>
    rw [addedIds_cons] at hroom
    have hl : HasRoom s l := by
      intro id hid
      have : (addedIds [l]).length = 1 := by simp [addedIds, hid]
      omega
    obtain ⟨hnext, hstays, -⟩ := hs.pool h
    refine .cons ⟨hl, hs⟩ (ih (hs.sound h) ?_)
    rw [hnext, (hstays hl).size]
    omega

/-- A run with more orders than that comes to an `add_order` that finds the
    pool full, with everything still where it was. -/
theorem exists_full {G : Session P → Label P → Prop} {s s' : Session P} {ls : List (Label P)}
    (hr : Path (Guarded G Step) s ls s') (h : s.book.Sound)
    (hmany : s.book.orderPool.orders.size < s.book.orderPool.nextFreeIndex + (addedIds ls).length) :
    ∃ ms l ns x x' id, ls = ms ++ l :: ns ∧ Path Step s ms x ∧ G x l ∧ Step x l x' ∧
      l.2 = .orderId id ∧ s.book.orderPool.orders.Stays x.book.orderPool.orders ∧
      x.book.orderPool.nextFreeIndex = x.book.orderPool.orders.size ∧
      x.book.orderPool.nextFreeIndex =
        s.book.orderPool.nextFreeIndex + (addedIds ms).length := by
  induction hr with
  | nil s =>
    have := h.pool.next_le
    simp [addedIds] at hmany
    omega
  | @cons s s₁ s' l ls hs hrest ih =>
    obtain ⟨hG, hs⟩ := hs
    by_cases hl : HasRoom s l
    · obtain ⟨hnext, hstays, -⟩ := hs.pool h
      rw [addedIds_cons] at hmany
      obtain ⟨ms, l', ns, x, x', id, rfl, hx, hGx, hx', hid, hst, hfull, hcount⟩ :=
        ih (hs.sound h) (by rw [hnext, (hstays hl).size]; omega)
      refine ⟨l :: ms, l', ns, x, x', id, rfl, .cons hs hx, hGx, hx', hid, (hstays hl).trans hst,
        hfull, ?_⟩
      have := addedIds_cons l ms
      omega
    · unfold HasRoom at hl
      push Not at hl
      obtain ⟨id, hid, hge⟩ := hl
      have := h.pool.next_le
      exact ⟨[], l, ls, s, s₁, id, rfl, .nil s, hG, hs, hid, .refl _, by omega, rfl⟩

theorem Fresh.pool_size {s : Session P} (hf : Fresh s) :
    s.book.orderPool.nextFreeIndex = 0 ∧ s.book.orderPool.orders.size = SPACE_RESERVE ∧
      s.book.orderPool.orders.capacity = SPACE_RESERVE := by
  obtain ⟨-, -, hnext, -, clock, hpool⟩ := hf.book_eq
  obtain ⟨-, hsize, hcap, -⟩ := OrderPool.new_spec (P := P) SPACE_RESERVE clock
  refine ⟨hnext, ?_, ?_⟩
  · rw [hpool]
    exact hsize
  · rw [hpool]
    exact hcap

theorem Fresh.pointersLive {s : Session P} (hf : Fresh s) : s.book.PointersLive := by
  constructor
  case registry =>
    intro id p hid
    rw [hf.no_order] at hid
    cases hid
  case entries => exact fun side k lvl hlvl => absurd hlvl (hf.no_level side k lvl)

/-- With no more orders than slots nothing ever moves. -/
theorem pointersLive_of_length_le {s x : Session P} {ms : List (Label P)} (hf : Fresh s)
    (hx : Path Step s ms x) (hle : (addedIds ms).length ≤ SPACE_RESERVE) : x.book.PointersLive := by
  obtain ⟨hnext, hsize, -⟩ := hf.pool_size
  have hroom := hasRoom_path hx hf.sound (by omega)
  exact (preserved_pointersLive.path hroom hf.sound hf.pointersLive).2

/-- With more orders than slots there is a call after which the registry still
    has a pointer into the first buffer. -/
theorem exists_dangling {s s' : Session P} {ls : List (Label P)} (hf : Fresh s)
    (hr : Path Step s ls s') (hids : (addedIds ls).Nodup)
    (hmany : SPACE_RESERVE < (addedIds ls).length) :
    ∃ ms x, ms <+: ls ∧ Path Step s ms x ∧ ¬ x.book.PointersLive := by
  obtain ⟨hnext, hsize, hcap⟩ := hf.pool_size
  have hfresh := hf.freshId_path hr hids
  obtain ⟨ms, l, ns, x, x', id, rfl, hx, hl, hx', hid, hstays, hfull, hcount⟩ :=
    exists_full hfresh hf.sound (by omega)
  have hxsound := sound_of_path hf hx
  by_cases hlive : x.book.PointersLive
  swap
  · exact ⟨ms, x, List.prefix_append _ _, hx, hlive⟩
  refine ⟨ms ++ [l], x', ⟨ns, by simp⟩, hx.snoc hx', ?_⟩
  intro hlive'
  -- Some order is registered by then, and its pointer is from the first buffer.
  obtain ⟨id₀, hid₀⟩ : ∃ id₀, id₀ ∈ addedIds ms := by
    apply List.exists_mem_of_length_pos
    rw [hfull, hstays.size, hsize, hnext, Nat.zero_add] at hcount
    rw [← hcount]
    decide
  obtain ⟨p, hp⟩ := Option.ne_none_iff_exists'.mp ((hf.registered_iff hx id₀).mpr hid₀)
  have hold := hlive.registry id₀ p hp
  have hnew := hlive'.registry id₀ p (hx'.registry_kept hxsound hl hp)
  -- The call has moved the orders to the next one.
  have hmoved := (hx'.pool hxsound).2.2 id hid (by omega)
    (by rw [hstays.capacity, hstays.size, hcap, hsize])
  have hbuffer := hnew.1
  rw [hmoved, hold.1] at hbuffer
  omega

/-- **When the pointers stay valid.**  The pointers that a pool hands out stay
    intact exactly for as many calls as it has slots.  In a run on a fresh
    book with at most `SPACE_RESERVE` orders, every pointer that the book
    keeps stays valid; with distinct ids, only in such a run. -/
theorem pointers_live_iff :
    (∀ (reserveSize : ℕ) (clock clock' : Clock) (n : ℕ),
      (∀ m ≤ n, OrderPool.Intact
          ((OrderPool.new reserveSize clock : OrderPool P).allocateMany clock' m).2.1
          ((OrderPool.new reserveSize clock : OrderPool P).allocateMany clock' m).1) ↔
        n ≤ reserveSize) ∧
    ∀ (s s' : Session P) (ls : List (Label P)), Fresh s → Path Step s ls s' →
      ((addedIds ls).length ≤ SPACE_RESERVE →
        ∀ ms x, ms <+: ls → Path Step s ms x → x.book.PointersLive) ∧
      ((addedIds ls).Nodup → (∀ ms x, ms <+: ls → Path Step s ms x → x.book.PointersLive) →
        (addedIds ls).length ≤ SPACE_RESERVE) := by
  refine ⟨OrderPool.intact_iff, ?_⟩
  intro s s' ls hf hr
  constructor
  · intro hle ms x hms hx
    obtain ⟨ns, rfl⟩ := hms
    have happend : addedIds (ms ++ ns) = addedIds ms ++ addedIds ns := List.filterMap_append
    rw [happend, List.length_append] at hle
    exact pointersLive_of_length_le hf hx (by omega)
  · intro hids hall
    by_contra hmany
    obtain ⟨ms, x, hms, hx, hnot⟩ := exists_dangling hf hr hids (Nat.not_le.mp hmany)
    exact hnot (hall ms x hms hx)

/-- A buyer, a seller who takes half of it, and a second seller. -/
def threeOrders : List (Label ℤ) :=
  [(limit .buy 100 10, .orderId 1), (limit .sell 100 5, .orderId 2),
    (limit .sell 101 7, .orderId 3)]

theorem pointers_live_threeOrders : ∃ s : Session ℤ, Path Step (opening 1000) threeOrders s ∧
    ∀ ms x, ms <+: threeOrders → Path Step (opening 1000) ms x → x.book.PointersLive := by
  obtain ⟨s, hs, -⟩ := exists_path (opening 1000) threeOrders (fun _ => true) (by
      simp only [opening, OrderBook.new, OrderPool.new_eq]
      decide +kernel)
  exact ⟨s, hs, (pointers_live_iff.2 _ _ _ (opening_fresh 1000) hs).1 (by decide)⟩

/-- Two calls on a pool of one slot: the second pointer is in a new buffer,
    and the first one is left dangling. -/
theorem second_allocate_dangles :
    ((OrderPool.new 1 fun _ => 0 : OrderPool ℤ).allocateMany (fun _ => 0) 2).1 =
        [⟨1, 0⟩, ⟨2, 1⟩] ∧
      ¬ OrderPool.Intact
        ((OrderPool.new 1 fun _ => 0 : OrderPool ℤ).allocateMany (fun _ => 0) 2).2.1
        ((OrderPool.new 1 fun _ => 0 : OrderPool ℤ).allocateMany (fun _ => 0) 2).1 := by
  refine ⟨by decide, ?_⟩
  intro h
  have hlive := h.live ⟨1, 0⟩ (by decide)
  revert hlive
  decide

end Session
end Orderbook
