import Orderbook.OrderBook
import Orderbook.Lib.Supply

/-! # The books that share an id allocator

    Any number of books draw blocks of ids from one allocator.  A call of
    `get_order_id` that finds its block used up draws the next one by an
    atomic `get_next_id_block` and takes the first id of it; between the two
    the other books may do anything.  The books refine a `Supply`: what a
    book holds is the rest of its block and the block it has just drawn. -/

namespace Orderbook
variable {P : Type} [LinearOrder P] [Zero P]

/-- A book, and the block that its `get_order_id` in progress has drawn. -/
structure Desk (P : Type) [LT P] where
  book  : OrderBook P
  drawn : Option OrderIdBlock

/-- All the books of the process and the allocator they share. -/
structure Exchange (P : Type) [LT P] where
  alloc : IdAllocator
  desks : List (Desk P)

namespace Exchange

inductive IdEvent where
  /-- The constructor of the book number `i`. -/
  | construct (i : ℕ) (instrument : Instrument) (clock : Clock)
  /-- `get_order_id` of book `i` calls `get_next_id_block`. -/
  | draw (i : ℕ)
  /-- `get_order_id` of book `i` returns. -/
  | take (i : ℕ) (id : OrderId)

def setDesk (x : Exchange P) (i : ℕ) (d : Desk P) : Exchange P :=
  { x with desks := x.desks.set i d }

inductive Step : Exchange P → IdEvent → Exchange P → Prop where
  | construct (x : Exchange P) (instrument : Instrument) (clock : Clock) :
      Step x (.construct x.desks.length instrument clock)
        { alloc := (OrderBook.new (P := P) instrument x.alloc clock).2
          desks := x.desks ++ [⟨(OrderBook.new instrument x.alloc clock).1, none⟩] }
  | draw (x : Exchange P) (i : ℕ) (d : Desk P) : x.desks[i]? = some d → d.drawn = none →
      d.book.nextAvailableOrderId = d.book.orderIdBlock.stop →
      Step x (.draw i)
        { x.setDesk i { d with drawn := some x.alloc.getNextIdBlock.1 } with
          alloc := x.alloc.getNextIdBlock.2 }
  /-- The first id of the new block. -/
  | takeNew (x : Exchange P) (i : ℕ) (d : Desk P) (block : OrderIdBlock) :
      x.desks[i]? = some d → d.drawn = some block →
      Step x (.take i block.start)
        (x.setDesk i
          ⟨{ d.book with orderIdBlock := block, nextAvailableOrderId := block.start + 1 }, none⟩)
  /-- The next id of the present block. -/
  | takeNext (x : Exchange P) (i : ℕ) (d : Desk P) : x.desks[i]? = some d → d.drawn = none →
      d.book.nextAvailableOrderId ≠ d.book.orderIdBlock.stop →
      Step x (.take i d.book.nextAvailableOrderId)
        (x.setDesk i
          ⟨{ d.book with nextAvailableOrderId := d.book.nextAvailableOrderId + 1 }, none⟩)

/-- The steps of an undisturbed call are those of `get_order_id`. -/
theorem getOrderId_path {x : Exchange P} {i : ℕ} {book : OrderBook P}
    (h : x.desks[i]? = some ⟨book, none⟩) :
    ∃ es, Path Step x (es ++ [.take i (book.getOrderId x.alloc).1])
      { x.setDesk i ⟨(book.getOrderId x.alloc).2.1, none⟩ with
        alloc := (book.getOrderId x.alloc).2.2 } := by
  have hlt := (List.getElem?_eq_some_iff.mp h).1
  unfold OrderBook.getOrderId
  split
  · next hend =>
    refine ⟨[.draw i], .cons (.draw x i _ h rfl hend) ?_⟩
    have hmid : (x.desks.set i ⟨book, some x.alloc.getNextIdBlock.1⟩)[i]? =
        some ⟨book, some x.alloc.getNextIdBlock.1⟩ := by
      rw [List.getElem?_set_self hlt]
    have htake := Step.takeNew ⟨x.alloc.getNextIdBlock.2, _⟩ i _ _ hmid rfl
    rw [setDesk, List.set_set] at htake
    exact .cons htake (.nil _)
  · next hne => exact ⟨[], .cons (.takeNext x i _ h rfl hne) (.nil _)⟩

/-- No book yet, and an allocator that has not served anybody. -/
def opening (blockSize : OrderId) : Exchange P := ⟨.new blockSize, []⟩

/-- Drawing a block does not take the 64-bit counter past its end. -/
def NoWrap (x : Exchange P) (e : IdEvent) : Prop :=
  match e with
  | .take _ _ => True
  | _ => x.alloc.globalCounter.toNat + x.alloc.blockSize.toNat < 2 ^ 64

/-- Who was given which id, the oldest first. -/
def issued (es : List IdEvent) : List (ℕ × OrderId) :=
  es.filterMap fun e => match e with
    | .take i id => some (i, id)
    | _ => none

/-! ### The books refine a supply -/

/-- The ids that a book holds. -/
def Desk.Holds (d : Desk P) (n : ℕ) : Prop :=
  (d.book.nextAvailableOrderId.toNat ≤ n ∧ n < d.book.orderIdBlock.stop.toNat) ∨
    ∃ block, d.drawn = some block ∧ block.start.toNat ≤ n ∧ n < block.stop.toNat

/-- The cursor is inside its block, at the end of it while a new block has
    been drawn; a drawn block is not empty. -/
structure Desk.WF (d : Desk P) : Prop where
  cursor_le : d.book.nextAvailableOrderId ≤ d.book.orderIdBlock.stop
  drawn : ∀ block, d.drawn = some block →
    d.book.nextAvailableOrderId = d.book.orderIdBlock.stop ∧ block.start < block.stop

/-- The exchange stands in the state `s` of a supply that grants blocks of
    `blockSize` numbers. -/
structure Refines (blockSize : OrderId) (x : Exchange P) (s : Supply ℕ) : Prop where
  size_eq : x.alloc.blockSize = blockSize
  next_eq : s.next = x.alloc.globalCounter.toNat
  held_iff : ∀ i n, n ∈ s.held i ↔ ∃ d, x.desks[i]? = some d ∧ Desk.Holds d n
  wf : ∀ d ∈ x.desks, Desk.WF d

/-- What an event is to the supply. -/
def toAct (blockSize : OrderId) : IdEvent → Supply.Act ℕ
  | .construct i _ _ => .grant i blockSize.toNat
  | .draw i => .grant i blockSize.toNat
  | .take i id => .issue i id.toNat

theorem issues_map_toAct (blockSize : OrderId) (es : List IdEvent) :
    Supply.issues (es.map (toAct blockSize)) =
      (issued es).map fun e => (e.1, e.2.toNat) := by
  induction es with
  | nil => rfl
  | cons e es ih =>
    cases e <;> simpa [Supply.issues, issued, toAct] using ih

omit [Zero P] in
theorem holds_set {ds : List (Desk P)} {i : ℕ} (hi : i < ds.length) (d : Desk P) (j n : ℕ) :
    (∃ d', (ds.set i d)[j]? = some d' ∧ Desk.Holds d' n) ↔
      (j = i ∧ Desk.Holds d n) ∨ (j ≠ i ∧ ∃ d', ds[j]? = some d' ∧ Desk.Holds d' n) := by
  rw [List.getElem?_set]
  by_cases hj : i = j
  · subst hj
    simp [hi]
  · simp [hj, Ne.symm hj]

/-- The block that `get_next_id_block` returns, as numbers. -/
theorem block_toNat {a : IdAllocator}
    (h : a.globalCounter.toNat + a.blockSize.toNat < 2 ^ 64) :
    (a.globalCounter + a.blockSize).toNat = a.globalCounter.toNat + a.blockSize.toNat := by
  rw [UInt64.toNat_add]
  exact Nat.mod_eq_of_lt h

theorem Refines.construct {blockSize : OrderId} {x : Exchange P} {s : Supply ℕ}
    (h : Refines blockSize x s) (instrument : Instrument) (clock : Clock)
    (hwrap : x.alloc.globalCounter.toNat + x.alloc.blockSize.toNat < 2 ^ 64) :
    Refines blockSize
      { alloc := (OrderBook.new (P := P) instrument x.alloc clock).2
        desks := x.desks ++ [⟨(OrderBook.new instrument x.alloc clock).1, none⟩] }
      (s.grant x.desks.length blockSize.toNat) where
  size_eq := h.size_eq
  next_eq := by
    show s.next + blockSize.toNat = (x.alloc.globalCounter + x.alloc.blockSize).toNat
    rw [block_toNat hwrap, h.next_eq, h.size_eq]
  held_iff i n := by
    have hnew : Desk.Holds (⟨(OrderBook.new instrument x.alloc clock).1, none⟩ : Desk P) n ↔
        s.next ≤ n ∧ n < s.next + blockSize.toNat := by
      show (x.alloc.globalCounter.toNat ≤ n ∧
        n < (x.alloc.globalCounter + x.alloc.blockSize).toNat) ∨ _ ↔ _
      rw [block_toNat hwrap, h.next_eq, h.size_eq]
      simp
    show n ∈ s.held i ∨ (i = x.desks.length ∧ s.next ≤ n ∧ n < s.next + blockSize.toNat) ↔ _
    rw [h.held_iff, ← hnew]
    rcases Nat.lt_trichotomy i x.desks.length with hlt | heq | hgt
    · rw [List.getElem?_append_left hlt]
      simp [Nat.ne_of_lt hlt]
    · subst heq
      simp
    · have hnone : x.desks[i]? = none := List.getElem?_eq_none_iff.mpr (by omega)
      have hnone' : (x.desks ++ [⟨(OrderBook.new (P := P) instrument x.alloc clock).1, none⟩])[i]? =
          none := List.getElem?_eq_none_iff.mpr (by simp; omega)
      rw [hnone, hnone']
      simp [Nat.ne_of_gt hgt]
  wf d hd := by
    rcases List.mem_append.mp hd with hd | hd
    · exact h.wf d hd
    · rw [List.mem_singleton.mp hd]
      refine ⟨?_, by simp⟩
      show x.alloc.globalCounter ≤ x.alloc.globalCounter + x.alloc.blockSize
      rw [UInt64.le_iff_toNat_le, block_toNat hwrap]
      omega

omit [Zero P] in
theorem Refines.draw {blockSize : OrderId} (hsize : 1 ≤ blockSize) {x : Exchange P}
    {s : Supply ℕ} (h : Refines blockSize x s) {i : ℕ} {d : Desk P} (hd : x.desks[i]? = some d)
    (hidle : d.drawn = none) (hend : d.book.nextAvailableOrderId = d.book.orderIdBlock.stop)
    (hwrap : x.alloc.globalCounter.toNat + x.alloc.blockSize.toNat < 2 ^ 64) :
    Refines blockSize
      { x.setDesk i { d with drawn := some x.alloc.getNextIdBlock.1 } with
        alloc := x.alloc.getNextIdBlock.2 }
      (s.grant i blockSize.toNat) where
  size_eq := h.size_eq
  next_eq := by
    show s.next + blockSize.toNat = (x.alloc.globalCounter + x.alloc.blockSize).toNat
    rw [block_toNat hwrap, h.next_eq, h.size_eq]
  held_iff j n := by
    simp only [setDesk]
    rw [holds_set (List.getElem?_eq_some_iff.mp hd).1]
    show n ∈ s.held j ∨ (j = i ∧ s.next ≤ n ∧ n < s.next + blockSize.toNat) ↔ _
    have hnew : Desk.Holds { d with drawn := some x.alloc.getNextIdBlock.1 } n ↔
        Desk.Holds d n ∨ (s.next ≤ n ∧ n < s.next + blockSize.toNat) := by
      simp only [Desk.Holds, hidle, Option.some.injEq, exists_eq_left', IdAllocator.getNextIdBlock,
        reduceCtorEq, false_and, exists_false, or_false]
      rw [block_toNat hwrap, h.next_eq, h.size_eq]
    rw [hnew, h.held_iff]
    by_cases hj : j = i
    · subst hj
      simp [hd]
    · simp [hj]
  wf d' hd' := by
    rcases List.mem_or_eq_of_mem_set hd' with hd' | rfl
    · exact h.wf d' hd'
    · refine ⟨(h.wf d (List.mem_of_getElem? hd)).cursor_le, fun block hblock => ⟨hend, ?_⟩⟩
      cases hblock
      show x.alloc.globalCounter < x.alloc.globalCounter + x.alloc.blockSize
      rw [UInt64.le_iff_toNat_le, UInt64.toNat_one] at hsize
      rw [UInt64.lt_iff_toNat_lt, block_toNat hwrap, h.size_eq]
      omega

/-- The successor of an id below another one does not wrap. -/
theorem succ_toNat {id stop : OrderId} (h : id < stop) : (id + 1).toNat = id.toNat + 1 := by
  have hstop := stop.toNat_lt
  rw [UInt64.lt_iff_toNat_lt] at h
  rw [UInt64.toNat_add, UInt64.toNat_one]
  exact Nat.mod_eq_of_lt (by omega)

omit [Zero P] in
/-- A book issues the id `id`, the first of the ids up to `stop` that it holds,
    and holds the rest from then on. -/
theorem Refines.take {blockSize : OrderId} {x : Exchange P} {s : Supply ℕ}
    (h : Refines blockSize x s) {i : ℕ} {d d' : Desk P} (hd : x.desks[i]? = some d)
    {id stop : OrderId} (hlt : id < stop)
    (hold : ∀ n, Desk.Holds d n ↔ id.toNat ≤ n ∧ n < stop.toNat)
    (hnew : ∀ n, Desk.Holds d' n ↔ (id + 1).toNat ≤ n ∧ n < stop.toNat) (hwf : Desk.WF d') :
    ∃ s', Supply.Step s (.issue i id.toNat) s' ∧
      Refines blockSize (x.setDesk i d') s' := by
  have hheld : ∀ n, n ∈ s.held i ↔ id.toNat ≤ n ∧ n < stop.toNat := by
    intro n
    rw [h.held_iff, ← hold]
    simp [hd]
  rw [UInt64.lt_iff_toNat_lt] at hlt
  have hfirst : id.toNat ∈ s.held i := (hheld _).mpr ⟨Nat.le_refl _, hlt⟩
  refine ⟨_, .issue s i id.toNat hfirst fun n hn => ((hheld n).mp hn).1, h.size_eq, h.next_eq, ?_,
    ?_⟩
  · intro j n
    simp only [setDesk]
    rw [holds_set (List.getElem?_eq_some_iff.mp hd).1, hnew, succ_toNat (by
      rw [UInt64.lt_iff_toNat_lt]; exact hlt), ← h.held_iff]
    show n ∈ s.held j ∧ n ≠ id.toNat ↔ _
    by_cases hj : j = i
    · subst hj
      rw [hheld]
      simp only [true_and, ne_eq, not_true_eq_false, false_and, or_false]
      omega
    · simp only [hj, false_and, ne_eq, not_false_eq_true, true_and, false_or, and_iff_left_iff_imp]
      -- The id was held by the book `i` alone.
      intro hn heq
      exact hj (s.disjoint j i n hn (by rw [heq]; exact hfirst))
  · intro d'' hd''
    rcases List.mem_or_eq_of_mem_set hd'' with hd'' | rfl
    · exact h.wf d'' hd''
    · exact hwf

/-- **The books refine a supply.** -/
theorem Refines.step {blockSize : OrderId} (hsize : 1 ≤ blockSize) {x x' : Exchange P}
    {e : IdEvent} {s : Supply ℕ} (h : Refines blockSize x s) (hs : Guarded NoWrap Step x e x') :
    ∃ s', Supply.Step s (toAct blockSize e) s' ∧ Refines blockSize x' s' := by
  obtain ⟨hwrap, hs⟩ := hs
  cases hs with
  | construct instrument clock => exact ⟨_, .grant s _ _, h.construct instrument clock hwrap⟩
  | draw i d hd hidle hend => exact ⟨_, .grant s _ _, h.draw hsize hd hidle hend hwrap⟩
  | takeNew i d block hd hdrawn =>
    obtain ⟨hend, hlt⟩ := (h.wf d (List.mem_of_getElem? hd)).drawn block hdrawn
    apply h.take hd hlt
    · intro n
      simp only [Desk.Holds, hdrawn, hend, Option.some.injEq, exists_eq_left']
      omega
    · intro n
      simp [Desk.Holds]
    · refine ⟨?_, by simp⟩
      show block.start + 1 ≤ block.stop
      rw [UInt64.le_iff_toNat_le, succ_toNat hlt]
      rw [UInt64.lt_iff_toNat_lt] at hlt
      omega
  | takeNext i d hd hidle hne =>
    have hle := (h.wf d (List.mem_of_getElem? hd)).cursor_le
    have hlt : d.book.nextAvailableOrderId < d.book.orderIdBlock.stop :=
      UInt64.lt_of_le_of_ne hle hne
    apply h.take hd hlt
    · intro n
      simp [Desk.Holds, hidle]
    · intro n
      simp [Desk.Holds]
    · refine ⟨?_, by simp⟩
      show d.book.nextAvailableOrderId + 1 ≤ d.book.orderIdBlock.stop
      rw [UInt64.le_iff_toNat_le, succ_toNat hlt]
      rw [UInt64.lt_iff_toNat_lt] at hlt
      omega

/-- **Ids are unique across the books.**  While the counter of the allocator
    has not wrapped, no id is returned twice, the ids returned by one book
    rise, and none is the default or the invalid id. -/
theorem ids_unique {blockSize : OrderId} (hsize : 1 ≤ blockSize) {x : Exchange P}
    {es : List IdEvent} (hr : Path (Guarded NoWrap Step) (opening blockSize) es x) :
    ((issued es).map Prod.snd).Nodup ∧
      (issued es).Pairwise (fun e e' => e.1 = e'.1 → e.2 < e'.2) ∧
      ∀ e ∈ issued es, e.2 ≠ DEFAULT_ORDER_ID ∧ e.2 ≠ INVALID_ORDER_ID := by
  have hstart : Refines blockSize (opening blockSize : Exchange P)
      (Supply.start FIRST_ORDER_ID.toNat) :=
    ⟨rfl, rfl, by simp [Supply.start, opening], by simp [opening]⟩
  obtain ⟨s, hpath, h⟩ := hr.simulation (fun _ _ _ _ h hs => Refines.step hsize h hs) hstart
  obtain ⟨hnodup, hrising, hbounds⟩ := Supply.issues_of_path hpath rfl
  rw [issues_map_toAct] at hnodup hrising hbounds
  refine ⟨?_, ?_, ?_⟩
  · have hmap : ((issued es).map fun e => (e.1, e.2.toNat)).map Prod.snd =
        ((issued es).map Prod.snd).map UInt64.toNat := by simp
    rw [hmap] at hnodup
    exact hnodup.of_map _
  · refine (List.pairwise_map.mp hrising).imp ?_
    intro e e' hlt heq
    exact UInt64.lt_iff_toNat_lt.mpr (hlt heq)
  · intro e he
    have hbound := hbounds _ (List.mem_map_of_mem he)
    have hlast := x.alloc.globalCounter.toNat_lt
    rw [h.next_eq] at hbound
    constructor
    · intro heq
      have hpos : 1 ≤ e.2.toNat := hbound.1
      rw [heq] at hpos
      exact absurd hpos (by decide)
    · intro heq
      have hlt : e.2.toNat < x.alloc.globalCounter.toNat := hbound.2
      have hinvalid : INVALID_ORDER_ID.toNat = 2 ^ 64 - 1 := rfl
      rw [heq, hinvalid] at hlt
      omega

/-! ### A run -/

instance decidableNoWrap (x : Exchange P) : (e : IdEvent) → Decidable (NoWrap x e)
  | .construct _ _ _ => Nat.decLt _ _
  | .draw _ => Nat.decLt _ _
  | .take _ _ => isTrue trivial

/-- The state after an event, if the event is possible and does not wrap. -/
def next? (x : Exchange P) (e : IdEvent) : Option (Exchange P) :=
  if NoWrap x e then
    match e with
    | .construct i instrument clock =>
      if i = x.desks.length then
        let made := OrderBook.new instrument x.alloc clock
        some ⟨made.2, x.desks ++ [⟨made.1, none⟩]⟩
      else none
    | .draw i =>
      x.desks[i]?.bind fun d =>
        if d.drawn = none ∧ d.book.nextAvailableOrderId = d.book.orderIdBlock.stop then
          some { x.setDesk i { d with drawn := some x.alloc.getNextIdBlock.1 } with
            alloc := x.alloc.getNextIdBlock.2 }
        else none
    | .take i id =>
      x.desks[i]?.bind fun d =>
        match d.drawn with
        | some block =>
          if id = block.start then
            some (x.setDesk i ⟨{ d.book with
              orderIdBlock := block, nextAvailableOrderId := block.start + 1 }, none⟩)
          else none
        | none =>
          if id = d.book.nextAvailableOrderId ∧ id ≠ d.book.orderIdBlock.stop then
            some (x.setDesk i ⟨{ d.book with nextAvailableOrderId := id + 1 }, none⟩)
          else none
  else none

theorem step_of_next? {x x' : Exchange P} {e : IdEvent} (h : x.next? e = some x') :
    Guarded NoWrap Step x e x' := by
  unfold next? at h
  split at h
  · next hwrap =>
    apply And.intro hwrap
    cases e with
    | construct i instrument clock =>
      simp only [Option.ite_none_right_eq_some, Option.some.injEq] at h
      obtain ⟨rfl, rfl⟩ := h
      exact .construct x instrument clock
    | draw i =>
      simp only [Option.bind_eq_some_iff, Option.ite_none_right_eq_some, Option.some.injEq] at h
      obtain ⟨d, hd, ⟨hidle, hend⟩, rfl⟩ := h
      exact .draw x i d hd hidle hend
    | take i id =>
      simp only [Option.bind_eq_some_iff] at h
      obtain ⟨d, hd, h⟩ := h
      split at h
      · next block hdrawn =>
        simp only [Option.ite_none_right_eq_some, Option.some.injEq] at h
        obtain ⟨rfl, rfl⟩ := h
        exact .takeNew x i d block hd hdrawn
      · next hidle =>
        simp only [Option.ite_none_right_eq_some, Option.some.injEq] at h
        obtain ⟨⟨rfl, hne⟩, rfl⟩ := h
        exact .takeNext x i d hd hidle hne
  · cases h

theorem path_of_foldlM {x x' : Exchange P} {es : List IdEvent}
    (h : es.foldlM next? x = some x') : Path (Guarded NoWrap Step) x es x' :=
  .of_foldlM (fun _ _ _ _ hy => step_of_next? hy) h

/-- Two books on blocks of two ids; the first one needs a second block, and the
    other is served before it takes its id from it. -/
def twoBooks : List IdEvent :=
  [.construct 0 "SPY" fun _ => 0, .construct 1 "QQQ" fun _ => 0, .take 0 1, .take 1 3, .take 0 2,
    .draw 0, .take 1 4, .take 0 5]

theorem ids_unique_twoBooks : ∃ x : Exchange ℤ,
    Path (Guarded NoWrap Step) (opening 2) twoBooks x ∧
      ((issued twoBooks).map Prod.snd).Nodup := by
  have hr : (twoBooks.foldlM next? (opening 2 : Exchange ℤ)).isSome = true := by
    decide +kernel
  obtain ⟨x, hx⟩ := Option.isSome_iff_exists.mp hr
  exact ⟨x, path_of_foldlM hx, (ids_unique (by decide) (path_of_foldlM hx)).1⟩

end Exchange
end Orderbook
