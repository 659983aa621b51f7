import Orderbook.PriceLevel

/-! # The queue of a price level

    `PriceLevel.WF` ties the three structures of a level together: every key
    of the map has its own valid entry at or behind the head, and the entries
    in front of the head are tombstones.  It holds whatever ids the orders
    carry, so the unguarded loop of `increment_to_valid` always stops inside
    the vector.  Each operation has one lemma that says what it does to a
    well-formed level. -/

namespace Orderbook

/-- A validity bit and a pointer: a live entry of `p`. -/
abbrev OrderEntry.queued (p : OrderPtr) : OrderEntry := ⟨true, p⟩

/-- A tombstone left by the order `p`. -/
abbrev OrderEntry.tombstone (p : OrderPtr) : OrderEntry := ⟨false, p⟩

namespace PriceLevel
variable {P : Type}

/-- The key set of the map, the validity bits and the head index agree. -/
structure WF (heap : OrderPtr → Order P) (lvl : PriceLevel P) : Prop where
  mapped : ∀ id i, lvl.ordersMap.find? id = some i →
    lvl.queueHeadIndex ≤ i ∧ ∃ p, lvl.orderEntries[i]? = some (.queued p) ∧ (heap p).id = id
  passed : ∀ i e, lvl.orderEntries[i]? = some e → i < lvl.queueHeadIndex → e.isValid = false
  head_le : lvl.queueHeadIndex ≤ lvl.orderEntries.length

/-- The head of the queue is a valid entry. -/
def HeadValid (lvl : PriceLevel P) : Prop :=
  ∃ p, lvl.orderEntries[lvl.queueHeadIndex]? = some (.queued p)

theorem empty_eq_false_iff {lvl : PriceLevel P} :
    lvl.empty = false ↔ ∃ id i, lvl.ordersMap.find? id = some i :=
  SortedMap.isEmpty_eq_false_iff

theorem empty_iff {lvl : PriceLevel P} :
    lvl.empty = true ↔ ∀ id, lvl.ordersMap.find? id = none :=
  SortedMap.isEmpty_iff

theorem WF.new (heap : OrderPtr → Order P) (price : P) : WF heap (PriceLevel.new price) where
  mapped := by simp [PriceLevel.new]
  passed := by simp [PriceLevel.new]
  head_le := Nat.le_refl 0

/-- Only the ids of the queued orders matter. -/
theorem WF.congr {heap heap' : OrderPtr → Order P} {lvl : PriceLevel P} (h : lvl.WF heap)
    (hid : ∀ e ∈ lvl.orderEntries, (heap' e.order).id = (heap e.order).id) : lvl.WF heap' where
  mapped id i hi := by
    obtain ⟨hle, p, hp, hpid⟩ := h.mapped id i hi
    exact ⟨hle, p, hp, (hid _ (List.mem_of_getElem? hp)).trans hpid⟩
  passed := h.passed
  head_le := h.head_le

/-- Two keys never share an entry. -/
theorem WF.index_inj {heap : OrderPtr → Order P} {lvl : PriceLevel P} (h : lvl.WF heap)
    {id id' : OrderId} {i : ℕ} (hi : lvl.ordersMap.find? id = some i)
    (hi' : lvl.ordersMap.find? id' = some i) : id = id' := by
  obtain ⟨-, p, hp, rfl⟩ := h.mapped id i hi
  obtain ⟨-, p', hp', rfl⟩ := h.mapped id' i hi'
  rw [hp] at hp'
  simp only [Option.some.injEq, OrderEntry.mk.injEq, true_and] at hp'
  rw [hp']

/-- While the level is not empty, its head index is inside the vector. -/
theorem WF.head_lt {heap : OrderPtr → Order P} {lvl : PriceLevel P} (h : lvl.WF heap)
    (hne : lvl.empty = false) : lvl.queueHeadIndex < lvl.orderEntries.length := by
  obtain ⟨id, i, hi⟩ := empty_eq_false_iff.mp hne
  obtain ⟨hle, p, hp, -⟩ := h.mapped id i hi
  have := (List.getElem?_eq_some_iff.mp hp).1
  omega

theorem WF.front_ok {heap : OrderPtr → Order P} {lvl : PriceLevel P} (h : lvl.WF heap)
    (hne : lvl.empty = false) :
    ∃ e, lvl.orderEntries[lvl.queueHeadIndex]? = some e ∧ lvl.front = .ok e.order := by
  have hlt := h.head_lt hne
  refine ⟨lvl.orderEntries[lvl.queueHeadIndex], List.getElem?_eq_getElem hlt, ?_⟩
  simp [front, List.getElem?_eq_getElem hlt]

/-- The first valid entry is the one at the head: the entries in front of it
    are tombstones. -/
theorem WF.valid_eq_cons {heap : OrderPtr → Order P} {lvl : PriceLevel P} (h : lvl.WF heap)
    {p : OrderPtr} (hp : lvl.orderEntries[lvl.queueHeadIndex]? = some (.queued p)) :
    ∃ t, lvl.orderEntries.filter OrderEntry.isValid = .queued p :: t := by
  obtain ⟨hlt, hget⟩ := List.getElem?_eq_some_iff.mp hp
  have hsplit : lvl.orderEntries.take lvl.queueHeadIndex ++
      .queued p :: lvl.orderEntries.drop (lvl.queueHeadIndex + 1) = lvl.orderEntries := by
    rw [← hget, ← List.drop_eq_getElem_cons hlt, List.take_append_drop]
  have hpassed : (lvl.orderEntries.take lvl.queueHeadIndex).filter OrderEntry.isValid = [] := by
    rw [List.filter_eq_nil_iff]
    intro e he
    obtain ⟨i, hi, hie⟩ := List.mem_take_iff_getElem.mp he
    have hi' : i < lvl.orderEntries.length ∧ i < lvl.queueHeadIndex := by omega
    rw [h.passed i e (by rw [List.getElem?_eq_getElem hi'.1, hie]) hi'.2]
    exact Bool.false_ne_true
  have hvalid := congrArg (List.filter OrderEntry.isValid) hsplit
  rw [List.filter_append, hpassed] at hvalid
  exact ⟨_, hvalid.symm⟩

/-! ### `add_order` -/

theorem WF.addOrder {heap : OrderPtr → Order P} {lvl : PriceLevel P} (h : lvl.WF heap)
    (p : OrderPtr) : (lvl.addOrder heap p).WF heap where
  mapped id i hi := by
    simp only [PriceLevel.addOrder, SortedMap.find?_insert] at hi ⊢
    split at hi
    · next hid =>
      simp only [Option.some.injEq] at hi
      subst hi
      exact ⟨h.head_le, p, by simp, hid.symm⟩
    · obtain ⟨hle, q, hq, hqid⟩ := h.mapped id i hi
      have hlt := (List.getElem?_eq_some_iff.mp hq).1
      exact ⟨hle, q, by rw [List.getElem?_append_left hlt]; exact hq, hqid⟩
  passed i e hi hlt := by
    have hlt : i < lvl.queueHeadIndex := hlt
    have := h.head_le
    simp only [PriceLevel.addOrder] at hi
    rw [List.getElem?_append_left (by omega)] at hi
    exact h.passed i e hi hlt
  head_le := by
    have := h.head_le
    simp only [PriceLevel.addOrder, List.length_append, List.length_singleton]
    omega

theorem addOrder_not_empty (lvl : PriceLevel P) (heap : OrderPtr → Order P) (p : OrderPtr) :
    (lvl.addOrder heap p).empty = false :=
  empty_eq_false_iff.mpr ⟨(heap p).id, lvl.orderEntries.length, by simp [addOrder]⟩

/-- Queueing looks at nothing but the id of the order. -/
theorem addOrder_congr (lvl : PriceLevel P) {heap heap' : OrderPtr → Order P} {p : OrderPtr}
    (h : (heap p).id = (heap' p).id) : lvl.addOrder heap p = lvl.addOrder heap' p := by
  simp [addOrder, h]

/-! ### `increment_to_valid` -/

/-- The loop stops at the first valid entry. -/
theorem nextValid_ok {es : List OrderEntry} (i : ℕ) {j : ℕ} {p : OrderPtr}
    (hj : es[j]? = some (.queued p)) :
    ∃ n q, nextValid es i = .ok (i + n) ∧ n ≤ j ∧ es[n]? = some (.queued q) ∧
      ∀ m e, m < n → es[m]? = some e → e.isValid = false := by
  -- By induction on the entries from the present index on.
  induction es generalizing i j with
  | nil => simp at hj
  | cons e es ih =>
    simp only [nextValid]
    by_cases he : e.isValid = true
    · refine ⟨0, e.order, by simp [he], Nat.zero_le j, ?_, by simp⟩
      cases e
      simpa using he
    · -- The valid entry is not this one, so it is among the rest.
      have hpos : 0 < j := by
        rcases Nat.eq_zero_or_pos j with rfl | hpos
        · simp only [List.getElem?_cons_zero, Option.some.injEq] at hj
          rw [hj] at he
          exact absurd rfl he
        · exact hpos
      have hj' : es[j - 1]? = some (.queued p) := by
        rw [← hj, List.getElem?_cons, if_neg (by omega)]
      obtain ⟨n, q, hn, hle, hq, hbefore⟩ := ih (i + 1) hj'
      refine ⟨n + 1, q, ?_, by omega, by simpa using hq, ?_⟩
      · simp only [he, if_false, Bool.false_eq_true]
        rw [hn]
        congr 1
        omega
      · intro m e' hm he'
        cases m with
        | zero =>
          simp only [List.getElem?_cons_zero, Option.some.injEq] at he'
          rw [← he']
          simpa using he
        | succ m => exact hbefore m e' (by omega) (by simpa using he')

/-- What `increment_to_valid` does: nothing on an empty level, and otherwise
    the head moves forward to a valid entry. -/
theorem incrementToValid_ok {heap : OrderPtr → Order P} {lvl : PriceLevel P} (h : lvl.WF heap) :
    ∃ n, lvl.incrementToValid = .ok { lvl with queueHeadIndex := n } ∧
      lvl.queueHeadIndex ≤ n ∧ WF heap { lvl with queueHeadIndex := n } ∧
      (lvl.empty = true → n = lvl.queueHeadIndex) ∧
      (lvl.empty = false → HeadValid { lvl with queueHeadIndex := n }) := by
  cases hempty : lvl.empty with
  | true =>
    refine ⟨lvl.queueHeadIndex, by simp [incrementToValid, hempty], Nat.le_refl _, h,
      fun _ => rfl, by simp⟩
  | false =>
    -- A key of the map leads to a valid entry at the head or after it; there the loop stops at the
    -- latest.
    obtain ⟨id, i, hi⟩ := empty_eq_false_iff.mp hempty
    obtain ⟨hle, p, hp, -⟩ := h.mapped id i hi
    have hdrop : (lvl.orderEntries.drop lvl.queueHeadIndex)[i - lvl.queueHeadIndex]? =
        some (.queued p) := by
      rw [List.getElem?_drop, ← hp]
      congr 1
      omega
    obtain ⟨n, q, hn, -, hq, hbefore⟩ := nextValid_ok lvl.queueHeadIndex hdrop
    rw [List.getElem?_drop] at hq
    have hskip : ∀ m e, lvl.orderEntries[m]? = some e → m < lvl.queueHeadIndex + n →
        e.isValid = false := by
      intro m e he hm
      by_cases hmh : m < lvl.queueHeadIndex
      · exact h.passed m e he hmh
      · refine hbefore (m - lvl.queueHeadIndex) e (by omega) ?_
        rw [List.getElem?_drop, ← he]
        congr 1
        omega
    refine ⟨lvl.queueHeadIndex + n, ?_, by omega, ⟨?_, hskip, ?_⟩, by simp, fun _ => ⟨q, hq⟩⟩
    · simp [incrementToValid, hempty, hn, bind, Except.bind]
    · intro id' i' hi'
      obtain ⟨-, p', hp', hid'⟩ := h.mapped id' i' hi'
      refine ⟨?_, p', hp', hid'⟩
      -- An index of the map is valid, so the loop did not pass it.
      by_contra hlt
      simpa using hskip i' _ hp' (by simpa using hlt)
    · have := (List.getElem?_eq_some_iff.mp hq).1
      simpa using Nat.le_of_lt this

/-! ### Taking an entry out of the queue -/

/-- The level after `p`'s entry `i` has been invalidated and its id erased,
    before the head is moved. -/
def unqueued (lvl : PriceLevel P) (i : ℕ) (p : OrderPtr) (id : OrderId) : PriceLevel P :=
  { lvl with
    orderEntries := lvl.orderEntries.set i (.tombstone p)
    ordersMap    := lvl.ordersMap.erase id }

theorem unqueued_getElem? {lvl : PriceLevel P} {i j : ℕ} {p : OrderPtr} {id : OrderId}
    (hi : i < lvl.orderEntries.length) :
    (lvl.unqueued i p id).orderEntries[j]? =
      if j = i then some (.tombstone p) else lvl.orderEntries[j]? := by
  simp only [unqueued, List.getElem?_set]
  by_cases h : i = j
  · subst h
    simp [hi]
  · simp [h, Ne.symm h]

theorem WF.unqueued {heap : OrderPtr → Order P} {lvl : PriceLevel P} (h : lvl.WF heap)
    {i : ℕ} {p : OrderPtr} {id : OrderId} (hi : i < lvl.orderEntries.length)
    (hmap : ∀ id' i', lvl.ordersMap.find? id' = some i' → id' ≠ id → i' ≠ i) :
    (lvl.unqueued i p id).WF heap where
  mapped id' i' hi' := by
    have hne : id' ≠ id := fun heq => by simp [PriceLevel.unqueued, heq] at hi'
    have hi'' : lvl.ordersMap.find? id' = some i' := by
      simpa [PriceLevel.unqueued, SortedMap.find?_erase_ne _ hne] using hi'
    -- The other keys are at other indices.
    obtain ⟨hle, q, hq, hqid⟩ := h.mapped id' i' hi''
    refine ⟨hle, q, ?_, hqid⟩
    rw [unqueued_getElem? hi, if_neg (hmap id' i' hi'' hne)]
    exact hq
  passed j e hj hlt := by
    rw [unqueued_getElem? hi] at hj
    split at hj
    · simp only [Option.some.injEq] at hj
      rw [← hj]
    · exact h.passed j e hj hlt
  head_le := by simpa [PriceLevel.unqueued] using h.head_le

/-- The valid entries that a new tombstone leaves. -/
theorem queued_of_set {es : List OrderEntry} {i j : ℕ} {p q : OrderPtr}
    (hj : (es.set i (.tombstone p))[j]? = some (.queued q)) :
    j ≠ i ∧ es[j]? = some (.queued q) := by
  rw [List.getElem?_set] at hj
  split at hj
  · split at hj <;> cases hj
  · next hne => exact ⟨Ne.symm hne, hj⟩

/-- The two outcomes of `remove_order`. -/
inductive Removed (heap : OrderPtr → Order P) (lvl : PriceLevel P) (id : OrderId) :
    PriceLevel P → Prop where
  /-- The id is not queued here. -/
  | absent : lvl.ordersMap.find? id = none → Removed heap lvl id lvl
  /-- Its entry becomes a tombstone; the head moves to a valid entry unless
      the level is empty now. -/
  | removed (i n : ℕ) (p : OrderPtr) : lvl.ordersMap.find? id = some i →
      lvl.orderEntries[i]? = some (.queued p) → (heap p).id = id → lvl.queueHeadIndex ≤ n →
      ((lvl.unqueued i p id).empty = true → n = lvl.queueHeadIndex) →
      ((lvl.unqueued i p id).empty = false →
        HeadValid { lvl.unqueued i p id with queueHeadIndex := n }) →
      Removed heap lvl id { lvl.unqueued i p id with queueHeadIndex := n }

theorem removeOrder_ok {heap : OrderPtr → Order P} {lvl : PriceLevel P} (h : lvl.WF heap)
    (id : OrderId) :
    ∃ b lvl', lvl.removeOrder id = .ok (b, lvl') ∧ Removed heap lvl id lvl' ∧ lvl'.WF heap := by
  cases hi : lvl.ordersMap.find? id with
  | none => exact ⟨false, lvl, by simp [removeOrder, hi], .absent hi, h⟩
  | some i =>
    obtain ⟨-, p, hp, hid⟩ := h.mapped id i hi
    have hlt := (List.getElem?_eq_some_iff.mp hp).1
    -- Two ids at one index would be the id of one order.
    have hwf : (lvl.unqueued i p id).WF heap :=
      h.unqueued hlt fun id' i' hi' hne heq => hne (h.index_inj (heq ▸ hi') hi)
    obtain ⟨n, hn, hle, hwf', hsame, hvalid⟩ := incrementToValid_ok hwf
    refine ⟨true, _, ?_, .removed i n p hi hp hid hle hsame hvalid, hwf'⟩
    simp only [removeOrder, hi, invalidate, hp, bind, Except.bind]
    exact congrArg (fun r => Except.bind r fun l => Except.ok (true, l)) hn

/-- The answer of `remove_order`. -/
theorem removeOrder_eq_true_iff {lvl lvl' : PriceLevel P} {id : OrderId} {b : Bool}
    (h : lvl.removeOrder id = .ok (b, lvl')) :
    b = true ↔ ∃ i, lvl.ordersMap.find? id = some i := by
  unfold removeOrder at h
  cases hid : lvl.ordersMap.find? id with
  | none =>
    rw [hid] at h
    cases h
    simp
  | some i =>
    simp only [hid, bind, Except.bind] at h
    split at h
    · cases h
    · split at h
      · cases h
      · cases h
        simp

/-- A removal leaves no entry that was not there before. -/
theorem Removed.entries {heap : OrderPtr → Order P} {lvl lvl' : PriceLevel P} {id : OrderId}
    (h : Removed heap lvl id lvl') :
    ∀ x ∈ lvl'.orderEntries, ∃ y ∈ lvl.orderEntries, y.order = x.order := by
  intro x hx
  cases h with
  | absent _ => exact ⟨x, hx, rfl⟩
  | removed i n p _ hp _ _ _ _ =>
    rcases List.mem_or_eq_of_mem_set hx with hx | rfl
    · exact ⟨x, hx, rfl⟩
    · exact ⟨_, List.mem_of_getElem? hp, rfl⟩

/-! ### `pop_front_order_if_filled` -/

/-- The two outcomes of `pop_front_order_if_filled` at the head entry `e`. -/
inductive Popped (heap : OrderPtr → Order P) (lvl : PriceLevel P) (e : OrderEntry) :
    PriceLevel P → Prop where
  /-- The front order is not filled. -/
  | kept : (heap e.order).status ≠ .fullyFilled → Popped heap lvl e lvl
  /-- Its id is erased and its entry becomes a tombstone; the head moves on
      unless the level is empty now. -/
  | popped (n : ℕ) : (heap e.order).status = .fullyFilled →
      ((lvl.unqueued lvl.queueHeadIndex e.order (heap e.order).id).empty = true →
        n = lvl.queueHeadIndex) →
      ((lvl.unqueued lvl.queueHeadIndex e.order (heap e.order).id).empty = false →
        lvl.queueHeadIndex < n ∧
          HeadValid { lvl.unqueued lvl.queueHeadIndex e.order (heap e.order).id with
                      queueHeadIndex := n }) →
      Popped heap lvl e { lvl.unqueued lvl.queueHeadIndex e.order (heap e.order).id with
                          queueHeadIndex := n }

theorem popFront_ok {heap : OrderPtr → Order P} {lvl : PriceLevel P} (h : lvl.WF heap)
    (hne : lvl.empty = false) {e : OrderEntry}
    (he : lvl.orderEntries[lvl.queueHeadIndex]? = some e) :
    ∃ lvl', lvl.popFrontOrderIfFilled heap = .ok lvl' ∧ Popped heap lvl e lvl' ∧
      lvl'.WF heap := by
  by_cases hst : (heap e.order).status = .fullyFilled
  · have hlt := (List.getElem?_eq_some_iff.mp he).1
    have hwf : (lvl.unqueued lvl.queueHeadIndex e.order (heap e.order).id).WF heap := by
      -- The key at the head, if there is one, is that of the front order.
      refine h.unqueued hlt ?_
      intro id' i' hi' hne heq
      obtain ⟨-, p, hp, hid⟩ := h.mapped id' i' hi'
      rw [heq, he, Option.some.injEq] at hp
      exact hne (by rw [← hid, hp])
    obtain ⟨n, hn, hle, hwf', hsame, hvalid⟩ := incrementToValid_ok hwf
    refine ⟨_, ?_, .popped n hst hsame fun hne' => ⟨?_, hvalid hne'⟩, hwf'⟩
    · simp only [popFrontOrderIfFilled, hne, front, he, invalidate, bind, Except.bind, if_pos hst,
        Bool.false_eq_true, if_false]
      exact hn
    · -- The old head is a tombstone now, and the new one is valid.
      refine Nat.lt_of_le_of_ne hle ?_
      intro heq
      obtain ⟨q, hq⟩ := hvalid hne'
      have hq : (lvl.unqueued lvl.queueHeadIndex e.order (heap e.order).id).orderEntries[n]? =
          some (.queued q) := hq
      have heq : lvl.queueHeadIndex = n := heq
      rw [unqueued_getElem? hlt, if_pos heq.symm] at hq
      simp at hq
  · refine ⟨lvl, ?_, .kept hst, h⟩
    simp only [popFrontOrderIfFilled, front, he, bind, Except.bind, if_neg hst, ite_self]

/-- The entries a queue still has from its head on. -/
def pending (lvl : PriceLevel P) : ℕ := lvl.orderEntries.length - lvl.queueHeadIndex

/-- A filled front order uses up an entry or empties the level. -/
theorem Popped.pending_lt {heap : OrderPtr → Order P} {lvl lvl' : PriceLevel P} {e : OrderEntry}
    (h : Popped heap lvl e lvl') (hlt : lvl.queueHeadIndex < lvl.orderEntries.length)
    (hst : (heap e.order).status = .fullyFilled) :
    (if lvl'.empty then 0 else lvl'.pending) < lvl.pending := by
  cases h with
  | kept hne => exact absurd hst hne
  | popped n _ _ hadv =>
    split
    · simp only [pending]
      omega
    · next hne =>
      -- The head has moved on, over entries whose number is the same.
      have := (hadv ((Bool.not_eq_true _).mp hne)).1
      simp only [pending, unqueued, List.length_set]
      omega

theorem Popped.pending_le {heap : OrderPtr → Order P} {lvl lvl' : PriceLevel P} {e : OrderEntry}
    (h : Popped heap lvl e lvl') (hlt : lvl.queueHeadIndex < lvl.orderEntries.length) :
    (if lvl'.empty then 0 else lvl'.pending) ≤ lvl.pending := by
  by_cases hst : (heap e.order).status = .fullyFilled
  · exact Nat.le_of_lt (h.pending_lt hlt hst)
  · cases h with
    | kept _ => split <;> omega
    | popped n h' _ _ => exact absurd h' hst

/-- A pop leaves no entry that was not there before. -/
theorem Popped.entries {heap : OrderPtr → Order P} {lvl lvl' : PriceLevel P} {e : OrderEntry}
    (h : Popped heap lvl e lvl') (he : lvl.orderEntries[lvl.queueHeadIndex]? = some e) :
    ∀ x ∈ lvl'.orderEntries, ∃ y ∈ lvl.orderEntries, y.order = x.order := by
  intro x hx
  cases h with
  | kept _ => exact ⟨x, hx, rfl⟩
  | popped n _ _ _ =>
    rcases List.mem_or_eq_of_mem_set hx with hx | rfl
    · exact ⟨x, hx, rfl⟩
    · exact ⟨e, List.mem_of_getElem? he, rfl⟩

end PriceLevel
end Orderbook
