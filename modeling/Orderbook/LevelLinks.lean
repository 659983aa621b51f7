import Orderbook.LevelQueue

/-! # The queue of a level and the orders in it

    With distinct ids the valid entries of a level say where its orders
    stand: a valid entry is the one its order's id is mapped to and the
    order is live, or it was left behind by an order that is filled by now
    and no longer a key.  The head of the queue is a valid entry, or a
    tombstone of an order that is queued further back: a quantity increase
    of the only order of a level leaves the head in front of it. -/

namespace Orderbook

/-- `o'` stands where `o` stood: same id and price, live if `o` was, and
    filled if `o` was. -/
structure Order.Stands {P : Type} (o o' : Order P) : Prop where
  id : o'.id = o.id
  price : o'.price = o.price
  live : o.Live → o'.Live
  filled : o.status = .fullyFilled → o'.status = .fullyFilled

theorem Order.Stands.refl {P : Type} (o : Order P) : Order.Stands o o :=
  ⟨rfl, rfl, fun h => h, fun h => h⟩

theorem Order.Live.not_filled {P : Type} {o : Order P} (h : o.Live) : o.status ≠ .fullyFilled :=
  fun hf => Order.not_live_iff.mpr (Or.inl hf) h

namespace PriceLevel
variable {P : Type} {heap heap' : OrderPtr → Order P} {k : P} {lvl lvl' : PriceLevel P}

/-- The orders of the valid entries of a level with key `k`. -/
def KeysLinked (heap : OrderPtr → Order P) (k : P) (lvl : PriceLevel P) : Prop :=
  ∀ j p, lvl.orderEntries[j]? = some (.queued p) → (heap p).price = k ∧
    ((lvl.ordersMap.find? (heap p).id = some j ∧ (heap p).Live) ∨
      (lvl.ordersMap.find? (heap p).id = none ∧ (heap p).status = .fullyFilled))

/-- The head is a valid entry, or one of an order whose id is a key. -/
def HeadLinked (heap : OrderPtr → Order P) (lvl : PriceLevel P) : Prop :=
  ∀ e, lvl.orderEntries[lvl.queueHeadIndex]? = some e →
    e.isValid = true ∨ ∃ j, lvl.ordersMap.find? (heap e.order).id = some j

structure Linked (heap : OrderPtr → Order P) (k : P) (lvl : PriceLevel P) : Prop where
  keys : lvl.KeysLinked heap k
  head : lvl.HeadLinked heap

/-- A valid entry of a live order is the one that its id is mapped to. -/
theorem KeysLinked.find? (h : lvl.KeysLinked heap k) {j : ℕ} {p : OrderPtr}
    (hj : lvl.orderEntries[j]? = some (.queued p)) (hlive : (heap p).Live) :
    lvl.ordersMap.find? (heap p).id = some j :=
  ((h j p hj).2.resolve_right fun hf => hlive.not_filled hf.2).1

/-- What a key of a linked level leads to. -/
theorem KeysLinked.of_key (h : lvl.KeysLinked heap k) (hwf : lvl.WF heap) {id : OrderId} {j : ℕ}
    (hj : lvl.ordersMap.find? id = some j) :
    ∃ p, lvl.orderEntries[j]? = some (.queued p) ∧ (heap p).id = id ∧ (heap p).price = k ∧
      (heap p).Live := by
  obtain ⟨-, p, hp, rfl⟩ := hwf.mapped id j hj
  refine ⟨p, hp, rfl, (h j p hp).1, ?_⟩
  rcases (h j p hp).2 with ⟨-, hlive⟩ | ⟨hnone, -⟩
  · exact hlive
  · rw [hj] at hnone
    cases hnone

theorem KeysLinked.congr (h : lvl.KeysLinked heap k)
    (hsame : ∀ p, OrderEntry.queued p ∈ lvl.orderEntries → Order.Stands (heap p) (heap' p)) :
    lvl.KeysLinked heap' k := by
  intro j p hj
  obtain ⟨hid, hprice, hlive, hfilled⟩ := hsame p (List.mem_of_getElem? hj)
  obtain ⟨hk, hor⟩ := h j p hj
  refine ⟨hprice.trans hk, ?_⟩
  rw [hid]
  exact hor.imp (And.imp_right hlive) (And.imp_right hfilled)

theorem HeadLinked.congr (h : lvl.HeadLinked heap)
    (hid : ∀ e ∈ lvl.orderEntries, (heap' e.order).id = (heap e.order).id) :
    lvl.HeadLinked heap' := by
  intro e he
  rw [hid e (List.mem_of_getElem? he)]
  exact h e he

theorem HeadLinked.of_headValid (h : lvl.HeadValid) : lvl.HeadLinked heap := by
  obtain ⟨p, hp⟩ := h
  intro e he
  rw [hp, Option.some.injEq] at he
  exact Or.inl (by rw [← he])

theorem Linked.congr (h : lvl.Linked heap k)
    (hsame : ∀ p, OrderEntry.queued p ∈ lvl.orderEntries → Order.Stands (heap p) (heap' p))
    (hid : ∀ e ∈ lvl.orderEntries, (heap' e.order).id = (heap e.order).id) :
    lvl.Linked heap' k :=
  ⟨h.keys.congr hsame, h.head.congr hid⟩

/-! ### Adding -/

theorem Linked.new (heap : OrderPtr → Order P) (k : P) : (PriceLevel.new k).Linked heap k :=
  ⟨fun j p hj => by simp [PriceLevel.new] at hj, fun e he => by simp [PriceLevel.new] at he⟩

theorem KeysLinked.addOrder (h : lvl.KeysLinked heap k) {p : OrderPtr} (hlive : (heap p).Live)
    (hprice : (heap p).price = k)
    (hnone : ∀ (j : ℕ) (q : OrderPtr), lvl.orderEntries[j]? = some (.queued q) →
      (heap q).id ≠ (heap p).id) :
    (lvl.addOrder heap p).KeysLinked heap k := by
  intro j q hj
  simp only [PriceLevel.addOrder, List.getElem?_append] at hj
  split at hj
  · -- An older entry: its key is not the one that is inserted.
    obtain ⟨hk, hor⟩ := h j q hj
    refine ⟨hk, ?_⟩
    simp only [PriceLevel.addOrder]
    rw [SortedMap.find?_insert_ne _ (hnone j q hj)]
    exact hor
  · next hge =>
    -- The entry at the end is the new one.
    have hj' : j = lvl.orderEntries.length ∧ q = p := by
      rw [List.getElem?_singleton] at hj
      split at hj
      · next hz =>
        simp only [Option.some.injEq, OrderEntry.mk.injEq, true_and] at hj
        exact ⟨by omega, hj.symm⟩
      · cases hj
    obtain ⟨rfl, rfl⟩ := hj'
    exact ⟨hprice, Or.inl ⟨by simp [PriceLevel.addOrder], hlive⟩⟩

/-- After an order was queued again behind its own tombstone the head may
    still be that tombstone. -/
theorem HeadLinked.addOrder {p : OrderPtr} (hle : lvl.queueHeadIndex ≤ lvl.orderEntries.length)
    (h : ∀ e, lvl.orderEntries[lvl.queueHeadIndex]? = some e → e.isValid = true ∨
      (heap e.order).id = (heap p).id ∨ ∃ j, lvl.ordersMap.find? (heap e.order).id = some j) :
    (lvl.addOrder heap p).HeadLinked heap := by
  intro e he
  simp only [PriceLevel.addOrder] at he ⊢
  rcases Nat.lt_or_eq_of_le hle with hlt | heq
  · -- The head stays on an older entry.
    rw [List.getElem?_append_left hlt] at he
    rcases h e he with hv | hid | ⟨j, hj⟩
    · exact Or.inl hv
    · exact Or.inr ⟨_, by rw [hid, SortedMap.find?_insert_self]⟩
    · refine Or.inr ?_
      by_cases hid : (heap e.order).id = (heap p).id
      · exact ⟨_, by rw [hid, SortedMap.find?_insert_self]⟩
      · exact ⟨j, by rw [SortedMap.find?_insert_ne _ hid]; exact hj⟩
  · -- The queue was used up: the new entry is at the head, and it is valid.
    rw [List.getElem?_append_right (by omega), heq, Nat.sub_self] at he
    simp only [List.getElem?_cons_zero, Option.some.injEq] at he
    exact Or.inl (by rw [← he])

/-! ### Removing -/

/-- Only the removed id loses its key. -/
theorem Removed.find?_ne {id id' : OrderId} (h : Removed heap lvl id lvl') (hne : id' ≠ id) :
    lvl'.ordersMap.find? id' = lvl.ordersMap.find? id' := by
  cases h with
  | absent _ => rfl
  | removed i n p _ _ _ _ _ _ => exact SortedMap.find?_erase_ne _ hne

theorem Removed.find?_self {id : OrderId} (h : Removed heap lvl id lvl') :
    lvl'.ordersMap.find? id = none := by
  cases h with
  | absent h => exact h
  | removed i n p _ _ _ _ _ _ => exact SortedMap.find?_erase_self _ _

/-- After a live order was removed, no valid entry is left of its id. -/
theorem Removed.queued {id : OrderId} (h : Removed heap lvl id lvl') (hk : lvl.KeysLinked heap k)
    (hlive : ∀ q, OrderEntry.queued q ∈ lvl.orderEntries → (heap q).id = id → (heap q).Live)
    {j : ℕ} {q : OrderPtr} (hj : lvl'.orderEntries[j]? = some (.queued q)) :
    lvl.orderEntries[j]? = some (.queued q) ∧ (heap q).id ≠ id := by
  cases h with
  | absent hnone =>
    refine ⟨hj, ?_⟩
    intro hid
    -- A valid entry of a live order would have a key.
    have := hk.find? hj (hlive q (List.mem_of_getElem? hj) hid)
    rw [hid, hnone] at this
    cases this
  | removed i n p hi hp hpid _ _ _ =>
    obtain ⟨hne, hold⟩ := queued_of_set hj
    -- The key of a live order leads to its one valid entry.
    refine ⟨hold, fun hid => hne ?_⟩
    have := hk.find? hold (hlive q (List.mem_of_getElem? hold) hid)
    rw [hid, hi] at this
    exact (Option.some.inj this).symm

/-- Removing a live order, whatever becomes of it. -/
theorem KeysLinked.removed {id : OrderId} (hk : lvl.KeysLinked heap k)
    (h : Removed heap lvl id lvl')
    (hlive : ∀ q, OrderEntry.queued q ∈ lvl.orderEntries → (heap q).id = id → (heap q).Live)
    (hsame : ∀ q, (heap q).id ≠ id → OrderEntry.queued q ∈ lvl.orderEntries →
      Order.Stands (heap q) (heap' q)) : lvl'.KeysLinked heap' k := by
  intro j q hj
  obtain ⟨hold, hne⟩ := h.queued hk hlive hj
  obtain ⟨hid, hprice, hl, hf⟩ := hsame q hne (List.mem_of_getElem? hold)
  refine ⟨hprice.trans (hk j q hold).1, ?_⟩
  rw [hid, h.find?_ne hne]
  exact (hk j q hold).2.imp (And.imp_right hl) (And.imp_right hf)

theorem HeadLinked.removed {id : OrderId} (hhead : lvl.HeadLinked heap)
    (h : Removed heap lvl id lvl') (hne : lvl'.empty = false)
    (hid : ∀ e ∈ lvl.orderEntries, (heap' e.order).id = (heap e.order).id) :
    lvl'.HeadLinked heap' := by
  cases h with
  | absent _ => exact hhead.congr hid
  | removed i n p _ _ _ _ _ hvalid => exact .of_headValid (hvalid hne)

/-- An order that is removed and queued again: if it was the only one, the
    head may be left on its old tombstone. -/
theorem HeadLinked.requeued {id : OrderId} (hhead : lvl.HeadLinked heap)
    (h : Removed heap lvl id lvl') {p : OrderPtr} (hp : (heap p).id = id)
    (hwf : lvl'.WF heap) : (lvl'.addOrder heap p).HeadLinked heap := by
  refine HeadLinked.addOrder hwf.head_le ?_
  intro e he
  cases hempty : lvl'.empty with
  | false =>
    exact (HeadLinked.removed hhead h hempty (fun _ _ => rfl) e he).imp_right Or.inr
  | true =>
    cases h with
    | absent hnone => exact (hhead e he).imp_right Or.inr
    | removed i n p' hi hp' hpid _ hsame _ =>
      -- The order was alone: the head stays where it was, perhaps on the tombstone of the order
      -- itself.
      have hn : n = lvl.queueHeadIndex := hsame hempty
      subst hn
      have he : (lvl.orderEntries.set i (.tombstone p'))[lvl.queueHeadIndex]? = some e := he
      rw [List.getElem?_set] at he
      split at he
      · split at he
        · cases he
          exact Or.inr (Or.inl (hpid.trans hp.symm))
        · cases he
      · rcases hhead e he with hv | ⟨j, hj⟩
        · exact Or.inl hv
        · refine Or.inr (Or.inl ?_)
          -- Any other key would still be in the map, which is empty.
          by_contra hne
          rw [hp] at hne
          have := empty_iff.mp hempty (heap e.order).id
          simp only [unqueued, SortedMap.find?_erase_ne _ hne, hj] at this
          cases this

/-! ### Popping -/

/-- A pop leaves every key but that of a filled front order. -/
theorem Popped.find?_ne {e : OrderEntry} (h : Popped heap lvl e lvl') {id : OrderId}
    (hne : (heap e.order).status = .fullyFilled → id ≠ (heap e.order).id) :
    lvl'.ordersMap.find? id = lvl.ordersMap.find? id := by
  cases h with
  | kept _ => rfl
  | popped n hst _ _ => exact SortedMap.find?_erase_ne _ (hne hst)

theorem Popped.queued {e : OrderEntry} (h : Popped heap lvl e lvl') {j : ℕ} {q : OrderPtr}
    (hj : lvl'.orderEntries[j]? = some (.queued q)) :
    lvl.orderEntries[j]? = some (.queued q) := by
  cases h with
  | kept _ => exact hj
  | popped n _ _ _ => exact (queued_of_set hj).2

/-- The order at the head stands at the key of the level, and is either
    live, its id being a key, or filled. -/
theorem Linked.front (h : lvl.Linked heap k) (hwf : lvl.WF heap) {e : OrderEntry}
    (he : lvl.orderEntries[lvl.queueHeadIndex]? = some e)
    (hinj : ∀ p, OrderEntry.queued p ∈ lvl.orderEntries → (heap p).id = (heap e.order).id →
      heap p = heap e.order) :
    (heap e.order).price = k ∧ (((heap e.order).Live ∧
      ∃ j, lvl.ordersMap.find? (heap e.order).id = some j) ∨
        (heap e.order).status = .fullyFilled) := by
  rcases h.head e he with hv | ⟨j, hj⟩
  · have he : lvl.orderEntries[lvl.queueHeadIndex]? = some (.queued e.order) := by
      cases e
      cases hv
      exact he
    obtain ⟨hk, hor⟩ := h.keys _ _ he
    exact ⟨hk, hor.imp (fun ⟨hmap, hl⟩ => ⟨hl, _, hmap⟩) And.right⟩
  · -- A tombstone at the head: the order has been queued again behind it.
    obtain ⟨p, hp, hid, hk, hlive⟩ := h.keys.of_key hwf hj
    rw [hinj p (List.mem_of_getElem? hp) hid] at hk hlive
    exact ⟨hk, Or.inl ⟨hlive, j, hj⟩⟩

/-- The level after the front order `e` was filled by some quantity: `hfront`
    says that it stood here, `hsame` that no other order of the level
    changed. -/
theorem Linked.popped {e : OrderEntry} (h : lvl.Linked heap k)
    (hp : Popped heap' lvl e lvl')
    (hid : ∀ x ∈ lvl.orderEntries, (heap' x.order).id = (heap x.order).id)
    (hsame : ∀ q, OrderEntry.queued q ∈ lvl.orderEntries → (heap q).id ≠ (heap e.order).id →
      heap' q = heap q)
    (hfront : ∀ q, OrderEntry.queued q ∈ lvl.orderEntries → (heap q).id = (heap e.order).id →
      (heap' q).price = (heap q).price ∧
        ((heap' e.order).status = .fullyFilled → (heap' q).status = .fullyFilled) ∧
        ((heap' e.order).status ≠ .fullyFilled → Order.Stands (heap q) (heap' q)))
    (hide : (heap' e.order).id = (heap e.order).id)
    (hne : lvl'.empty = false) : lvl'.Linked heap' k := by
  cases hp with
  | kept hst =>
    refine h.congr ?_ hid
    intro q hq
    -- The front order is the only one that changed.
    by_cases hq' : (heap q).id = (heap e.order).id
    · exact (hfront q hq hq').2.2 hst
    · rw [hsame q hq hq']
      exact .refl _
  | popped n hst _ hadv =>
    refine ⟨?_, .of_headValid (hadv hne).2⟩
    intro j q hj
    obtain ⟨-, hold⟩ := queued_of_set hj
    have hmem := List.mem_of_getElem? hold
    obtain ⟨hk, hor⟩ := h.keys j q hold
    by_cases hq : (heap q).id = (heap e.order).id
    · -- What is left of the order has lost its key, but it is filled.
      obtain ⟨hprice, hfilled, -⟩ := hfront q hmem hq
      refine ⟨hprice.trans hk, Or.inr ⟨?_, hfilled hst⟩⟩
      have hid' : (heap' q).id = (heap' e.order).id := by
        rw [hid _ hmem, hide, hq]
      rw [hid']
      exact SortedMap.find?_erase_self _ _
    · rw [hsame q hmem hq]
      refine ⟨hk, ?_⟩
      have hother : (lvl.ordersMap.erase (heap' e.order).id).find? (heap q).id =
          lvl.ordersMap.find? (heap q).id := SortedMap.find?_erase_ne _ (by rwa [hide])
      rw [← hother] at hor
      exact hor

/-! ### Tidy levels -/

/-- The head is a valid entry, and no entry of a filled order is left behind. -/
structure Tidy (heap : OrderPtr → Order P) (lvl : PriceLevel P) : Prop where
  head : lvl.HeadValid
  keyed : ∀ (j : ℕ) (p : OrderPtr), lvl.orderEntries[j]? = some (.queued p) →
    lvl.ordersMap.find? (heap p).id ≠ none

/-- In a tidy level every valid entry is the one its order's id is mapped to,
    and the order is live. -/
theorem Tidy.entry (h : lvl.Tidy heap) (hk : lvl.KeysLinked heap k) {j : ℕ} {p : OrderPtr}
    (hj : lvl.orderEntries[j]? = some (.queued p)) :
    lvl.ordersMap.find? (heap p).id = some j ∧ (heap p).Live :=
  (hk j p hj).2.resolve_right fun hf => h.keyed j p hj hf.1

/-- The front order of a tidy level is live, and it is the one queued there
    longest. -/
theorem Tidy.front (h : lvl.Tidy heap) (hk : lvl.KeysLinked heap k) (hwf : lvl.WF heap) :
    ∃ p, lvl.front = .ok p ∧ (heap p).Live ∧
      lvl.ordersMap.find? (heap p).id = some lvl.queueHeadIndex ∧
      ∀ id j, lvl.ordersMap.find? id = some j → lvl.queueHeadIndex ≤ j := by
  obtain ⟨p, hp⟩ := h.head
  obtain ⟨hmap, hlive⟩ := h.entry hk hp
  exact ⟨p, by rw [PriceLevel.front, hp], hlive, hmap, fun id j hj => (hwf.mapped id j hj).1⟩

theorem Tidy.congr (h : lvl.Tidy heap)
    (hid : ∀ e ∈ lvl.orderEntries, (heap' e.order).id = (heap e.order).id) : lvl.Tidy heap' where
  head := h.head
  keyed j p hj := by
    rw [hid _ (List.mem_of_getElem? hj)]
    exact h.keyed j p hj

theorem keyed_addOrder (h : ∀ (j : ℕ) (q : OrderPtr), lvl.orderEntries[j]? = some (.queued q) →
      lvl.ordersMap.find? (heap q).id ≠ none) (p : OrderPtr) (j : ℕ) (q : OrderPtr)
    (hj : (lvl.addOrder heap p).orderEntries[j]? = some (.queued q)) :
    (lvl.addOrder heap p).ordersMap.find? (heap q).id ≠ none := by
  simp only [PriceLevel.addOrder, SortedMap.find?_insert]
  split
  · simp
  · next hne =>
    rcases List.mem_append.mp (List.mem_of_getElem? hj) with hmem | hmem
    · obtain ⟨j', hj'⟩ := List.mem_iff_getElem?.mp hmem
      exact h j' q hj'
    · cases List.mem_singleton.mp hmem
      exact absurd rfl hne

theorem Tidy.addOrder (h : lvl.Tidy heap) (p : OrderPtr) : (lvl.addOrder heap p).Tidy heap where
  head := by
    obtain ⟨q, hq⟩ := h.head
    refine ⟨q, ?_⟩
    simp only [PriceLevel.addOrder]
    rw [List.getElem?_append_left (List.getElem?_eq_some_iff.mp hq).1]
    exact hq
  keyed := keyed_addOrder h.keyed p

theorem tidy_addOrder_new (heap : OrderPtr → Order P) (k : P) (p : OrderPtr) :
    ((PriceLevel.new k).addOrder heap p).Tidy heap where
  head := ⟨p, rfl⟩
  keyed := keyed_addOrder (fun j q hj => by simp [PriceLevel.new] at hj) p

theorem Tidy.removed {id : OrderId} (h : lvl.Tidy heap) (hk : lvl.KeysLinked heap k)
    (hrem : Removed heap lvl id lvl')
    (hlive : ∀ q, OrderEntry.queued q ∈ lvl.orderEntries → (heap q).id = id → (heap q).Live)
    (hne : lvl'.empty = false) : lvl'.Tidy heap where
  head := by
    cases hrem with
    | absent _ => exact h.head
    | removed i n p _ _ _ _ _ hvalid => exact hvalid hne
  keyed j p hj := by
    obtain ⟨hold, hid⟩ := hrem.queued hk hlive hj
    rw [hrem.find?_ne hid]
    exact h.keyed j p hold

theorem Tidy.popped {e : OrderEntry} (h : lvl.Tidy heap) (hk : lvl.KeysLinked heap k)
    (he : lvl.orderEntries[lvl.queueHeadIndex]? = some e) (hp : Popped heap' lvl e lvl')
    (hid : ∀ x ∈ lvl.orderEntries, (heap' x.order).id = (heap x.order).id)
    (hne : lvl'.empty = false) : lvl'.Tidy heap' := by
  cases hp with
  | kept _ => exact h.congr hid
  | popped n hst _ hadv =>
    refine ⟨(hadv hne).2, ?_⟩
    intro j q hj
    obtain ⟨hj', hold⟩ := queued_of_set hj
    obtain ⟨p, hp⟩ := h.head
    rw [hp, Option.some.injEq] at he
    subst he
    have hq := (h.entry hk hold).1
    have hfront := (h.entry hk hp).1
    -- Two entries with one key would be one entry.
    have hne' : (heap q).id ≠ (heap p).id := fun heq => hj' (by
      rw [heq, hfront] at hq
      exact (Option.some.inj hq).symm)
    rw [hid _ (List.mem_of_getElem? hold)]
    have hkept : (lvl.ordersMap.erase (heap' p).id).find? (heap q).id =
        lvl.ordersMap.find? (heap q).id :=
      SortedMap.find?_erase_ne _ (by rw [hid _ (List.mem_of_getElem? hp)]; exact hne')
    show (lvl.ordersMap.erase (heap' p).id).find? (heap q).id ≠ none
    rw [hkept, hq]
    simp

end PriceLevel
end Orderbook
