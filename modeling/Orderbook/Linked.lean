import Orderbook.Runs
import Orderbook.LevelLinks

/-! # The registry, the levels and the orders agree

    `OrderBook.Linked` is the invariant of runs with distinct order ids: an
    accepted order is the one its id is registered for, a live order's id is
    a key of the level of its side and price, and the levels are linked to
    the orders of their entries. -/

namespace Orderbook
namespace OrderBook
variable {P : Type} [LinearOrder P]

structure Linked (book : OrderBook P) : Prop where
  owned : ∀ i, book.Accepted i →
    ∃ p, book.orderRegistry.find? (book.slot i).id = some p ∧ p.slot = i
  placed : ∀ i, book.Accepted i → (book.slot i).Live →
    ∃ lvl j, (book.levels (book.slot i).side).find? (book.slot i).price = some lvl ∧
      lvl.ordersMap.find? (book.slot i).id = some j
  filledUp : ∀ i, book.Accepted i → (book.slot i).status = .fullyFilled →
    (book.slot i).quantityFilled = (book.slot i).quantity
  level : ∀ side k lvl, (book.levels side).find? k = some lvl → lvl.Linked book.orderPool.get k

/-- An id belongs to one accepted order. -/
theorem Linked.slot_inj {book : OrderBook P} (h : book.Linked) {i j : ℕ} (hi : book.Accepted i)
    (hj : book.Accepted j) (hid : (book.slot i).id = (book.slot j).id) : i = j := by
  obtain ⟨p, hp, rfl⟩ := h.owned i hi
  obtain ⟨q, hq, rfl⟩ := h.owned j hj
  rw [hid, hq, Option.some.injEq] at hp
  rw [hp]

/-- Entries of the same id hold the same order. -/
theorem Linked.order_eq {book : OrderBook P} (h : book.Linked) {p q : OrderPtr}
    (hp : book.Accepted p.slot) (hq : book.Accepted q.slot)
    (hid : (book.order p).id = (book.order q).id) : book.order p = book.order q :=
  congrArg book.slot (h.slot_inj hp hq hid)

/-! ### Queueing -/

theorem Enqueued.linked {book queued : OrderBook P} {client : Order P} {id : OrderId}
    {p : OrderPtr} (hq : Enqueued book client id p queued) (hs : book.Sound)
    (hfresh : book.orderRegistry.find? id = none) (h : book.Linked) : queued.Linked := by
  have hkept : ∀ i, book.Accepted i → queued.slot i = book.slot i := hq.kept
  have hid : ∀ i, book.Accepted i → (book.slot i).id ≠ id := by
    intro i hi heq
    obtain ⟨p, hp, -⟩ := h.owned i hi
    rw [heq, hfresh] at hp
    cases hp
  have hlevel : ∀ side lvl k, (book.levels side).find? k = some lvl →
      lvl.Linked queued.orderPool.get k := by
    intro side lvl k hlvl
    have hentry : ∀ e ∈ lvl.orderEntries, queued.order e.order = book.order e.order :=
      fun e he => hkept _ ((hs.level side k lvl hlvl).entries e he).1
    exact (h.level side k lvl hlvl).congr
      (fun q hmem => by rw [show queued.orderPool.get q = _ from hentry _ hmem]; exact .refl _)
      fun e he => congrArg Order.id (hentry e he)
  constructor
  case owned =>
    -- The new id is registered for the new slot only.
    intro i hi
    rw [hq.registry]
    rcases (hq.accepted i).mp hi with hi | rfl
    · rw [hkept i hi, SortedMap.find?_insert_ne _ (hid i hi)]
      exact h.owned i hi
    · exact ⟨p, by rw [show (queued.slot p.slot).id = id from hq.id_eq,
        SortedMap.find?_insert_self], rfl⟩
  case placed =>
    intro i hi hlive
    rcases (hq.accepted i).mp hi with hi | rfl
    · -- An older order has its key in a level that the new one may have joined.
      rw [hkept i hi] at hlive ⊢
      obtain ⟨lvl, j, hlvl, hj⟩ := h.placed i hi hlive
      rw [hq.find?]
      split
      · refine ⟨_, j, rfl, ?_⟩
        rw [OrderBook.levelOrNew, hlvl, Option.getD_some, PriceLevel.addOrder]
        rw [show (queued.orderPool.get p).id = id from hq.id_eq,
          SortedMap.find?_insert_ne _ (hid i hi)]
        exact hj
      · exact ⟨lvl, j, hlvl, hj⟩
    · have hside : (queued.slot p.slot).side = client.side := hq.side
      have hprice : (queued.slot p.slot).price = client.price := hq.price
      rw [hside, hprice, hq.find?, if_pos ⟨rfl, rfl⟩]
      exact ⟨_, _, rfl, SortedMap.find?_insert_self _ _ _⟩
  case filledUp =>
    intro i hi hst
    rcases (hq.accepted i).mp hi with hi | rfl
    · rw [hkept i hi] at hst ⊢
      exact h.filledUp i hi hst
    · rw [show (queued.slot p.slot).status = .new from hq.status] at hst
      cases hst
  case level =>
    intro side k lvl hlvl
    rw [hq.find?] at hlvl
    split at hlvl
    · next hat =>
      -- The level of the new order, which has no entry with the new id.
      obtain ⟨rfl, rfl⟩ := hat
      cases hlvl
      have hlinked : (book.levelOrNew client.side client.price).Linked queued.orderPool.get
          client.price := by
        unfold OrderBook.levelOrNew
        cases hf : (book.levels client.side).find? client.price with
        | none => exact .new _ _
        | some lvl => exact hlevel _ _ _ hf
      obtain ⟨hwf, hentries⟩ := hs.levelOrNew client.side client.price
      refine ⟨hlinked.keys.addOrder (Or.inl hq.status) hq.price ?_,
        .addOrder hwf.head_le fun e he => (hlinked.head e he).imp_right Or.inr⟩
      intro j q hj
      have hacc := (hentries _ (List.mem_of_getElem? hj)).1
      rw [show (queued.orderPool.get p).id = id from hq.id_eq,
        show queued.orderPool.get q = book.order q from hkept _ hacc]
      exact hid _ hacc
    · exact hlevel _ _ _ hlvl

/-! ### Cancelling and modifying -/

/-- Writing one order back, and the levels of its side: what has to be shown
    of them. -/
theorem Linked.amend {book : OrderBook P} (h : book.Linked) (hs : book.Sound) {p : OrderPtr}
    {o : Order P} (hid : o.id = (book.order p).id) (hside : o.side = (book.order p).side)
    (hfilled : o.status = .fullyFilled → o.quantityFilled = o.quantity)
    {m : SideLevels P (book.order p).side}
    (hself : o.Live → ∃ lvl j, m.find? o.price = some lvl ∧ lvl.ordersMap.find? o.id = some j)
    (hother : ∀ i lvl j, i ≠ p.slot → book.Accepted i → (book.slot i).Live →
      (book.slot i).side = (book.order p).side →
      (book.levels (book.order p).side).find? (book.slot i).price = some lvl →
      lvl.ordersMap.find? (book.slot i).id = some j →
      ∃ lvl' j', m.find? (book.slot i).price = some lvl' ∧
        lvl'.ordersMap.find? (book.slot i).id = some j')
    (hlvs : ∀ k lvl, m.find? k = some lvl →
      lvl.Linked (book.setOrder p o).orderPool.get k) :
    ((book.setOrder p o).setLevels (book.order p).side m).Linked := by
  -- Only the slot of `p` has another order, and it has the same id.
  have hslot : ∀ i, ((book.setOrder p o).setLevels (book.order p).side m).slot i =
      if i = p.slot then o else book.slot i := fun i => setOrder_slot _ _ _ _
  have hids : ∀ i, (((book.setOrder p o).setLevels (book.order p).side m).slot i).id =
      (book.slot i).id := by
    intro i
    rw [hslot]
    split
    · next heq => rw [hid, heq]; rfl
    · rfl
  constructor
  case owned =>
    intro i hi
    rw [hids]
    exact h.owned i hi
  case placed =>
    intro i hi hlive
    rw [hids]
    rw [hslot] at hlive ⊢
    split at hlive
    · next heq =>
      subst heq
      rw [if_pos rfl, hside]
      simp only [find?_setLevels, if_true]
      rw [show (book.slot p.slot).id = o.id from hid.symm]
      exact hself hlive
    · next hne =>
      rw [if_neg hne]
      obtain ⟨lvl, j, hlvl, hj⟩ := h.placed i hi hlive
      rw [find?_setLevels]
      split
      · next hsame =>
        rw [hsame] at hlvl
        exact hother i lvl j hne hi hlive hsame hlvl hj
      · exact ⟨lvl, j, hlvl, hj⟩
  case filledUp =>
    intro i hi hst
    rw [hslot] at hst ⊢
    split
    · next heq =>
      rw [if_pos heq] at hst
      exact hfilled hst
    · next hne =>
      rw [if_neg hne] at hst
      exact h.filledUp i hi hst
  case level =>
    intro side k lvl hlvl
    rw [find?_setLevels] at hlvl
    split at hlvl
    · next heq =>
      subst heq
      exact hlvs k lvl hlvl
    · next hne =>
      -- The levels of the other side hold orders of that side only.
      have hsame : ∀ e ∈ lvl.orderEntries, (book.setOrder p o).order e.order =
          book.order e.order := by
        intro e he
        refine OrderPool.get_set_ne _ (fun heq => hne ?_) o
        rw [← ((hs.level side k lvl hlvl).entries e he).2]
        exact congrArg (fun i => (book.slot i).side) heq
      exact (h.level side k lvl hlvl).congr
        (fun q hq => by
          rw [show ((book.setOrder p o).setLevels (book.order p).side m).orderPool.get q = _
            from hsame _ hq]
          exact .refl _)
        fun e he => congrArg Order.id (hsame e he)

/-- Ids are never overwritten. -/
theorem setOrder_id {book : OrderBook P} {p : OrderPtr} {o : Order P}
    (hid : o.id = (book.order p).id) (q : OrderPtr) :
    ((book.setOrder p o).orderPool.get q).id = (book.orderPool.get q).id := by
  show ((book.setOrder p o).slot q.slot).id = (book.slot q.slot).id
  rw [setOrder_slot]
  split
  · next heq => rw [hid, heq]; rfl
  · rfl

/-- Orders of other ids are not written. -/
theorem setOrder_of_id_ne {book : OrderBook P} {p q : OrderPtr}
    (hid : (book.order q).id ≠ (book.order p).id) (o : Order P) :
    (book.setOrder p o).orderPool.get q = book.order q := by
  apply OrderPool.get_set_ne
  intro heq
  exact hid (congrArg (fun i => (book.slot i).id) heq)

/-- The order `o` is written back for `p` and goes to the end of the queue
    `target`, which may still have keys of the other orders but no entry of
    its own. -/
theorem Linked.amend_addOrder {book : OrderBook P} (h : book.Linked) (hs : book.Sound)
    {p : OrderPtr} (hp : book.Accepted p.slot) {o : Order P} (hid : o.id = (book.order p).id)
    (hside : o.side = (book.order p).side) (hlive : o.Live)
    {m : SideLevels P (book.order p).side} {target : PriceLevel P}
    (hkeys : target.KeysLinked (book.setOrder p o).orderPool.get o.price)
    (hhead : (target.addOrder book.orderPool.get p).HeadLinked book.orderPool.get)
    (hnone : ∀ (j : ℕ) (q : OrderPtr), target.orderEntries[j]? = some (.queued q) →
      (book.order q).id ≠ (book.order p).id)
    (hrest : ∀ k lvl, k ≠ o.price → m.find? k = some lvl →
      lvl.Linked (book.setOrder p o).orderPool.get k)
    (hsame : ∀ i lvl j, (book.slot i).id ≠ (book.order p).id → (book.slot i).price = o.price →
      (book.levels (book.order p).side).find? (book.slot i).price = some lvl →
      lvl.ordersMap.find? (book.slot i).id = some j →
      target.ordersMap.find? (book.slot i).id = some j)
    (hother : ∀ i lvl j, i ≠ p.slot → book.Accepted i → (book.slot i).price ≠ o.price →
      (book.levels (book.order p).side).find? (book.slot i).price = some lvl →
      lvl.ordersMap.find? (book.slot i).id = some j →
      ∃ lvl', m.find? (book.slot i).price = some lvl' ∧
        lvl'.ordersMap.find? (book.slot i).id = some j) :
    ((book.setOrder p o).setLevels (book.order p).side
      (m.insert o.price (target.addOrder book.orderPool.get p))).Linked := by
  have hget : (book.setOrder p o).orderPool.get p = o := OrderPool.get_set_self _ _ _
  have hadd : target.addOrder book.orderPool.get p =
      target.addOrder (book.setOrder p o).orderPool.get p :=
    PriceLevel.addOrder_congr _ (setOrder_id hid p).symm
  have hmap : ∀ id, id ≠ (book.order p).id →
      (target.addOrder book.orderPool.get p).ordersMap.find? id = target.ordersMap.find? id := by
    intro id hne
    exact SortedMap.find?_insert_ne _ hne _
  refine h.amend hs hid hside (fun hst => absurd hst hlive.not_filled) ?_ ?_ ?_
  · -- The order itself is at the end of the queue.
    intro _
    refine ⟨_, target.orderEntries.length, SortedMap.find?_insert_self _ _ _, ?_⟩
    rw [hid]
    exact SortedMap.find?_insert_self _ _ _
  · -- The others have the keys they had.
    intro i lvl j hi hacc _ _ hlvl hj
    have hne : (book.slot i).id ≠ (book.order p).id := by
      intro heq
      exact hi (h.slot_inj hacc hp heq)
    rw [SortedMap.find?_insert]
    split
    · next hk =>
      refine ⟨_, j, rfl, ?_⟩
      rw [hmap _ hne]
      exact hsame i lvl j hne hk hlvl hj
    · next hk =>
      obtain ⟨lvl', hlvl', hj'⟩ := hother i lvl j hi hacc hk hlvl hj
      exact ⟨lvl', j, hlvl', hj'⟩
  · intro k lvl hlvl
    rw [SortedMap.find?_insert] at hlvl
    split at hlvl
    · next hk =>
      cases hlvl
      rw [hk]
      refine ⟨?_, hhead.congr fun e _ => setOrder_id hid e.order⟩
      rw [hadd]
      apply hkeys.addOrder
      · rw [hget]
        exact hlive
      · rw [hget]
      · intro j q hj
        rw [hget, hid, setOrder_id hid q]
        exact hnone j q hj
    · next hk => exact hrest k lvl hk hlvl

/-- A new quantity for a live order, which keeps its place. -/
theorem Linked.setQuantity {book : OrderBook P} (h : book.Linked) (hs : book.Sound)
    {p : OrderPtr} (hacc : book.Accepted p.slot) (hlive : (book.order p).Live) (qty : Quantity) :
    (book.setOrder p ((book.order p).setQuantity qty)).Linked := by
  have hstands : ∀ q : OrderPtr, Order.Stands (book.order q)
      ((book.setOrder p ((book.order p).setQuantity qty)).order q) := by
    intro q
    show Order.Stands (book.slot q.slot)
      ((book.setOrder p ((book.order p).setQuantity qty)).slot q.slot)
    rw [setOrder_slot]
    split
    · next heq =>
      rw [heq]
      exact ⟨rfl, rfl, fun h => h, fun h => h⟩
    · exact .refl _
  -- The levels are written back as they are.
  have hamend : ((book.setOrder p ((book.order p).setQuantity qty)).setLevels
      (book.order p).side (book.levels (book.order p).side)).Linked := by
    refine h.amend (o := (book.order p).setQuantity qty) hs rfl rfl
      (fun hst => absurd hst hlive.not_filled) ?_ ?_ ?_
    · intro _
      exact h.placed p.slot hacc hlive
    · intro i lvl j _ _ _ _ hlvl hj
      exact ⟨lvl, j, hlvl, hj⟩
    · intro k lvl hlvl
      exact (h.level _ k lvl hlvl).congr (fun q _ => hstands q) fun e _ => (hstands e.order).id
  rwa [← setOrder_levels book p ((book.order p).setQuantity qty), setLevels_self] at hamend

/-- What taking a live order `p` out of its level leaves of the side. -/
structure Withdrawn (book : OrderBook P) (p : OrderPtr) (lvl lvl' : PriceLevel P) : Prop where
  acc : book.Accepted p.slot
  live : (book.order p).Live
  find : (book.levels (book.order p).side).find? (book.order p).price = some lvl
  rem : PriceLevel.Removed book.orderPool.get lvl (book.order p).id lvl'
  wf : lvl'.WF book.orderPool.get

namespace Withdrawn
variable {book : OrderBook P} {p : OrderPtr} {lvl lvl' : PriceLevel P}

/-- The orders of a level of the side that carry the id of `p` are `p`. -/
theorem same_id (w : Withdrawn book p lvl lvl') (h : book.Linked) (hs : book.Sound) {k : P}
    {l : PriceLevel P} (hl : (book.levels (book.order p).side).find? k = some l) {q : OrderPtr}
    (hq : OrderEntry.queued q ∈ l.orderEntries) (hid : (book.order q).id = (book.order p).id) :
    q.slot = p.slot ∧ k = (book.order p).price := by
  have hacc := ((hs.level _ k l hl).entries _ hq).1
  refine ⟨h.slot_inj hacc w.acc hid, ?_⟩
  obtain ⟨j, hj⟩ := List.mem_iff_getElem?.mp hq
  rw [← ((h.level _ k l hl).keys j q hj).1]
  exact congrArg Order.price (h.order_eq hacc w.acc hid)

/-- The levels of other prices do not see `p`. -/
theorem linked_other (w : Withdrawn book p lvl lvl') (h : book.Linked) (hs : book.Sound)
    {o : Order P} (hid : o.id = (book.order p).id) {k : P} {l : PriceLevel P}
    (hl : (book.levels (book.order p).side).find? k = some l) (hk : k ≠ (book.order p).price) :
    l.Linked (book.setOrder p o).orderPool.get k := by
  refine (h.level _ k l hl).congr ?_ ?_
  · intro q hq
    rw [setOrder_of_id_ne (fun heq => hk (w.same_id h hs hl hq heq).2) o]
    exact .refl _
  · intro e he
    exact setOrder_id hid e.order

theorem queued_live (w : Withdrawn book p lvl lvl') (h : book.Linked) (hs : book.Sound)
    (q : OrderPtr) (hq : OrderEntry.queued q ∈ lvl.orderEntries)
    (hid : (book.order q).id = (book.order p).id) : (book.order q).Live := by
  rw [h.order_eq ((hs.level _ _ lvl w.find).entries _ hq).1 w.acc hid]
  exact w.live

/-- No valid entry of `p` is left in its level. -/
theorem queued (w : Withdrawn book p lvl lvl') (h : book.Linked) (hs : book.Sound) {j : ℕ}
    {q : OrderPtr} (hj : lvl'.orderEntries[j]? = some (.queued q)) :
    (book.order q).id ≠ (book.order p).id :=
  (w.rem.queued (h.level _ _ lvl w.find).keys (w.queued_live h hs) hj).2

theorem keysLinked (w : Withdrawn book p lvl lvl') (h : book.Linked) (hs : book.Sound)
    (o : Order P) : lvl'.KeysLinked (book.setOrder p o).orderPool.get (book.order p).price := by
  refine (h.level _ _ lvl w.find).keys.removed w.rem (w.queued_live h hs) ?_
  intro q hq hmem
  rw [setOrder_of_id_ne hq o]
  exact .refl _

theorem linked (w : Withdrawn book p lvl lvl') (h : book.Linked) (hs : book.Sound)
    {o : Order P} (hid : o.id = (book.order p).id) (hne : lvl'.empty = false) :
    lvl'.Linked (book.setOrder p o).orderPool.get (book.order p).price :=
  ⟨w.keysLinked h hs o,
    (h.level _ _ lvl w.find).head.removed w.rem hne fun e _ => setOrder_id hid e.order⟩

/-- The keys of the other orders stay where they were. -/
theorem kept (w : Withdrawn book p lvl lvl') (h : book.Linked) {i : ℕ} {l : PriceLevel P} {j : ℕ}
    (hi : i ≠ p.slot) (hacc : book.Accepted i)
    (hl : (book.levels (book.order p).side).find? (book.slot i).price = some l)
    (hj : l.ordersMap.find? (book.slot i).id = some j) :
    ∃ l', (putLevel (book.levels (book.order p).side) (book.order p).price lvl').find?
        (book.slot i).price = some l' ∧ l'.ordersMap.find? (book.slot i).id = some j := by
  -- The key that is gone is the one of `p`, and no other order has its id.
  have hid : (book.slot i).id ≠ (book.order p).id := fun heq => hi (h.slot_inj hacc w.acc heq)
  rw [find?_putLevel]
  split
  · next hk =>
    rw [hk, w.find] at hl
    cases hl
    have hj' : lvl'.ordersMap.find? (book.slot i).id = some j := by rw [w.rem.find?_ne hid, hj]
    -- A level with a key is not pruned.
    have hne : lvl'.empty = false := PriceLevel.empty_eq_false_iff.mpr ⟨_, _, hj'⟩
    exact ⟨lvl', by simp [hne], hj'⟩
  · exact ⟨l, hl, hj⟩

/-- The side after `p` was taken out and the level pruned if it is empty. -/
theorem linked_putLevel (w : Withdrawn book p lvl lvl') (h : book.Linked) (hs : book.Sound)
    {o : Order P} (hid : o.id = (book.order p).id) (k : P) (l : PriceLevel P)
    (hl : (putLevel (book.levels (book.order p).side) (book.order p).price lvl').find? k = some l) :
    l.Linked (book.setOrder p o).orderPool.get k := by
  rw [find?_putLevel] at hl
  split at hl
  · next hk =>
    split at hl
    · cases hl
    · next hne =>
      cases hl
      rw [hk]
      exact w.linked h hs hid ((Bool.not_eq_true _).mp hne)
  · next hk => exact w.linked_other h hs hid hl hk

/-- The order goes back to the end of its own level. -/
theorem linked_requeued (w : Withdrawn book p lvl lvl') (h : book.Linked) (hs : book.Sound)
    (qty : Quantity) :
    ((book.setOrder p ((book.order p).setQuantity qty)).setLevels (book.order p).side
      ((book.levels (book.order p).side).insert (book.order p).price
        (lvl'.addOrder book.orderPool.get p))).Linked := by
  have hprice : ((book.order p).setQuantity qty).price = (book.order p).price := rfl
  rw [← hprice]
  apply h.amend_addOrder (o := (book.order p).setQuantity qty) hs w.acc rfl rfl w.live
  · exact w.keysLinked h hs _
  · exact (h.level _ _ lvl w.find).head.requeued w.rem rfl w.wf
  · intro j q hj
    exact w.queued h hs hj
  · intro k l hk hl
    exact w.linked_other (o := (book.order p).setQuantity qty) h hs rfl hl hk
  · intro i l j hne hk hl hj
    rw [hk] at hl
    rw [w.rem.find?_ne hne]
    cases w.find.symm.trans hl
    exact hj
  · intro i l j _ _ _ hl hj
    exact ⟨l, hl, hj⟩

/-- The order goes to the end of the level of another price, which may be new. -/
theorem linked_moved (w : Withdrawn book p lvl lvl') (h : book.Linked) (hs : book.Sound) {price : P}
    (hprice : price ≠ (book.order p).price) (qty : Quantity) (now : TimePoint) :
    ((book.setOrder p (((book.order p).setPrice price now).setQuantity qty)).setLevels
      (book.order p).side
      ((putLevel (book.levels (book.order p).side) (book.order p).price lvl').insert price
        ((book.levelOrNew (book.order p).side price).addOrder book.orderPool.get p))).Linked := by
  obtain ⟨o, ho⟩ : ∃ o, o = ((book.order p).setPrice price now).setQuantity qty := ⟨_, rfl⟩
  have hid : o.id = (book.order p).id := by rw [ho]; rfl
  have hat : o.price = price := by rw [ho]; rfl
  rw [← ho, ← hat]
  rw [← hat] at hprice
  obtain ⟨hwf, -⟩ := hs.levelOrNew (book.order p).side o.price
  -- The level of the new price, if there is one, has never seen the order.
  have hlinked : ∀ heap, (∀ l, (book.levels (book.order p).side).find? o.price = some l →
      l.Linked heap o.price) →
      (book.levelOrNew (book.order p).side o.price).Linked heap o.price := by
    intro heap hl
    unfold OrderBook.levelOrNew
    cases hf : (book.levels (book.order p).side).find? o.price with
    | none => exact .new _ _
    | some l => exact hl l hf
  apply h.amend_addOrder hs w.acc hid (by rw [ho]; rfl) (by rw [ho]; exact w.live)
  · exact (hlinked _ fun l hl => w.linked_other h hs hid hl hprice).keys
  · refine PriceLevel.HeadLinked.addOrder hwf.head_le ?_
    intro e he
    exact ((hlinked _ fun l hl => h.level _ _ l hl).head e he).imp_right Or.inr
  · intro j q hj heq
    unfold OrderBook.levelOrNew at hj
    cases hf : (book.levels (book.order p).side).find? o.price with
    | none =>
      rw [hf] at hj
      simp [PriceLevel.new] at hj
    | some l =>
      rw [hf, Option.getD_some] at hj
      exact hprice (w.same_id h hs hf (List.mem_of_getElem? hj) heq).2
  · intro k l _ hl
    exact w.linked_putLevel h hs hid k l hl
  · intro i l j _ hk hl hj
    rw [OrderBook.levelOrNew, ← hk, hl]
    exact hj
  · intro i l j hi hacc _ hl hj
    exact w.kept h hi hacc hl hj

end Withdrawn

theorem Linked.setFlag {book : OrderBook P} (h : book.Linked) (flag : Bool) :
    Linked { book with tryMatchFlag := flag } :=
  ⟨h.owned, h.placed, h.filledUp, h.level⟩

theorem CancelOutcome.linked {book book' : OrderBook P} {id : OrderId} {b : Bool}
    (ho : CancelOutcome book id b book') (hs : book.Sound) (h : book.Linked) : book'.Linked := by
  cases ho with
  | unknown _ => exact h
  | dead _ _ _ => exact h
  | cancelled p lvl lvl' now hreg hlive hlvl hrem hwf =>
    have w : Withdrawn book p lvl lvl' := ⟨(hs.registered id p hreg).1, hlive, hlvl, hrem, hwf⟩
    refine h.amend (o := (book.order p).cancelledAt now) hs rfl rfl
      (fun hst => by simp [Order.cancelledAt] at hst)
      (fun hl => by simp [Order.cancelledAt, Order.Live] at hl) ?_
      (w.linked_putLevel h hs rfl)
    intro i l j hi hacc _ _ hl hj
    obtain ⟨l', hl', hj'⟩ := w.kept h hi hacc hl hj
    exact ⟨l', j, hl', hj'⟩

theorem ModifyOutcome.linked [Zero P] {book book' : OrderBook P} {id : OrderId} {price : P}
    {qty : Quantity} {b : Bool} (ho : ModifyOutcome book id price qty b book') (hs : book.Sound)
    (h : book.Linked) : book'.Linked := by
  cases ho with
  | unknown _ => exact h
  | dead _ _ _ => exact h
  | invalid _ _ _ _ => exact h
  | same _ _ _ _ _ _ _ => exact h
  | reduced p hreg hlive hpos hqty hprice hlt =>
    exact h.setQuantity hs (hs.registered id p hreg).1 hlive qty
  | requeued p lvl lvl' hreg hlive hpos hqty hprice hgt hlvl hrem hwf =>
    subst hprice
    have w : Withdrawn book p lvl lvl' := ⟨(hs.registered id p hreg).1, hlive, hlvl, hrem, hwf⟩
    exact w.linked_requeued h hs qty
  | moved p lvl lvl' now hreg hlive hpos hqty hprice hlvl hrem hwf =>
    have w : Withdrawn book p lvl lvl' := ⟨(hs.registered id p hreg).1, hlive, hlvl, hrem, hwf⟩
    exact (w.linked_moved h hs hprice qty now).setFlag _

/-! ### Matching -/

namespace Iteration
variable {book book' : OrderBook P}

/-- The order that trades on a side stands at the key of its level. -/
theorem front_order (x : Iteration book book') (hs : book.Sound) (h : book.Linked)
    (side : OrderSide) : (book.order (x.ptr side)).price = (x.it side).1 ∧
      (((book.order (x.ptr side)).Live ∧
        ∃ j, (x.it side).2.ordersMap.find? (book.order (x.ptr side)).id = some j) ∨
          (book.order (x.ptr side)).status = .fullyFilled) := by
  have hlvl := hs.level _ _ _ (x.find side)
  refine (h.level _ _ _ (x.find side)).front hlvl.wf (x.head side) ?_
  intro p hp hid
  exact h.order_eq (hlvl.entries _ hp).1 (x.accepted hs side).1 hid

/-- A filled order that has come to the front has nothing to trade. -/
theorem qty_of_filled (x : Iteration book book') (hs : book.Sound) (h : book.Linked)
    {side : OrderSide} (hfilled : (book.order (x.ptr side)).status = .fullyFilled) :
    x.qty = 0 ∧ (book.order (x.ptr side)).available = 0 := by
  have hup := h.filledUp _ (x.accepted hs side).1 hfilled
  have hzero : (book.order (x.ptr side)).available = 0 := by
    show (book.slot (x.ptr side).slot).quantity - (book.slot (x.ptr side).slot).quantityFilled = 0
    rw [hup, UInt64.sub_self]
  have hle := x.qty_le side
  rw [hzero, UInt64.le_zero_iff] at hle
  exact ⟨hle, hzero⟩

/-- An order that still has something open after the trade was live before. -/
theorem live_of_unfilled (x : Iteration book book') (hs : book.Sound) (h : book.Linked)
    {side : OrderSide} (hst : (book'.order (x.ptr side)).status ≠ .fullyFilled) :
    (book.order (x.ptr side)).Live ∧ (book'.order (x.ptr side)).Live ∧
      ∃ j, (x.it side).2.ordersMap.find? (book.order (x.ptr side)).id = some j := by
  have hstatus := x.status_ptr side
  have hopen : x.qty ≠ (book.order (x.ptr side)).available := by
    intro heq
    rw [if_pos heq] at hstatus
    exact hst hstatus
  rw [if_neg hopen] at hstatus
  rcases (x.front_order hs h side).2 with ⟨hlive, hj⟩ | hfilled
  · exact ⟨hlive, Or.inr hstatus, hj⟩
  · -- The trade of quantity zero is all that a filled order has left.
    obtain ⟨hqty, hzero⟩ := x.qty_of_filled hs h hfilled
    exact absurd (hqty.trans hzero.symm) hopen

/-- The orders of a level other than the one that trades are unchanged. -/
theorem order_same (x : Iteration book book') (hs : book.Sound) {side : OrderSide} {k : P}
    {l : PriceLevel P} (hl : (book.levels side).find? k = some l) {q : OrderPtr}
    (hq : OrderEntry.queued q ∈ l.orderEntries) (hne : q.slot ≠ (x.ptr side).slot) :
    book'.order q = book.order q := by
  refine x.slot_other ?_
  intro side' heq
  by_cases hside : side' = side
  · subst hside
    exact hne heq
  · -- The order of the other side is not queued on this one.
    have hq' := ((hs.level _ k l hl).entries _ hq).2
    rw [show book.order q = book.order (x.ptr side') from congrArg book.slot heq,
      (x.accepted hs side').2] at hq'
    exact hside hq'

theorem placed (x : Iteration book book') (hs : book.Sound) (h : book.Linked) {i : ℕ}
    (hi : book.Accepted i) (hlive : (book'.slot i).Live) :
    ∃ lvl j, (book'.levels (book'.slot i).side).find? (book'.slot i).price = some lvl ∧
      lvl.ordersMap.find? (book'.slot i).id = some j := by
  obtain ⟨hid, hside, hprice, -⟩ := x.slot_same i
  -- A pop takes out a filled order only, and this one is live.
  have hnotfilled : ∀ side, (book'.order (x.ptr side)).status = .fullyFilled →
      (book.slot i).id ≠ (book.order (x.ptr side)).id := by
    intro side hst heq
    have hi' : i = (x.ptr side).slot := h.slot_inj hi (x.accepted hs side).1 heq
    rw [hi'] at hlive
    exact hlive.not_filled hst
  have hlive₀ : (book.slot i).Live := by
    rcases x.slot_cases i with ⟨-, hsame⟩ | ⟨side, now, rfl, -⟩
    · rwa [hsame] at hlive
    · exact (x.live_of_unfilled hs h hlive.not_filled).1
  obtain ⟨lvl, j, hlvl, hj⟩ := h.placed i hi hlive₀
  rw [hid, hside, hprice, x.find?]
  split
  · next hk =>
    rw [hk, x.find, Option.some.injEq] at hlvl
    subst hlvl
    have hj' : (x.lvl' (book.slot i).side).ordersMap.find? (book.slot i).id = some j := by
      rw [(x.popped _).find?_ne fun hst => ?_, hj]
      rw [show (book'.orderPool.get (x.entry (book.slot i).side).order).id = _ from
        (x.slot_same _).1]
      exact hnotfilled _ hst
    have hne : (x.lvl' (book.slot i).side).empty = false :=
      PriceLevel.empty_eq_false_iff.mpr ⟨_, _, hj'⟩
    exact ⟨_, j, by simp [hne], hj'⟩
  · exact ⟨lvl, j, hlvl, hj⟩

theorem linked_level (x : Iteration book book') (hs : book.Sound) (h : book.Linked)
    {side : OrderSide} {k : P} {l : PriceLevel P} (hl : (book'.levels side).find? k = some l) :
    l.Linked book'.orderPool.get k := by
  have hids : ∀ q : OrderPtr, (book'.orderPool.get q).id = (book.orderPool.get q).id :=
    fun q => (x.slot_same q.slot).1
  obtain ⟨hprice, -⟩ := x.front_order hs h side
  rw [x.find?] at hl
  split at hl
  · next hk =>
    split at hl
    · cases hl
    · next hne =>
      cases hl
      subst hk
      -- The entries with the id of the order that traded are its own.
      have hmem : ∀ q, OrderEntry.queued q ∈ (x.it side).2.orderEntries →
          (book.orderPool.get q).id = (book.orderPool.get (x.entry side).order).id →
          q.slot = (x.ptr side).slot := fun q hq hid =>
        h.slot_inj ((hs.level _ _ _ (x.find side)).entries _ hq).1 (x.accepted hs side).1 hid
      refine (h.level _ _ _ (x.find side)).popped (x.popped side) (fun e _ => hids e.order)
        ?_ ?_ (hids _) ((Bool.not_eq_true _).mp hne)
      · intro q hq hid
        exact x.order_same hs (x.find side) hq fun heq =>
          hid (congrArg (fun i => (book.slot i).id) heq)
      · intro q hq hid
        have hslot := hmem q hq hid
        rw [show book'.orderPool.get q = book'.order (x.ptr side) from congrArg book'.slot hslot,
          show book.orderPool.get q = book.order (x.ptr side) from congrArg book.slot hslot]
        exact ⟨(x.slot_same _).2.2.1, fun hst => hst, fun hst =>
          ⟨(x.slot_same _).1, (x.slot_same _).2.2.1,
            fun _ => (x.live_of_unfilled hs h hst).2.1,
            fun hf => absurd hf (x.live_of_unfilled hs h hst).1.not_filled⟩⟩
  · next hk =>
    refine (h.level _ _ _ hl).congr ?_ fun e _ => hids e.order
    intro q hq
    obtain ⟨j, hj⟩ := List.mem_iff_getElem?.mp hq
    have hne : q.slot ≠ (x.ptr side).slot := fun heq => hk (by
      rw [← ((h.level _ _ _ hl).keys j q hj).1, ← hprice]
      exact congrArg (fun i => (book.slot i).price) heq)
    rw [show book'.orderPool.get q = book.order q from x.order_same hs hl hq hne]
    exact .refl _

theorem linked (x : Iteration book book') (hs : book.Sound) (h : book.Linked) :
    book'.Linked where
  owned i hi := by
    rw [x.registry_eq, (x.slot_same i).1]
    exact h.owned i ((x.accepted_iff i).mp hi)
  placed i hi hlive := x.placed hs h ((x.accepted_iff i).mp hi) hlive
  filledUp i hi hst := by
    have hi := (x.accepted_iff i).mp hi
    rcases x.slot_cases i with ⟨-, hsame⟩ | ⟨side, now, rfl, hnow⟩
    · rw [hsame] at hst ⊢
      exact h.filledUp i hi hst
    · have hstatus := x.status_ptr side
      rw [show (book'.order (x.ptr side)).status = _ from hst] at hstatus
      split at hstatus
      · next hq =>
        rw [hnow]
        exact (Order.filled_add_eq_iff (hs.filled_le _ hi) (x.qty_le side)).mpr hq
      · cases hstatus
  level side k lvl hlvl := x.linked_level hs h hlvl

end Iteration

end OrderBook

/-! ### Over runs -/

namespace Session
open OrderBook
variable {P : Type} [LinearOrder P] [Zero P]

theorem preserved_linked : Preserved (P := P) FreshId Linked where
  enqueue _ _ _ id _ _ hs hG hq h := hq.linked hs (hG id rfl) h
  iterate _ _ x hs _ h := x.linked hs h
  setFlag _ h := h.setFlag false
  cancel _ _ _ _ _ hs _ ho h := ho.linked hs h
  modify _ _ _ _ _ _ _ hs _ ho h := ho.linked hs h

theorem Fresh.linked {s : Session P} (h : Fresh s) : s.book.Linked where
  owned i hi := absurd hi (h.not_accepted i)
  placed i hi := absurd hi (h.not_accepted i)
  filledUp i hi := absurd hi (h.not_accepted i)
  level side k lvl hlvl := absurd hlvl (h.no_level side k lvl)

theorem linked_of_path {s s' : Session P} {ls : List (Label P)} (hf : Fresh s)
    (hr : Path Step s ls s') (hids : (addedIds ls).Nodup) : s'.book.Linked :=
  (preserved_linked.path (hf.freshId_path hr hids) hf.sound hf.linked).2

end Session
end Orderbook
