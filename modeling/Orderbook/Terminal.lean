import Orderbook.TradeIntegrity

/-! # Finished orders stay as they are

    A cancelled or filled order stays in the registry, and its entry may
    still be in a level.  `Order::match` does not look at the status: what
    protects a cancelled order is that it is never the front of a level.  A
    filled order can come to the front again, and then trades nothing. -/

namespace Orderbook

/-- What a finished order keeps for good. -/
structure Order.Frozen {P : Type} (o o' : Order P) : Prop where
  id : o'.id = o.id
  status : o'.status = o.status
  price : o'.price = o.price
  quantity : o'.quantity = o.quantity
  filled : o'.quantityFilled = o.quantityFilled

theorem Order.Frozen.refl {P : Type} (o : Order P) : Order.Frozen o o :=
  ⟨rfl, rfl, rfl, rfl, rfl⟩

theorem Order.Frozen.trans {P : Type} {o o' o'' : Order P} (h : Order.Frozen o o')
    (h' : Order.Frozen o' o'') : Order.Frozen o o'' where
  id := h'.id.trans h.id
  status := h'.status.trans h.status
  price := h'.price.trans h.price
  quantity := h'.quantity.trans h.quantity
  filled := h'.filled.trans h.filled

theorem Order.Frozen.not_live {P : Type} {o o' : Order P} (h : Order.Frozen o o')
    (hdead : ¬ o.Live) : ¬ o'.Live := by
  unfold Order.Live
  rw [h.status]
  exact hdead

namespace OrderBook
variable {P : Type} [LinearOrder P]

/-! ### What one operation does to a finished order -/

/-- A cancelled order is not at the front of a level. -/
theorem Iteration.ptr_ne_of_cancelled {book book' : OrderBook P} (x : Iteration book book')
    (hs : book.Sound) (h : book.Linked) {i : ℕ} (hst : (book.slot i).status = .cancelled)
    (side : OrderSide) : (x.ptr side).slot ≠ i := by
  intro heq
  rw [← heq] at hst
  rcases (x.front_order hs h side).2 with ⟨hlive, -⟩ | hfilled
  · exact Order.not_live_iff.mpr (Or.inr hst) hlive
  · rw [show (book.slot (x.ptr side).slot).status = .fullyFilled from hfilled] at hst
    cases hst

/-- A filled order that has come to the front again trades nothing. -/
theorem Iteration.frozen {book book' : OrderBook P} (x : Iteration book book') (hs : book.Sound)
    (h : book.Linked) {i : ℕ} (hdead : ¬ (book.slot i).Live) :
    Order.Frozen (book.slot i) (book'.slot i) := by
  rcases x.slot_cases i with ⟨-, hsame⟩ | ⟨side, now, rfl, hnow⟩
  · rw [hsame]
    exact .refl _
  have hst : (book.slot (x.ptr side).slot).status = .fullyFilled :=
    ((x.front_order hs h side).2).resolve_left fun hl => hdead hl.1
  obtain ⟨hqty, havail⟩ := x.qty_of_filled hs h hst
  rw [hnow, hqty]
  refine ⟨rfl, ?_, rfl, rfl, UInt64.add_zero _⟩
  rw [hst]
  exact if_pos havail.symm

/-- Writing back an order that was live leaves the finished ones alone. -/
theorem setOrder_frozen {book : OrderBook P} {p : OrderPtr} {o : Order P} {i : ℕ}
    (hlive : (book.order p).Live) (hdead : ¬ (book.slot i).Live) :
    Order.Frozen (book.slot i) ((book.setOrder p o).slot i) := by
  have hne : i ≠ p.slot := by
    intro heq
    rw [heq] at hdead
    exact hdead hlive
  rw [setOrder_slot, if_neg hne]
  exact .refl _

theorem CancelOutcome.frozen {book book' : OrderBook P} {id : OrderId} {b : Bool}
    (ho : CancelOutcome book id b book') {i : ℕ} (hdead : ¬ (book.slot i).Live) :
    Order.Frozen (book.slot i) (book'.slot i) := by
  cases ho with
  | unknown _ => exact .refl _
  | dead _ _ _ => exact .refl _
  | cancelled p lvl lvl' now hreg hlive hlvl hrem hwf => exact setOrder_frozen hlive hdead

variable [Zero P]

theorem ModifyOutcome.frozen {book book' : OrderBook P} {id : OrderId} {price : P}
    {qty : Quantity} {b : Bool} (ho : ModifyOutcome book id price qty b book') {i : ℕ}
    (hdead : ¬ (book.slot i).Live) : Order.Frozen (book.slot i) (book'.slot i) := by
  cases ho with
  | unknown _ => exact .refl _
  | dead _ _ _ => exact .refl _
  | invalid _ _ _ _ => exact .refl _
  | same _ _ _ _ _ _ _ => exact .refl _
  | reduced p hreg hlive hpos hqty hprice hlt => exact setOrder_frozen hlive hdead
  | requeued p lvl lvl' hreg hlive hpos hqty hprice hgt hlvl hrem hwf =>
    exact setOrder_frozen hlive hdead
  | moved p lvl lvl' now hreg hlive hpos hqty hprice hlvl hrem hwf =>
    exact setOrder_frozen hlive hdead

omit [Zero P] in
theorem CancelOutcome.accepted {book book' : OrderBook P} {id : OrderId} {b : Bool}
    (ho : CancelOutcome book id b book') {i : ℕ} (hi : book.Accepted i) : book'.Accepted i := by
  cases ho <;> exact hi

theorem ModifyOutcome.accepted {book book' : OrderBook P} {id : OrderId} {price : P}
    {qty : Quantity} {b : Bool} (ho : ModifyOutcome book id price qty b book') {i : ℕ}
    (hi : book.Accepted i) : book'.Accepted i := by
  cases ho <;> exact hi

/-- The order `o` was in slot `i` and is there still, unchanged. -/
structure Keeps (o : Order P) (i : ℕ) (book : OrderBook P) : Prop where
  linked : book.Linked
  accepted : book.Accepted i
  frozen : Order.Frozen o (book.slot i)

end OrderBook

/-! ### Over runs -/

namespace Session
open OrderBook
variable {P : Type} [LinearOrder P] [Zero P]

/-- **What one call preserves.** -/
theorem preserved_keeps {o : Order P} (hdead : ¬ o.Live) (i : ℕ) :
    Preserved (P := P) FreshId (Keeps o i) where
  enqueue _ _ _ id _ _ hs hG hq h := by
    refine ⟨hq.linked hs (hG id rfl) h.linked, (hq.accepted i).mpr (Or.inl h.accepted), ?_⟩
    rw [hq.kept i h.accepted]
    exact h.frozen
  iterate _ _ x hs _ h := by
    refine ⟨x.linked hs h.linked, (x.accepted_iff i).mpr h.accepted, ?_⟩
    exact h.frozen.trans (x.frozen hs h.linked (h.frozen.not_live hdead))
  setFlag _ h := ⟨h.linked.setFlag false, h.accepted, h.frozen⟩
  cancel _ _ _ _ _ hs _ ho h := by
    refine ⟨ho.linked hs h.linked, ho.accepted h.accepted, ?_⟩
    exact h.frozen.trans (ho.frozen (h.frozen.not_live hdead))
  modify _ _ _ _ _ _ _ hs _ ho h := by
    refine ⟨ho.linked hs h.linked, ho.accepted h.accepted, ?_⟩
    exact h.frozen.trans (ho.frozen (h.frozen.not_live hdead))

/-- `cancel_order` and `modify_order` refuse a finished order. -/
theorem refused_of_not_live {s : Session P} {id : OrderId} {p : OrderPtr}
    (hreg : s.book.orderRegistry.find? id = some p) (hdead : ¬ (s.book.order p).Live) :
    (∀ clock, s.step (.cancelOrder id clock) = .ok (s, .done false)) ∧
      ∀ price qty clock, s.step (.modifyOrder id price qty clock) = .ok (s, .done false) := by
  have hst := Order.not_live_iff.mp hdead
  constructor
  · intro clock
    have hcancel : s.book.cancelOrder id clock = .ok (false, s.book) := by
      simp only [cancelOrder, hreg, Order.cancel, if_pos hst]
      rfl
    simp only [step, hcancel]
    rfl
  · intro price qty clock
    have hmodify : s.book.modifyOrder id price qty clock = .ok (false, s.book) := by
      simp only [modifyOrder, hreg, if_pos hst.symm]
    simp only [step, hmodify]
    rfl

/-- **Finished orders stay as they are.**  In a run with distinct ids, an
    order that is cancelled or filled at some point has the same status,
    price, quantity and fill at every later point, also inside a further
    `add_order`; calls for it are refused, and if it is cancelled no trade
    involves it. -/
theorem terminal_forever {s s' s'' : Session P} {ls ms : List (Label P)} (hf : Fresh s)
    (hr : Path Step s ls s') (hr' : Path Step s' ms s'') (hids : (addedIds (ls ++ ms)).Nodup)
    {i : ℕ}
    (hi : s'.book.Accepted i)
    (hst : (s'.book.slot i).status = .cancelled ∨ (s'.book.slot i).status = .fullyFilled) :
    Order.Frozen (s'.book.slot i) (s''.book.slot i) ∧
      (∀ clock, s''.step (.cancelOrder (s'.book.slot i).id clock) = .ok (s'', .done false)) ∧
      (∀ price qty clock,
        s''.step (.modifyOrder (s'.book.slot i).id price qty clock) = .ok (s'', .done false)) ∧
      ∀ client clock book, s''.nextId client clock ∉ addedIds (ls ++ ms) →
        LoopHead s'' client clock book → Order.Frozen (s'.book.slot i) (book.slot i) ∧
          ∀ book', LoopStep book book' → ∃ b a q, Trade book book' b a q ∧
            ((s'.book.slot i).status = .cancelled → b.slot ≠ i ∧ a.slot ≠ i) := by
  have hdead := Order.not_live_iff.mpr hst.symm
  obtain ⟨x, hx, hx'⟩ := (hf.freshId_path (hr.append hr') hids).split
  have hsame : x = s' := hx.of_guarded.deterministic Step.deterministic hr
  subst hsame
  have hlinked := (preserved_linked.path hx hf.sound hf.linked).2
  obtain ⟨hs'', h⟩ := (preserved_keeps hdead i).path hx' (sound_of_path hf hr)
    ⟨hlinked, hi, .refl _⟩
  obtain ⟨p, hreg, hslot⟩ := h.linked.owned i h.accepted
  rw [h.frozen.id] at hreg
  have hdead'' : ¬ (s''.book.order p).Live := by
    have horder : s''.book.order p = s''.book.slot i := congrArg s''.book.slot hslot
    rw [horder]
    exact h.frozen.not_live hdead
  obtain ⟨hcancel, hmodify⟩ := refused_of_not_live hreg hdead''
  refine ⟨h.frozen, hcancel, hmodify, ?_⟩
  intro client clock book hid hhead
  have hfresh : FreshId s'' (.addOrder client clock, .orderId (s''.nextId client clock)) := by
    intro id heq
    cases heq
    by_contra hne
    exact hid ((hf.registered_iff (hr.append hr') _).mp hne)
  obtain ⟨hbs, hb⟩ := (preserved_keeps hdead i).loopHead hs'' h hfresh hhead
  refine ⟨hb.frozen, ?_⟩
  intro book' hstep
  obtain ⟨x, -⟩ := hstep.iteration hbs
  refine ⟨_, _, _, x.trade hbs, ?_⟩
  intro hcancelled
  have hst' : (book.slot i).status = .cancelled := hb.frozen.status.trans hcancelled
  exact ⟨x.ptr_ne_of_cancelled hbs hb.linked hst' .buy,
    x.ptr_ne_of_cancelled hbs hb.linked hst' .sell⟩

/-- Two buyers, the first of whom cancels. -/
def firstCancels : List (Label ℤ) :=
  [(limit .buy 100 10, .orderId 1), (limit .buy 100 5, .orderId 2), (cancel 1, .done true)]

/-- A seller comes, and the first buyer is called for again. -/
def sellerComes : List (Label ℤ) :=
  [(limit .sell 100 7, .orderId 3), (cancel 1, .done false), (amend 1 100 20, .done false)]

theorem terminal_forever_firstCancels : ∃ s' s'' : Session ℤ,
    Path Step (opening 1000) firstCancels s' ∧ Path Step s' sellerComes s'' ∧
      (s'.book.slot 0).status = .cancelled ∧ Order.Frozen (s'.book.slot 0) (s''.book.slot 0) := by
  obtain ⟨s', hs', hf⟩ := exists_path (opening 1000) firstCancels
    (fun s => decide (0 < s.book.orderPool.nextFreeIndex ∧ (s.book.slot 0).status = .cancelled) &&
      s.endsIn (sellerComes.map Prod.fst) (sellerComes.map Prod.snd) fun _ => true) (by
      simp only [opening, OrderBook.new, OrderPool.new_eq]
      decide +kernel)
  rw [Bool.and_eq_true, decide_eq_true_eq] at hf
  obtain ⟨s'', hs'', -⟩ := exists_path s' sellerComes _ hf.2
  exact ⟨s', s'', hs', hs'', hf.1.2, (terminal_forever (opening_fresh 1000) hs' hs'' (by decide)
    hf.1.1 (Or.inl hf.1.2)).1⟩

end Session
end Orderbook
