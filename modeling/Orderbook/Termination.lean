import Orderbook.Uncrossed

/-! # The matching loop ends

    The `while (true)` of `try_match`, started on any book that a run
    reaches or on such a book with one more order queued.  A trade may move
    no quantity and may leave the number of live orders as it was, but one
    of the two front orders is filled by it, so its level goes or the head
    of its queue moves on: `pendingEntries` of the two sides decreases, and
    more fuel than that changes nothing. -/

namespace Orderbook
namespace OrderBook
variable {P : Type} [LinearOrder P] {book book' : OrderBook P}

/-- The entries in front of the loop. -/
def remaining (book : OrderBook P) : ℕ := pendingEntries book.bids + pendingEntries book.asks

/-- The front order of the side is filled now, and its level is gone or the
    head of its queue has moved on. -/
def UsedUp (book book' : OrderBook P) (side : OrderSide) : Prop :=
  ∃ k lvl p, (book.levels side).front? = some (k, lvl) ∧ lvl.front = .ok p ∧
    (book'.order p).status = .fullyFilled ∧
    ((book'.levels side).find? k = none ∨
      ∃ lvl', (book'.levels side).find? k = some lvl' ∧
        lvl'.orderEntries.length = lvl.orderEntries.length ∧
        lvl.queueHeadIndex < lvl'.queueHeadIndex)

/-- What an iteration achieves. -/
structure Progress (book book' : OrderBook P) : Prop where
  usedUp : ∃ side, UsedUp book book' side
  no_level_created : ∀ side k, book'.Priced side k → book.Priced side k
  decreases : book'.remaining < book.remaining

/-! ### One iteration -/

theorem Iteration.priced (x : Iteration book book') (side : OrderSide) (k : P)
    (h : book'.Priced side k) : book.Priced side k := by
  obtain ⟨lvl, hlvl⟩ := h
  rw [x.find?] at hlvl
  split at hlvl
  · next hk => exact ⟨_, hk ▸ x.find side⟩
  · exact ⟨lvl, hlvl⟩

/-- A side whose order is filled has used up an entry or its level. -/
theorem Iteration.usedUp (x : Iteration book book') {side : OrderSide}
    (hfilled : (book'.order (x.ptr side)).status = .fullyFilled) : UsedUp book book' side := by
  have hfront : (x.it side).2.front = .ok (x.ptr side) := by
    simp only [PriceLevel.front, x.head side]
  refine ⟨(x.it side).1, (x.it side).2, x.ptr side, x.front side, hfront, hfilled, ?_⟩
  have hfind := x.find? side (x.it side).1
  rw [if_pos rfl] at hfind
  cases hempty : (x.lvl' side).empty with
  | true =>
    rw [hempty, if_pos rfl] at hfind
    exact Or.inl hfind
  | false =>
    rw [hempty, if_neg Bool.false_ne_true] at hfind
    refine Or.inr ⟨x.lvl' side, hfind, ?_⟩
    have hpopped := x.popped side
    generalize x.lvl' side = lvl' at hpopped hempty
    cases hpopped with
    | kept hnot => exact absurd hfilled hnot
    | popped n _ _ hadvanced =>
      have hhead := (hadvanced hempty).1
      exact ⟨by simp [PriceLevel.unqueued], hhead⟩

theorem LoopStep.progress (hstep : LoopStep book book') (h : book.Sound) :
    Progress book book' := by
  obtain ⟨x, -⟩ := hstep.iteration h
  obtain ⟨side, hqty⟩ := x.exists_filled
  have hfilled : (book'.order (x.ptr side)).status = .fullyFilled := by
    rw [x.status_ptr, if_pos hqty]
  exact ⟨⟨side, x.usedUp hfilled⟩, x.priced, x.pending_lt⟩

theorem LoopStep.sound (hstep : LoopStep book book') (h : book.Sound) : book'.Sound := by
  obtain ⟨x, -⟩ := hstep.iteration h
  exact x.sound h

/-! ### All iterations -/

/-- From a sound book the loop cannot go on for ever. -/
theorem Sound.loop_acc (h : book.Sound) :
    Acc (fun after before : OrderBook P => LoopStep before after) book := by
  -- Induction on what remains; soundness is carried along.
  induction hn : book.remaining using Nat.strong_induction_on generalizing book with
  | _ n ih =>
    constructor
    intro book' hstep
    have hlt := (hstep.progress h).decreases
    rw [hn] at hlt
    exact ih book'.remaining hlt (hstep.sound h) rfl

/-- A loop that has ended by itself does not see more fuel. -/
theorem tryMatchLoop_succ {fuel : ℕ} {clock : Clock} {matched : Bool} {r : Bool × OrderBook P}
    (h : tryMatchLoop fuel clock matched book = .ok r) :
    tryMatchLoop (fuel + 1) clock matched book = .ok r := by
  induction fuel generalizing book clock matched with
  | zero => simp [tryMatchLoop] at h
  | succ fuel ih =>
    rw [tryMatchLoop] at h ⊢
    cases hb : book.bids.front? with
    | none => simpa only [hb] using h
    | some bidIt =>
      cases ha : book.asks.front? with
      | none => simpa only [hb, ha] using h
      | some askIt =>
        simp only [hb, ha] at h ⊢
        split at h
        · next hle =>
          rw [if_pos hle]
          cases hbest : book.matchBest bidIt askIt clock with
          | error e =>
            rw [hbest] at h
            cases h
          | ok book₁ =>
            rw [hbest] at h
            exact ih h
        · next hlt => rwa [if_neg hlt]

theorem tryMatchLoop_mono {fuel fuel' : ℕ} (hle : fuel ≤ fuel') {clock : Clock} {matched : Bool}
    {r : Bool × OrderBook P} (h : tryMatchLoop fuel clock matched book = .ok r) :
    tryMatchLoop fuel' clock matched book = .ok r := by
  induction hle with
  | refl => exact h
  | step _ ih => exact tryMatchLoop_succ ih

/-- Any fuel beyond what remains gives the one result of the loop. -/
theorem Sound.loop_ends (h : book.Sound) (clock : Clock) (matched : Bool) :
    ∃ matched' book', (∀ fuel, book.remaining < fuel →
        tryMatchLoop fuel clock matched book = .ok (matched', book')) ∧ book'.Uncrossed := by
  obtain ⟨matched', last, book', hok, -, hun, hor⟩ :=
    tryMatchLoop_ok h (Nat.lt_succ_self book.remaining) clock matched
  refine ⟨matched', book', ?_, ?_⟩
  · intro fuel hfuel
    exact tryMatchLoop_mono hfuel hok
  · rcases hor with rfl | rfl
    · exact hun
    · exact hun.mono fun _ _ hk => hk

end OrderBook

/-! ### Over runs -/

namespace Session
open OrderBook
variable {P : Type} [LinearOrder P] [Zero P]

/-- A book on which the loop may be started: the one reached, or the same with
    one more order queued, as `add_order` starts it. -/
def LoopStart (s : Session P) (book : OrderBook P) : Prop :=
  book = s.book ∨ ∃ client clock, book = (s.book.enqueueOrder s.alloc client clock).2.1

theorem LoopStart.sound {s : Session P} {book : OrderBook P} (h : LoopStart s book)
    (hs : s.book.Sound) : book.Sound := by
  rcases h with rfl | ⟨client, clock, rfl⟩
  · exact hs
  · obtain ⟨p, hq⟩ := enqueueOrder_spec hs.pool s.alloc client clock
    exact hq.sound hs

/-- **The loop ends.**  Started on any book that a run reaches, every
    iteration makes progress and creates no level, there is no infinite
    sequence of iterations, and the loop returns with a side empty or the
    best bid below the best ask. -/
theorem try_match_terminates {s s' : Session P} {ls : List (Label P)} (hf : Fresh s)
    (hr : Path Step s ls s') {start book : OrderBook P} (hstart : LoopStart s' start)
    (hb : Relation.ReflTransGen LoopStep start book) :
    (∀ book', LoopStep book book' → Progress book book') ∧
      Acc (fun after before : OrderBook P => LoopStep before after) book ∧
      ∀ clock matched, ∃ matched' book', (∀ fuel, book.remaining < fuel →
        tryMatchLoop fuel clock matched book = .ok (matched', book')) ∧ book'.Uncrossed := by
  have hs : book.Sound :=
    (loop_invariant (I := fun _ => True) (fun _ _ _ _ _ _ => trivial) hb
      (hstart.sound (sound_of_path hf hr)) trivial).1
  exact ⟨fun book' hstep => hstep.progress hs, hs.loop_acc, hs.loop_ends⟩

/-- Two sellers at 100, the first with nothing to sell, and a buyer that is
    queued against them. -/
theorem try_match_terminates_zeroQuantity :
    ∃ s : Session ℤ, Path Step (opening 1000)
        [(limit .sell 100 0, .orderId 1), (limit .sell 100 5, .orderId 2)] s ∧
      ∃ start, LoopStart s start ∧ start.bids.front?.map Prod.fst = some 100 ∧
        start.asks.front?.map Prod.fst = some 100 ∧ start.remaining = 3 ∧
        (∀ book', LoopStep start book' → Progress start book') ∧
        Acc (fun after before : OrderBook ℤ => LoopStep before after) start ∧
        ∀ clock matched, ∃ matched' book', (∀ fuel, start.remaining < fuel →
          tryMatchLoop fuel clock matched start = .ok (matched', book')) ∧ book'.Uncrossed := by
  obtain ⟨s, hs, hf⟩ := exists_path (opening 1000)
    [(limit .sell 100 0, .orderId 1), (limit .sell 100 5, .orderId 2)]
    (fun s =>
      let start := (s.book.enqueueOrder s.alloc (ticket .buy 100 8) fun _ => 0).2.1
      start.bids.front?.map Prod.fst = some 100 ∧ start.asks.front?.map Prod.fst = some 100 ∧
        start.remaining = 3) (by
      simp only [opening, OrderBook.new, OrderPool.new_eq]
      decide +kernel)
  obtain ⟨hbid, hask, hrem⟩ := of_decide_eq_true hf
  have hstart : LoopStart s (s.book.enqueueOrder s.alloc (ticket .buy 100 8) fun _ => 0).2.1 :=
    Or.inr ⟨_, _, rfl⟩
  exact ⟨s, hs, _, hstart, hbid, hask, hrem,
    try_match_terminates (opening_fresh 1000) hs hstart .refl⟩

end Session
end Orderbook
