import Orderbook.Routing
import Orderbook.Runs

/-! # The system as built

    The router and the books agree: the worker that an instrument is routed
    to keeps a book for it, and every book is one that has just been opened,
    followed only by draws of ids for other books. -/

namespace Orderbook
open Session

section Router
variable {numWorkers : ℕ} [NeZero numWorkers]

theorem find?_tryEmplace {V : Type} (m : InstrumentMap V) (k k' : Instrument) (v : V) :
    (m.tryEmplace k v).1.find? k' =
      if k' = k ∧ m.find? k = none then some v else m.find? k' := by
  cases h : m.find? k with
  | none =>
    rw [SortedMap.tryEmplace_of_none h, SortedMap.find?_insert]
    simp
  | some w =>
    rw [SortedMap.tryEmplace_of_find? h]
    simp

/-- The router sends an instrument to a worker that has been dealt it. -/
theorem routed_mem {l : List (Instrument × ℕ)}
    {acc : (Fin numWorkers → List Instrument) × InstrumentMap (Fin numWorkers)}
    (hacc : ∀ instrument w, acc.2.find? instrument = some w → instrument ∈ acc.1 w)
    (instrument : Instrument) (w : Fin numWorkers)
    (h : (l.foldl assignInstrument acc).2.find? instrument = some w) :
    instrument ∈ (l.foldl assignInstrument acc).1 w := by
  induction l generalizing acc with
  | nil => exact hacc instrument w h
  | cons e l ih =>
    apply ih _ h
    intro instrument w hw
    simp only [assignInstrument, find?_tryEmplace] at hw ⊢
    rw [Function.update_apply]
    split at hw
    · next heq =>
      cases hw
      simp [heq.1]
    · have hmem := hacc instrument w hw
      split
      · next hwe =>
        subst hwe
        exact List.mem_append_left _ hmem
      · exact hmem

/-- The instruments that the router knows are those of the list. -/
theorem routed_iff {l : List (Instrument × ℕ)}
    {acc : (Fin numWorkers → List Instrument) × InstrumentMap (Fin numWorkers)}
    (instrument : Instrument) :
    (l.foldl assignInstrument acc).2.find? instrument ≠ none ↔
      acc.2.find? instrument ≠ none ∨ instrument ∈ l.map Prod.fst := by
  induction l generalizing acc with
  | nil => simp
  | cons e l ih =>
    rw [List.foldl_cons, ih, List.map_cons, List.mem_cons]
    simp only [assignInstrument, find?_tryEmplace]
    by_cases heq : instrument = e.1
    · subst heq
      by_cases hnone : acc.2.find? e.1 = none <;> simp [hnone]
    · simp [heq]

end Router

/-! ### The books -/

variable {P : Type} [LinearOrder P] [Zero P]

/-- A book that nobody has used since it was opened, the allocator standing
    at `alloc` by now. -/
def Unused (alloc : IdAllocator) (book : OrderBook P) : Prop :=
  ∃ alloc₀ n, Fresh ⟨book, alloc₀⟩ ∧ Path Session.Step ⟨book, alloc₀⟩ (draws n) ⟨book, alloc⟩

theorem Unused.new (instrument : Instrument) (alloc : IdAllocator) (clock : Clock) :
    Unused (OrderBook.new (P := P) instrument alloc clock).2
      (OrderBook.new (P := P) instrument alloc clock).1 :=
  ⟨_, 0, ⟨instrument, alloc, clock, rfl⟩, .nil _⟩

theorem Unused.draw {alloc : IdAllocator} {book : OrderBook P} (h : Unused alloc book) :
    Unused alloc.getNextIdBlock.2 book := by
  obtain ⟨alloc₀, n, hfresh, hpath⟩ := h
  refine ⟨alloc₀, n + 1, hfresh, ?_⟩
  rw [draws, List.replicate_succ']
  exact hpath.snoc rfl

/-- Building books for a list of instruments leaves the earlier books unused. -/
theorem buildOrderbooks_spec (instruments : List Instrument) (alloc : IdAllocator)
    (clock : Clock) :
    (∀ book : OrderBook P, Unused alloc book →
      Unused (buildOrderbooks (P := P) instruments alloc clock).2.1 book) ∧
    (∀ book ∈ (buildOrderbooks (P := P) instruments alloc clock).1,
      Unused (buildOrderbooks (P := P) instruments alloc clock).2.1 book) ∧
    ∀ instrument ∈ instruments, ∃ book ∈ (buildOrderbooks (P := P) instruments alloc clock).1,
      book.instrument = instrument := by
  induction instruments generalizing alloc clock with
  | nil => simp [buildOrderbooks]
  | cons instrument instruments ih =>
    obtain ⟨hkeep, hnew, hall⟩ :=
      ih (OrderBook.new (P := P) instrument alloc clock).2 (clock.skip SPACE_RESERVE)
    refine ⟨?_, ?_, ?_⟩
    · intro book hbook
      exact hkeep book hbook.draw
    · intro book hbook
      rcases List.mem_cons.mp hbook with rfl | hbook
      · exact hkeep _ (.new instrument alloc clock)
      · exact hnew book hbook
    · intro i hi
      rcases List.mem_cons.mp hi with rfl | hi
      · exact ⟨_, List.mem_cons_self, rfl⟩
      · obtain ⟨book, hbook, heq⟩ := hall i hi
        exact ⟨book, List.mem_cons_of_mem _ hbook, heq⟩

section Contexts
variable {numWorkers bound : ℕ}

/-- What the second loop of the builder maintains, with the workers in `l`
    still to come. -/
structure ContextsInv (sets : Fin numWorkers → List Instrument) (l : List (Fin numWorkers))
    (acc : (Fin numWorkers → WorkerContext P bound) × IdAllocator × Clock) : Prop where
  queue : ∀ w, (acc.1 w).queue = .empty
  unused : ∀ w, ∀ book ∈ (acc.1 w).orderbooks, Unused acc.2.1 book
  built : ∀ w, w ∈ l ∨ ∀ instrument ∈ sets w, ∃ book ∈ (acc.1 w).orderbooks,
    book.instrument = instrument

theorem ContextsInv.add {sets : Fin numWorkers → List Instrument} {w : Fin numWorkers}
    {l : List (Fin numWorkers)} (reserveSpace : ℕ)
    {acc : (Fin numWorkers → WorkerContext P bound) × IdAllocator × Clock}
    (h : ContextsInv sets (w :: l) acc) :
    ContextsInv sets l (addWorkerContext sets reserveSpace acc w) := by
  obtain ⟨hkeep, hnew, hall⟩ := buildOrderbooks_spec (P := P) (sets w) acc.2.1 acc.2.2
  constructor
  case queue =>
    intro w'
    simp only [addWorkerContext, Function.update_apply]
    split
    · rfl
    · exact h.queue w'
  case unused =>
    intro w' book hbook
    simp only [addWorkerContext, Function.update_apply] at hbook ⊢
    split at hbook
    · exact hnew book hbook
    · exact hkeep book (h.unused w' book hbook)
  case built =>
    intro w'
    simp only [addWorkerContext, Function.update_apply]
    by_cases heq : w' = w
    · subst heq
      rw [if_pos rfl]
      exact Or.inr hall
    · rw [if_neg heq]
      rcases h.built w' with hmem | hbuilt
      · exact Or.inl ((List.mem_cons.mp hmem).resolve_left heq)
      · exact Or.inr hbuilt

theorem ContextsInv.foldl {sets : Fin numWorkers → List Instrument} {l : List (Fin numWorkers)}
    (reserveSpace : ℕ) {acc : (Fin numWorkers → WorkerContext P bound) × IdAllocator × Clock}
    (h : ContextsInv sets l acc) :
    ContextsInv sets [] (l.foldl (addWorkerContext sets reserveSpace) acc) := by
  induction l generalizing acc with
  | nil => exact h
  | cons w l ih => exact ih (h.add reserveSpace)

end Contexts

/-- The books of a list are put into a map one after the other. -/
abbrev emplaceBooks (books : InstrumentMap (OrderBook P)) (l : List (OrderBook P)) :
    InstrumentMap (OrderBook P) :=
  l.foldl (fun books book => (books.tryEmplace book.instrument book).1) books

omit [Zero P] in
/-- What is in the map was there before, or is a book of the list. -/
theorem mem_of_emplaceBooks {l : List (OrderBook P)} {books : InstrumentMap (OrderBook P)}
    {instrument : Instrument} {book : OrderBook P}
    (h : (emplaceBooks books l).find? instrument = some book) :
    books.find? instrument = some book ∨ (book ∈ l ∧ book.instrument = instrument) := by
  induction l generalizing books with
  | nil => exact Or.inl h
  | cons b l ih =>
    rcases ih h with h | ⟨h, heq⟩
    · rw [find?_tryEmplace] at h
      split at h
      · next hnew =>
        cases h
        exact Or.inr ⟨List.mem_cons_self, hnew.1.symm⟩
      · exact Or.inl h
    · exact Or.inr ⟨List.mem_cons_of_mem _ h, heq⟩

omit [Zero P] in
/-- Nothing that was there is lost. -/
theorem emplaceBooks_kept {l : List (OrderBook P)} {books : InstrumentMap (OrderBook P)}
    {instrument : Instrument} (h : books.find? instrument ≠ none) :
    (emplaceBooks books l).find? instrument ≠ none := by
  induction l generalizing books with
  | nil => exact h
  | cons b l ih =>
    apply ih
    rw [find?_tryEmplace]
    split
    · exact Option.some_ne_none _
    · exact h

omit [Zero P] in
/-- Every book of the list is found, or an earlier one of its instrument. -/
theorem emplaceBooks_found {l : List (OrderBook P)} {book : OrderBook P} (h : book ∈ l)
    (books : InstrumentMap (OrderBook P)) :
    (emplaceBooks books l).find? book.instrument ≠ none := by
  induction l generalizing books with
  | nil => cases h
  | cons b l ih =>
    rcases List.mem_cons.mp h with rfl | h
    · apply emplaceBooks_kept (l := l)
      rw [find?_tryEmplace]
      split
      · exact Option.some_ne_none _
      · next hold => exact fun hnone => hold ⟨rfl, hnone⟩
    · exact ih h _

omit [Zero P] in
/-- A worker keeps books of the list, and one for each instrument of theirs. -/
theorem ofBooks_spec (orderbooks : List (OrderBook P)) :
    (∀ instrument book, (Worker.ofBooks orderbooks).books.find? instrument = some book →
      book ∈ orderbooks ∧ book.instrument = instrument) ∧
    ∀ book ∈ orderbooks, (Worker.ofBooks orderbooks).books.find? book.instrument ≠ none := by
  constructor
  · intro instrument book h
    rcases mem_of_emplaceBooks h with h | h
    · cases h
    · exact h
  · intro book hbook
    exact emplaceBooks_found hbook .empty

/-! ### The start -/

namespace System
variable {numWorkers bound : ℕ} [NeZero numWorkers]

/-- **The system as built.** -/
theorem start_spec (instruments : List Instrument) (alloc : IdAllocator) (totalReserveSpace : ℕ)
    (clock : Clock) {x : System P numWorkers bound}
    (hx : x = start instruments alloc totalReserveSpace clock) :
    (∀ w, x.queues w = .empty) ∧
      (∀ instrument w, x.router.find? instrument = some w →
        (x.workers w).books.find? instrument ≠ none) ∧
      (∀ w instrument book, (x.workers w).books.find? instrument = some book →
        book.instrument = instrument ∧ Unused x.alloc book) ∧
      ∀ instrument, x.router.find? instrument ≠ none ↔ instrument ∈ instruments := by
  let assigned : (Fin numWorkers → List Instrument) × InstrumentMap (Fin numWorkers) :=
    assignInstruments instruments
  have hinv : ContextsInv assigned.1 (List.finRange numWorkers)
      ((fun _ => ⟨[], .empty, 0⟩, alloc, clock) :
        (Fin numWorkers → WorkerContext P bound) × IdAllocator × Clock) :=
    ⟨fun _ => rfl, by simp, fun w => Or.inl (List.mem_finRange w)⟩
  have hdone := hinv.foldl (totalReserveSpace / instruments.length + 1)
  subst hx
  refine ⟨hdone.queue, ?_, ?_, ?_⟩
  · intro instrument w hw
    have hmem := routed_mem (by simp) instrument w hw
    rcases hdone.built w with h | h
    · cases h
    · obtain ⟨book, hbook, rfl⟩ := h instrument hmem
      exact (ofBooks_spec _).2 book hbook
  · intro w instrument book hbook
    obtain ⟨hmem, heq⟩ := (ofBooks_spec _).1 instrument book hbook
    exact ⟨heq, hdone.unused w book hmem⟩
  · intro instrument
    refine (routed_iff instrument).trans ?_
    simp

end System
end Orderbook
