import Orderbook.Assignment
import Orderbook.SharedIds

/-! # Id blocks of the books as built

    Every book that `build_order_routing_system` constructs draws its first
    block of ids, one after the other, so no two of them hold the same id. -/

namespace Orderbook
variable {P : Type} [LinearOrder P]

/-- The ids of its block that a book has not given out. -/
def OrderBook.Holds (book : OrderBook P) (n : ℕ) : Prop :=
  book.nextAvailableOrderId.toNat ≤ n ∧ n < book.orderIdBlock.stop.toNat

/-- The book has what it holds between `lo` and `hi`. -/
structure OrderBook.HoldsWithin (lo hi : ℕ) (book : OrderBook P) : Prop where
  lo_le : lo ≤ book.nextAvailableOrderId.toNat
  cursor_le : book.nextAvailableOrderId ≤ book.orderIdBlock.stop
  le_hi : book.orderIdBlock.stop.toNat ≤ hi

/-- No id is held by both books. -/
def OrderBook.Apart (book book' : OrderBook P) : Prop := ∀ n, book.Holds n → ¬ book'.Holds n

theorem OrderBook.Apart.symm {book book' : OrderBook P} (h : book.Apart book') :
    book'.Apart book := fun n hn' hn => h n hn hn'

theorem OrderBook.HoldsWithin.mono {lo hi lo' hi' : ℕ} {book : OrderBook P}
    (h : book.HoldsWithin lo hi) (hlo : lo' ≤ lo) (hhi : hi ≤ hi') : book.HoldsWithin lo' hi' :=
  ⟨hlo.trans h.lo_le, h.cursor_le, h.le_hi.trans hhi⟩

theorem OrderBook.HoldsWithin.apart {lo mid hi : ℕ} {book book' : OrderBook P}
    (h : book.HoldsWithin lo mid) (h' : book'.HoldsWithin mid hi) : book.Apart book' := by
  intro n hn hn'
  have hle := h.le_hi
  have hle' := h'.lo_le
  have hlt := hn.2
  have hge := hn'.1
  omega

variable [Zero P]

theorem new_holdsWithin (instrument : Instrument) (alloc : IdAllocator) (clock : Clock)
    (hroom : alloc.globalCounter.toNat + alloc.blockSize.toNat < 2 ^ 64) :
    (OrderBook.new (P := P) instrument alloc clock).1.HoldsWithin alloc.globalCounter.toNat
      (alloc.globalCounter.toNat + alloc.blockSize.toNat) where
  lo_le := Nat.le_refl _
  cursor_le := by
    show alloc.globalCounter ≤ alloc.globalCounter + alloc.blockSize
    rw [UInt64.le_iff_toNat_le, Exchange.block_toNat hroom]
    omega
  le_hi := by
    show (alloc.globalCounter + alloc.blockSize).toNat ≤ _
    rw [Exchange.block_toNat hroom]

/-- The books of one worker: where the counter stands afterwards, and what the
    books hold. -/
theorem buildOrderbooks_blocks (instruments : List Instrument) (alloc : IdAllocator)
    (clock : Clock)
    (hroom : alloc.globalCounter.toNat + alloc.blockSize.toNat * instruments.length < 2 ^ 64) :
    (buildOrderbooks (P := P) instruments alloc clock).2.1.blockSize = alloc.blockSize ∧
      (buildOrderbooks (P := P) instruments alloc clock).2.1.globalCounter.toNat =
        alloc.globalCounter.toNat + alloc.blockSize.toNat * instruments.length ∧
      (∀ book ∈ (buildOrderbooks (P := P) instruments alloc clock).1,
        book.HoldsWithin alloc.globalCounter.toNat
          (alloc.globalCounter.toNat + alloc.blockSize.toNat * instruments.length)) ∧
      (buildOrderbooks (P := P) instruments alloc clock).1.Pairwise OrderBook.Apart := by
  induction instruments generalizing alloc clock with
  | nil => simp [buildOrderbooks]
  | cons instrument instruments ih =>
    rw [List.length_cons, Nat.mul_succ] at hroom
    have hone : alloc.globalCounter.toNat + alloc.blockSize.toNat < 2 ^ 64 := by omega
    have hcounter := Exchange.block_toNat hone
    obtain ⟨hsize, hnext, hwithin, happart⟩ := ih
      (OrderBook.new (P := P) instrument alloc clock).2 (clock.skip SPACE_RESERVE) (by
        show (alloc.globalCounter + alloc.blockSize).toNat + alloc.blockSize.toNat * _ < _
        omega)
    have hnext : (buildOrderbooks (P := P) instruments
        (OrderBook.new (P := P) instrument alloc clock).2
          (clock.skip SPACE_RESERVE)).2.1.globalCounter.toNat =
        (alloc.globalCounter + alloc.blockSize).toNat +
          alloc.blockSize.toNat * instruments.length := hnext
    have hwithin : ∀ book ∈ (buildOrderbooks (P := P) instruments
        (OrderBook.new (P := P) instrument alloc clock).2 (clock.skip SPACE_RESERVE)).1,
        book.HoldsWithin (alloc.globalCounter + alloc.blockSize).toNat
          ((alloc.globalCounter + alloc.blockSize).toNat +
            alloc.blockSize.toNat * instruments.length) := hwithin
    have hnew := new_holdsWithin (P := P) instrument alloc clock hone
    rw [hcounter] at hnext hwithin
    refine ⟨hsize, ?_, ?_, ?_⟩
    · rw [List.length_cons, Nat.mul_succ]
      refine hnext.trans ?_
      omega
    · intro book hbook
      rw [List.length_cons, Nat.mul_succ]
      rcases List.mem_cons.mp hbook with rfl | hbook
      · exact hnew.mono (Nat.le_refl _) (by omega)
      · exact (hwithin book hbook).mono (by omega) (by omega)
    · -- What the new book holds is before what the later ones do.
      exact List.pairwise_cons.mpr ⟨fun book hbook => hnew.apart (hwithin book hbook), happart⟩

section Contexts
variable {numWorkers bound : ℕ}

/-- How many instruments have been dealt to the workers of the list. -/
def dealt (sets : Fin numWorkers → List Instrument) (ws : List (Fin numWorkers)) : ℕ :=
  (ws.map fun w => (sets w).length).sum

/-- What the second loop of the builder maintains, `lo` being where the counter
    stood before it and `ws` the workers whose context is built. -/
structure BlocksInv (sets : Fin numWorkers → List Instrument) (alloc : IdAllocator)
    (ws : List (Fin numWorkers))
    (acc : (Fin numWorkers → WorkerContext P bound) × IdAllocator × Clock) : Prop where
  size_eq : acc.2.1.blockSize = alloc.blockSize
  counter_eq : acc.2.1.globalCounter.toNat =
    alloc.globalCounter.toNat + alloc.blockSize.toNat * dealt sets ws
  within : ∀ w, ∀ book ∈ (acc.1 w).orderbooks,
    book.HoldsWithin alloc.globalCounter.toNat acc.2.1.globalCounter.toNat
  apart : ∀ w, (acc.1 w).orderbooks.Pairwise OrderBook.Apart
  workers_apart : ∀ w w', w ≠ w' → ∀ book ∈ (acc.1 w).orderbooks,
    ∀ book' ∈ (acc.1 w').orderbooks, book.Apart book'

theorem BlocksInv.add {sets : Fin numWorkers → List Instrument} {alloc : IdAllocator}
    {ws : List (Fin numWorkers)} {w : Fin numWorkers} (reserveSpace : ℕ)
    {acc : (Fin numWorkers → WorkerContext P bound) × IdAllocator × Clock}
    (h : BlocksInv sets alloc ws acc)
    (hroom : alloc.globalCounter.toNat + alloc.blockSize.toNat * dealt sets (ws ++ [w]) < 2 ^ 64) :
    BlocksInv sets alloc (ws ++ [w]) (addWorkerContext sets reserveSpace acc w) := by
  have hdealt : dealt sets (ws ++ [w]) = dealt sets ws + (sets w).length := by simp [dealt]
  rw [hdealt, Nat.mul_add] at hroom
  obtain ⟨hsize, hnext, hwithin, happart⟩ := buildOrderbooks_blocks (P := P) (sets w) acc.2.1
    acc.2.2 (by rw [h.size_eq, h.counter_eq]; omega)
  rw [h.size_eq] at hsize hnext hwithin
  have hold : ∀ w', ∀ book ∈ (acc.1 w').orderbooks, ∀ book' ∈
      (buildOrderbooks (P := P) (sets w) acc.2.1 acc.2.2).1, book.Apart book' :=
    fun w' book hbook book' hbook' => (h.within w' book hbook).apart (hwithin book' hbook')
  constructor
  case size_eq => exact hsize
  case counter_eq =>
    rw [hdealt, Nat.mul_add]
    refine hnext.trans ?_
    rw [h.counter_eq]
    omega
  case within =>
    intro w' book hbook
    simp only [addWorkerContext, Function.update_apply] at hbook ⊢
    rw [hnext]
    split at hbook
    · exact (hwithin book hbook).mono (by rw [h.counter_eq]; omega) (Nat.le_refl _)
    · exact (h.within w' book hbook).mono (Nat.le_refl _) (Nat.le_add_right _ _)
  case apart =>
    intro w'
    simp only [addWorkerContext, Function.update_apply]
    split
    · exact happart
    · exact h.apart w'
  case workers_apart =>
    intro w₁ w₂ hne book hbook book' hbook'
    simp only [addWorkerContext, Function.update_apply] at hbook hbook'
    split at hbook
    · next heq =>
      split at hbook'
      · next heq' => exact absurd (heq.trans heq'.symm) hne
      · exact (hold w₂ book' hbook' book hbook).symm
    · split at hbook'
      · exact hold w₁ book hbook book' hbook'
      · exact h.workers_apart w₁ w₂ hne book hbook book' hbook'

theorem BlocksInv.foldl {sets : Fin numWorkers → List Instrument} {alloc : IdAllocator}
    {ws ws' : List (Fin numWorkers)} (reserveSpace : ℕ)
    {acc : (Fin numWorkers → WorkerContext P bound) × IdAllocator × Clock}
    (h : BlocksInv sets alloc ws acc)
    (hroom : alloc.globalCounter.toNat + alloc.blockSize.toNat * dealt sets (ws ++ ws') < 2 ^ 64) :
    BlocksInv sets alloc (ws ++ ws') (ws'.foldl (addWorkerContext sets reserveSpace) acc) := by
  induction ws' generalizing ws acc with
  | nil =>
    rw [List.append_nil]
    exact h
  | cons w ws' ih =>
    rw [List.append_cons] at hroom
    have hle : dealt sets (ws ++ [w]) ≤ dealt sets (ws ++ [w] ++ ws') := by simp [dealt]
    have hmul := Nat.mul_le_mul_left alloc.blockSize.toNat hle
    have hdone := ih (h.add (w := w) reserveSpace (by omega)) hroom
    rwa [← List.append_cons] at hdone

end Contexts

/-! ### The start -/

namespace System
variable {numWorkers bound : ℕ} [NeZero numWorkers]

theorem dealt_assignInstrument
    (acc : (Fin numWorkers → List Instrument) × InstrumentMap (Fin numWorkers))
    (e : Instrument × ℕ) :
    dealt (assignInstrument acc e).1 (List.finRange numWorkers) =
      dealt acc.1 (List.finRange numWorkers) + 1 := by
  simp only [dealt, ← Fin.sum_univ_def, assignInstrument]
  have hlen : ∀ w, (Function.update acc.1 (Fin.ofNat numWorkers e.2)
      (acc.1 (Fin.ofNat numWorkers e.2) ++ [e.1]) w).length =
      (acc.1 w).length + if w = Fin.ofNat numWorkers e.2 then 1 else 0 := by
    intro w
    rw [Function.update_apply]
    split
    · next heq => simp [heq]
    · rfl
  rw [Finset.sum_congr rfl fun w _ => hlen w, Finset.sum_add_distrib, Finset.sum_ite_eq']
  simp

/-- Every instrument of the list is dealt to one worker. -/
theorem dealt_assignInstruments (instruments : List Instrument) :
    dealt (assignInstruments instruments : (Fin numWorkers → List Instrument) × _).1
      (List.finRange numWorkers) = instruments.length := by
  have hgen : ∀ (l : List (Instrument × ℕ))
      (acc : (Fin numWorkers → List Instrument) × InstrumentMap (Fin numWorkers)),
      dealt (l.foldl assignInstrument acc).1 (List.finRange numWorkers) =
        dealt acc.1 (List.finRange numWorkers) + l.length := by
    intro l
    induction l with
    | nil => exact fun acc => rfl
    | cons e l ih =>
      intro acc
      rw [List.foldl_cons, ih, List.length_cons, dealt_assignInstrument]
      omega
  rw [assignInstruments, hgen, List.length_zipIdx]
  simp [dealt]

/-- **The blocks of the books as built**: every block drawn so far belongs to
    one book of the list, and no two books that the workers keep hold the same
    id. -/
theorem start_blocks (instruments : List Instrument) (alloc : IdAllocator) (totalReserveSpace : ℕ)
    (clock : Clock) {x : System P numWorkers bound}
    (hx : x = start instruments alloc totalReserveSpace clock)
    (hroom : alloc.globalCounter.toNat + alloc.blockSize.toNat * instruments.length < 2 ^ 64) :
    x.alloc.blockSize = alloc.blockSize ∧
      x.alloc.globalCounter.toNat =
        alloc.globalCounter.toNat + alloc.blockSize.toNat * instruments.length ∧
      (∀ w instrument book, (x.workers w).books.find? instrument = some book →
        book.HoldsWithin alloc.globalCounter.toNat x.alloc.globalCounter.toNat) ∧
      ∀ w instrument book w' instrument' book',
        (x.workers w).books.find? instrument = some book →
        (x.workers w').books.find? instrument' = some book' →
        (w, instrument) ≠ (w', instrument') → book.Apart book' := by
  let assigned : (Fin numWorkers → List Instrument) × InstrumentMap (Fin numWorkers) :=
    assignInstruments instruments
  have hdealt : dealt assigned.1 (List.finRange numWorkers) = instruments.length :=
    dealt_assignInstruments instruments
  have hinv : BlocksInv assigned.1 alloc []
      ((fun _ => ⟨[], .empty, 0⟩, alloc, clock) :
        (Fin numWorkers → WorkerContext P bound) × IdAllocator × Clock) :=
    ⟨rfl, by simp [dealt], by simp, by simp, by simp⟩
  have hdone : BlocksInv assigned.1 alloc ([] ++ List.finRange numWorkers) _ :=
    hinv.foldl (totalReserveSpace / instruments.length + 1) (by
      rw [List.nil_append, hdealt]
      exact hroom)
  rw [List.nil_append] at hdone
  have hcounter := hdone.counter_eq
  rw [hdealt] at hcounter
  subst hx
  refine ⟨hdone.size_eq, hcounter, ?_, ?_⟩
  · intro w instrument book hbook
    exact hdone.within w book ((ofBooks_spec _).1 instrument book hbook).1
  · intro w instrument book w' instrument' book' hbook hbook' hne
    obtain ⟨hmem, heq⟩ := (ofBooks_spec _).1 instrument book hbook
    obtain ⟨hmem', heq'⟩ := (ofBooks_spec _).1 instrument' book' hbook'
    by_cases hw : w = w'
    · subst hw
      have : Std.Symm (OrderBook.Apart (P := P)) := ⟨fun _ _ h => h.symm⟩
      apply (hdone.apart w).forall hmem hmem'
      intro hsame
      rw [hsame, heq'] at heq
      exact hne (by rw [heq])
    · exact hdone.workers_apart w w' hw book hmem book' hmem'

end System
end Orderbook
