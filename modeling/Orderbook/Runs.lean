import Orderbook.Matching
import Orderbook.Amending

/-! # Runs of a book

    What one event does to a session, and the rule by which invariants are
    carried over whole runs and through the iterations of the matching loop. -/

namespace Orderbook
open OrderBook

namespace Session
variable {P : Type} [LinearOrder P] [Zero P]

/-- A labelled event: what was called and what it returned. -/
abbrev Label (P : Type) : Type := Event P × Reply

/-- What one event can have done. -/
inductive StepOutcome (s : Session P) : Label P → Session P → Prop where
  | added (client : Order P) (clock : Clock) (id : OrderId) (p : OrderPtr)
      (queued last book' : OrderBook P) (alloc' : IdAllocator) :
      Enqueued s.book client id p queued → Relation.ReflTransGen LoopStep queued last →
      (queued.tryMatchFlag = true → Uncrossed last) →
      (queued.tryMatchFlag = false → last = queued) →
      (book' = last ∨ book' = { last with tryMatchFlag := false }) →
      StepOutcome s (.addOrder client clock, .orderId id) ⟨book', alloc'⟩
  | cancelled (id : OrderId) (clock : Clock) (b : Bool) (book' : OrderBook P) :
      CancelOutcome s.book id b book' →
      StepOutcome s (.cancelOrder id clock, .done b) ⟨book', s.alloc⟩
  | modified (id : OrderId) (price : P) (qty : Quantity) (clock : Clock) (b : Bool)
      (book' : OrderBook P) : ModifyOutcome s.book id price qty b book' →
      StepOutcome s (.modifyOrder id price qty clock, .done b) ⟨book', s.alloc⟩
  | drew : StepOutcome s (.otherDraws, .silent) ⟨s.book, s.alloc.getNextIdBlock.2⟩

theorem Step.outcome {s s' : Session P} {l : Label P} (hs : Step s l s') (h : s.book.Sound) :
    StepOutcome s l s' := by
  obtain ⟨e, r⟩ := l
  simp only [Step] at hs
  cases e with
  | addOrder client clock =>
    obtain ⟨id, p, queued, last, book', alloc', hq, hok, hsteps, hun, hsame, hor⟩ :=
      addOrder_ok h s.alloc client clock
    simp only [step, hok, bind, Except.bind, Except.ok.injEq, Prod.mk.injEq] at hs
    obtain ⟨rfl, rfl⟩ := hs
    exact .added client clock id p queued last book' alloc' hq hsteps hun hsame hor
  | cancelOrder id clock =>
    rcases cancelOrder_cases h id clock with ⟨b, book', hok, ho⟩ | ⟨herr, -⟩
    · simp only [step, hok, bind, Except.bind, Except.ok.injEq, Prod.mk.injEq] at hs
      obtain ⟨rfl, rfl⟩ := hs
      exact .cancelled id clock b book' ho
    · simp [step, herr, bind, Except.bind] at hs
  | modifyOrder id price qty clock =>
    rcases modifyOrder_cases h id price qty clock with ⟨b, book', hok, ho⟩ | ⟨herr, -⟩
    · simp only [step, hok, bind, Except.bind, Except.ok.injEq, Prod.mk.injEq] at hs
      obtain ⟨rfl, rfl⟩ := hs
      exact .modified id price qty clock b book' ho
    · simp [step, herr, bind, Except.bind] at hs
  | otherDraws =>
    simp only [step, Except.ok.injEq, Prod.mk.injEq] at hs
    obtain ⟨rfl, rfl⟩ := hs
    exact .drew

theorem Step.deterministic (s : Session P) (l : Label P) (s₁ s₂ : Session P) (h₁ : Step s l s₁)
    (h₂ : Step s l s₂) : s₁ = s₂ := by
  have h := h₁.symm.trans h₂
  simpa using h

/-- On a sound book every `add_order` returns, and the other two calls do
    unless they look for a level that is not there. -/
theorem step_ok {s : Session P} (h : s.book.Sound) (e : Event P) :
    (∃ s' r, s.step e = .ok (s', r)) ∨ (s.step e = .error .endIterator ∧ ¬ s.book.Findable) := by
  cases e with
  | addOrder client clock =>
    obtain ⟨id, p, queued, last, book', alloc', hq, hok, -⟩ := addOrder_ok h s.alloc client clock
    exact Or.inl ⟨⟨book', alloc'⟩, .orderId id, by simp only [step, hok, bind, Except.bind]⟩
  | cancelOrder id clock =>
    rcases cancelOrder_cases h id clock with ⟨b, book', hok, ho⟩ | ⟨herr, hf⟩
    · exact Or.inl ⟨⟨book', s.alloc⟩, .done b, by simp only [step, hok, bind, Except.bind]⟩
    · exact Or.inr ⟨by simp only [step, herr, bind, Except.bind], hf⟩
  | modifyOrder id price qty clock =>
    rcases modifyOrder_cases h id price qty clock with ⟨b, book', hok, ho⟩ | ⟨herr, hf⟩
    · exact Or.inl ⟨⟨book', s.alloc⟩, .done b, by simp only [step, hok, bind, Except.bind]⟩
    · exact Or.inr ⟨by simp only [step, herr, bind, Except.bind], hf⟩
  | otherDraws => exact Or.inl ⟨_, _, rfl⟩

/-- The book at the start of some iteration of the loop inside an `add_order`
    call of this session. -/
def LoopHead (s : Session P) (client : Order P) (clock : Clock) (book : OrderBook P) : Prop :=
  (s.book.enqueueOrder s.alloc client clock).2.1.tryMatchFlag = true ∧
    Relation.ReflTransGen LoopStep (s.book.enqueueOrder s.alloc client clock).2.1 book

/-- What has to be shown of an invariant of the runs whose steps meet `G`. -/
structure Preserved (G : Session P → Label P → Prop) (Inv : OrderBook P → Prop) : Prop where
  enqueue : ∀ s client clock id p queued, s.book.Sound →
    G s (.addOrder client clock, .orderId id) → Enqueued s.book client id p queued →
    Inv s.book → Inv queued
  iterate : ∀ book book' (x : Iteration book book'), book.Sound →
    (x.it .sell).1 ≤ (x.it .buy).1 → Inv book → Inv book'
  setFlag : ∀ book, Inv book → Inv { book with tryMatchFlag := false }
  cancel : ∀ s id clock b book', s.book.Sound → G s (.cancelOrder id clock, .done b) →
    CancelOutcome s.book id b book' → Inv s.book → Inv book'
  modify : ∀ s id price qty clock b book', s.book.Sound →
    G s (.modifyOrder id price qty clock, .done b) →
    ModifyOutcome s.book id price qty b book' → Inv s.book → Inv book'

section Rules
variable {G : Session P → Label P → Prop} {Inv : OrderBook P → Prop}

theorem Preserved.step (hp : Preserved G Inv) {s s' : Session P} {l : Label P}
    (hs : Guarded G Step s l s') (h : s.book.Sound ∧ Inv s.book) :
    s'.book.Sound ∧ Inv s'.book := by
  obtain ⟨hG, hs⟩ := hs
  cases hs.outcome h.1 with
  | added client clock id p queued last book' alloc' hq hsteps hun hsame hor =>
    -- Queueing, then iteration by iteration, then the flag.
    have hlast := loop_invariant hp.iterate hsteps (hq.sound h.1)
      (hp.enqueue s client clock id p queued h.1 hG hq h.2)
    rcases hor with rfl | rfl
    · exact hlast
    · exact ⟨hlast.1.setFlag false, hp.setFlag _ hlast.2⟩
  | cancelled id clock b book' ho =>
    exact ⟨ho.sound h.1, hp.cancel s id clock b book' h.1 hG ho h.2⟩
  | modified id price qty clock b book' ho =>
    exact ⟨ho.sound h.1, hp.modify s id price qty clock b book' h.1 hG ho h.2⟩
  | drew => exact h

/-- **Invariant rule for runs.** -/
theorem Preserved.path (hp : Preserved G Inv) {s s' : Session P} {ls : List (Label P)}
    (hr : Path (Guarded G Step) s ls s') (h : s.book.Sound) (hinv : Inv s.book) :
    s'.book.Sound ∧ Inv s'.book :=
  hr.invariant (I := fun s => s.book.Sound ∧ Inv s.book) (fun _ _ _ h hs => hp.step hs h)
    ⟨h, hinv⟩

/-- **Invariant rule inside `add_order`.** -/
theorem Preserved.loopHead (hp : Preserved G Inv) {s : Session P} {client : Order P}
    {clock : Clock} {book : OrderBook P} (h : s.book.Sound) (hinv : Inv s.book)
    (hG : G s (.addOrder client clock,
      .orderId (s.book.enqueueOrder s.alloc client clock).1))
    (hb : LoopHead s client clock book) : book.Sound ∧ Inv book := by
  obtain ⟨p, hq⟩ := enqueueOrder_spec h.pool s.alloc client clock
  exact loop_invariant hp.iterate hb.2 (hq.sound h)
    (hp.enqueue s client clock _ p _ h hG hq hinv)

end Rules

/-- Soundness is kept by every step, with no condition on it. -/
theorem preserved_sound : Preserved (P := P) (fun _ _ => True) (fun _ => True) :=
  ⟨fun _ _ _ _ _ _ _ _ _ _ => trivial, fun _ _ _ _ _ _ => trivial, fun _ _ => trivial,
    fun _ _ _ _ _ _ _ _ _ => trivial, fun _ _ _ _ _ _ _ _ _ _ _ => trivial⟩

theorem Step.sound {s s' : Session P} {l : Label P} (hs : Step s l s') (h : s.book.Sound) :
    s'.book.Sound :=
  (preserved_sound.step ⟨trivial, hs⟩ ⟨h, trivial⟩).1

/-! ### Where runs start -/

theorem Fresh.book_eq {s : Session P} (h : Fresh s) :
    (∀ side, s.book.levels side = .empty) ∧ s.book.orderRegistry = .empty ∧
      s.book.orderPool.nextFreeIndex = 0 ∧ s.book.tradesCompleted = 0 ∧
      ∃ clock, s.book.orderPool = OrderPool.new SPACE_RESERVE clock := by
  obtain ⟨instrument, alloc, clock, hnew⟩ := h
  have hbook : s.book = (OrderBook.new instrument alloc clock).1 := by rw [hnew]
  rw [hbook]
  exact ⟨fun _ => rfl, rfl, rfl, rfl, clock, rfl⟩

theorem Fresh.not_accepted {s : Session P} (h : Fresh s) (i : ℕ) : ¬ s.book.Accepted i := by
  unfold Accepted
  rw [h.book_eq.2.2.1]
  exact Nat.not_lt_zero i

theorem Fresh.no_level {s : Session P} (h : Fresh s) (side : OrderSide) (price : P)
    (lvl : PriceLevel P) : (s.book.levels side).find? price ≠ some lvl := by
  rw [h.book_eq.1]
  exact nofun

theorem Fresh.no_order {s : Session P} (h : Fresh s) (id : OrderId) :
    s.book.orderRegistry.find? id = none := by
  rw [h.book_eq.2.1]
  rfl

theorem Fresh.sound {s : Session P} (h : Fresh s) : s.book.Sound := by
  obtain ⟨-, -, -, -, clock, hpool⟩ := h.book_eq
  constructor
  case pool =>
    rw [hpool]
    exact OrderPool.new_sound (by decide) clock
  case filled_le => exact fun i hi => absurd hi (h.not_accepted i)
  case registered =>
    intro id p hp
    rw [h.no_order] at hp
    cases hp
  case level => exact fun side k lvl hlvl => absurd hlvl (h.no_level side k lvl)

/-- Every book that a run reaches is sound. -/
theorem sound_of_path {s s' : Session P} {ls : List (Label P)} (hf : Fresh s)
    (hr : Path Step s ls s') : s'.book.Sound :=
  (preserved_sound.path (hr.mono fun _ _ _ h => ⟨trivial, h⟩) hf.sound trivial).1

/-! ### Distinct ids -/

/-- The id that an `add_order` returns is not registered yet. -/
def FreshId (s : Session P) (l : Label P) : Prop :=
  ∀ id, l.2 = .orderId id → s.book.orderRegistry.find? id = none

omit [Zero P] in
theorem CancelOutcome.registry_eq {book book' : OrderBook P} {id : OrderId} {b : Bool}
    (ho : CancelOutcome book id b book') : book'.orderRegistry = book.orderRegistry := by
  cases ho <;> rfl

theorem ModifyOutcome.registry_eq {book book' : OrderBook P} {id : OrderId} {price : P}
    {qty : Quantity} {b : Bool} (ho : ModifyOutcome book id price qty b book') :
    book'.orderRegistry = book.orderRegistry := by
  cases ho <;> rfl

omit [Zero P] in
theorem loop_registry {book last : OrderBook P}
    (hsteps : Relation.ReflTransGen LoopStep book last) (h : book.Sound) :
    last.orderRegistry = book.orderRegistry :=
  (loop_invariant (I := fun b => b.orderRegistry = book.orderRegistry)
    (fun _ _ x _ _ hinv => x.registry_eq.trans hinv) hsteps h rfl).2

omit [LinearOrder P] [Zero P] in
theorem mem_addedIds {ls : List (Label P)} {id : OrderId} :
    id ∈ addedIds ls ↔ ∃ l ∈ ls, l.2 = .orderId id := by
  simp only [addedIds, List.mem_filterMap]
  refine exists_congr fun l => and_congr_right ?_
  intro _
  cases l.2 <;> simp

omit [LinearOrder P] [Zero P] in
theorem addedIds_cons (l : Label P) (ls : List (Label P)) :
    (addedIds (l :: ls)).length = (addedIds [l]).length + (addedIds ls).length := by
  have : addedIds ([l] ++ ls) = addedIds [l] ++ addedIds ls := List.filterMap_append
  rw [List.singleton_append] at this
  rw [this, List.length_append]

/-- The registry grows by exactly the id that an `add_order` returns. -/
theorem Step.registry {s s' : Session P} {l : Label P} (hs : Step s l s') (h : s.book.Sound)
    (id : OrderId) : s'.book.orderRegistry.find? id ≠ none ↔
      s.book.orderRegistry.find? id ≠ none ∨ l.2 = .orderId id := by
  cases hs.outcome h with
  | added client clock id' p queued last book' alloc' hq hsteps hun hsame hor =>
    -- Only the queueing registers, and it registers one id.
    have hreg : book'.orderRegistry = s.book.orderRegistry.insert id' p := by
      have := (loop_registry hsteps (hq.sound h)).trans hq.registry
      rcases hor with rfl | rfl <;> exact this
    rw [hreg, SortedMap.find?_insert]
    by_cases heq : id = id'
    · simp [heq]
    · simp [heq, Ne.symm heq]
  | cancelled id' clock b book' ho => simp [CancelOutcome.registry_eq ho]
  | modified id' price qty clock b book' ho => simp [ModifyOutcome.registry_eq ho]
  | drew => simp

/-- A registered order keeps its entry as long as its id is not drawn again. -/
theorem Step.registry_kept {s s' : Session P} {l : Label P} (hs : Step s l s') (h : s.book.Sound)
    (hl : FreshId s l) {id : OrderId} {p : OrderPtr}
    (hid : s.book.orderRegistry.find? id = some p) :
    s'.book.orderRegistry.find? id = some p := by
  cases hs.outcome h with
  | added client clock id' p' queued last book' alloc' hq hsteps hun hsame hor =>
    have hreg : book'.orderRegistry = s.book.orderRegistry.insert id' p' := by
      have := (loop_registry hsteps (hq.sound h)).trans hq.registry
      rcases hor with rfl | rfl <;> exact this
    have hne : id ≠ id' := by
      intro heq
      rw [heq, hl id' rfl] at hid
      cases hid
    rw [hreg, SortedMap.find?_insert_ne _ hne]
    exact hid
  | cancelled id' clock b book' ho => rwa [CancelOutcome.registry_eq ho]
  | modified id' price qty clock b book' ho => rwa [ModifyOutcome.registry_eq ho]
  | drew => exact hid

/-- The ids registered after a run. -/
theorem registered_iff {s s' : Session P} {ls : List (Label P)} (hr : Path Step s ls s')
    (h : s.book.Sound) (id : OrderId) : s'.book.orderRegistry.find? id ≠ none ↔
      s.book.orderRegistry.find? id ≠ none ∨ id ∈ addedIds ls := by
  induction hr with
  | nil s => simp [addedIds]
  | @cons s s₁ s' l ls hs hrest ih =>
    rw [ih (hs.sound h), hs.registry h id, mem_addedIds, mem_addedIds, or_assoc]
    simp only [List.mem_cons, exists_eq_or_imp]

/-- A run on a fresh book registers the ids that it returned. -/
theorem Fresh.registered_iff {s s' : Session P} {ls : List (Label P)} (hf : Fresh s)
    (hr : Path Step s ls s') (id : OrderId) :
    s'.book.orderRegistry.find? id ≠ none ↔ id ∈ addedIds ls := by
  rw [Session.registered_iff hr hf.sound, hf.no_order]
  simp

/-- In a run whose `add_order` calls return distinct ids, each of them returns
    an id that is not registered yet. -/
theorem freshId_path {s s' : Session P} {ls : List (Label P)} (hr : Path Step s ls s')
    (h : s.book.Sound) (hnodup : (addedIds ls).Nodup)
    (hnew : ∀ id ∈ addedIds ls, s.book.orderRegistry.find? id = none) :
    Path (Guarded FreshId Step) s ls s' := by
  induction hr with
  | nil s => exact .nil s
  | @cons s s₁ s' l ls hs hrest ih =>
    -- By induction on the run: what is new to the whole run is new to its rest.
    have hsub : ∀ id ∈ addedIds ls, id ∈ addedIds (l :: ls) := by
      intro id hid
      simp only [addedIds, List.filterMap_cons] at hid ⊢
      split
      · exact hid
      · exact List.mem_cons_of_mem _ hid
    have hl : FreshId s l := fun id hid => hnew id (by simp [addedIds, hid])
    have h₁ : s₁.book.Sound := hs.sound h
    refine .cons ⟨hl, hs⟩ (ih h₁ ?_ ?_)
    · refine List.Nodup.sublist ?_ hnodup
      simp only [addedIds, List.filterMap_cons]
      split
      · exact List.Sublist.refl _
      · exact List.sublist_cons_self _ _
    · intro id hid
      by_contra hne
      -- An id that is registered by now is old, or it is drawn twice.
      rcases (Step.registry hs h id).mp hne with hold | hid'
      · exact hold (hnew id (hsub id hid))
      · have : addedIds (l :: ls) = id :: addedIds ls := by simp [addedIds, hid']
        rw [this, List.nodup_cons] at hnodup
        exact hnodup.1 hid

theorem Fresh.freshId_path {s s' : Session P} {ls : List (Label P)} (hf : Fresh s)
    (hr : Path Step s ls s') (hnodup : (addedIds ls).Nodup) : Path (Guarded FreshId Step) s ls s' :=
  Session.freshId_path hr hf.sound hnodup fun id _ => hf.no_order id

/-! ### Runs found by evaluation -/

theorem exec_path {s s' : Session P} {es : List (Event P)} {rs : List Reply}
    (h : s.exec es = .ok (s', rs)) : Path Step s (es.zip rs) s' := by
  induction es generalizing s rs with
  | nil =>
    simp only [exec, Except.ok.injEq, Prod.mk.injEq] at h
    obtain ⟨rfl, rfl⟩ := h
    exact .nil s
  | cons e es ih =>
    simp only [exec, bind, Except.bind] at h
    -- The first event, and then the others from where it leads.
    cases hstep : s.step e with
    | error err => simp [hstep] at h
    | ok sr =>
      obtain ⟨s₁, r⟩ := sr
      simp only [hstep] at h
      cases hrest : s₁.exec es with
      | error err => simp [hrest] at h
      | ok srs =>
        obtain ⟨s₂, rs'⟩ := srs
        simp only [hrest, Except.ok.injEq, Prod.mk.injEq] at h
        obtain ⟨rfl, rfl⟩ := h
        exact .cons hstep (ih hrest)

omit [LinearOrder P] [Zero P] in
theorem zip_labels (ls : List (Label P)) : (ls.map Prod.fst).zip (ls.map Prod.snd) = ls := by
  induction ls with
  | nil => rfl
  | cons l ls ih => simp [ih]

/-- A run of the given labels, with a property of its end that was computed. -/
theorem exists_path (s : Session P) (ls : List (Label P)) (f : Session P → Bool)
    (h : s.endsIn (ls.map Prod.fst) (ls.map Prod.snd) f = true) :
    ∃ s', Path Step s ls s' ∧ f s' = true := by
  unfold endsIn at h
  split at h
  · next s' rs' hok =>
    rw [Bool.and_eq_true, beq_iff_eq] at h
    obtain ⟨rfl, hf⟩ := h
    have hpath := exec_path hok
    rw [zip_labels] at hpath
    exact ⟨s', hpath, hf⟩
  · cases h

/-- The session after `n` draws of ids by other books. -/
def drawn (s : Session P) (n : ℕ) : Session P :=
  ⟨s.book, { s.alloc with
    globalCounter := s.alloc.globalCounter + UInt64.ofNat n * s.alloc.blockSize }⟩

/-- That many draws, as labels. -/
def draws (n : ℕ) : List (Label P) := List.replicate n (.otherDraws, .silent)

theorem draws_path (s : Session P) (n : ℕ) : Path Step s (draws n) (s.drawn n) := by
  induction n with
  | zero =>
    have : s.drawn 0 = s := by simp [drawn]
    rw [this]
    exact .nil s
  | succ n ih =>
    rw [draws, List.replicate_succ']
    refine ih.snoc ?_
    have hcounter : s.alloc.globalCounter + UInt64.ofNat n * s.alloc.blockSize + s.alloc.blockSize =
        s.alloc.globalCounter + UInt64.ofNat (n + 1) * s.alloc.blockSize := by
      rw [UInt64.ofNat_add]
      grind
    simp only [Step, step, drawn, IdAllocator.getNextIdBlock, hcounter]

/-- A run with `n` draws of other books in the middle, found by evaluation. -/
theorem exists_path_draws (s : Session P) (ls : List (Label P)) (n : ℕ) (ls' : List (Label P))
    (f : Session P → Bool)
    (h : s.endsIn (ls.map Prod.fst) (ls.map Prod.snd) (fun s₁ =>
      (s₁.drawn n).endsIn (ls'.map Prod.fst) (ls'.map Prod.snd) f) = true) :
    ∃ s', Path Step s (ls ++ draws n ++ ls') s' ∧ f s' = true := by
  obtain ⟨s₁, hs₁, h₁⟩ := exists_path s ls _ h
  obtain ⟨s', hs', hf⟩ := exists_path _ ls' f h₁
  exact ⟨s', (hs₁.append (draws_path s₁ n)).append hs', hf⟩

/-- A book with integer prices that has just been opened, on an allocator
    that has served nobody else. -/
def opening (blockSize : OrderId) : Session ℤ :=
  let (book, alloc) := OrderBook.new "SPY" (.new blockSize) fun _ => 0
  ⟨book, alloc⟩

theorem opening_fresh (blockSize : OrderId) : Fresh (opening blockSize) :=
  ⟨_, _, _, rfl⟩

/-- The order that a client sends. -/
def ticket (side : OrderSide) (price : ℤ) (quantity : Quantity) : Order ℤ :=
  .ofClient "SPY" side price quantity 0

def limit (side : OrderSide) (price : ℤ) (quantity : Quantity) : Event ℤ :=
  .addOrder (ticket side price quantity) fun _ => 0

def amend (id : OrderId) (price : ℤ) (quantity : Quantity) : Event ℤ :=
  .modifyOrder id price quantity fun _ => 0

def cancel (id : OrderId) : Event ℤ := .cancelOrder id fun _ => 0

end Session
end Orderbook
