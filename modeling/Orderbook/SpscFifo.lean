import Orderbook.SpscQueue
import Orderbook.Lib.Ring
import Orderbook.Lib.Channel

/-! # The queue is a bounded FIFO

    The invariant relates the indices and the slots, at every point of both
    calls, to the numbers of items pushed and popped so far.  What a thread
    has loaded of the other one's index may be out of date by the time it is
    used; the history says which moment it dates from, and that the other
    thread has only gone on since. -/

namespace Orderbook
namespace SPSCQueue
variable {α : Type}

/-! ### Histories -/

theorem pushed_of_pops {es : List (Event α)} (h : ∀ e ∈ es, e.OfPop) : pushed es = [] := by
  apply List.filterMap_eq_nil_iff.mpr
  intro e he
  have hpop := h e he
  cases e <;> first | rfl | exact False.elim hpop

theorem popped_of_pushes {es : List (Event α)} (h : ∀ e ∈ es, e.OfPush) : popped es = [] := by
  apply List.filterMap_eq_nil_iff.mpr
  intro e he
  have hpush := h e he
  cases e <;> first | rfl | exact False.elim hpush

/-- What the steps of the consumer leave alone. -/
theorem push_side_snoc (es : List (Event α)) {e : Event α} (he : e.OfPop) :
    written (es ++ [e]) = written es ∧ pushed (es ++ [e]) = pushed es := by
  cases e <;> first | exact False.elim he | exact ⟨by simp [written], by simp [pushed]⟩

/-- What the steps of the producer leave alone. -/
theorem pop_side_snoc (es : List (Event α)) {e : Event α} (he : e.OfPush) :
    taken (es ++ [e]) = taken es ∧ popped (es ++ [e]) = popped es := by
  cases e <;> first | exact False.elim he | exact ⟨by simp [taken], by simp [popped]⟩

theorem popped_append (es es' : List (Event α)) : popped (es ++ es') = popped es ++ popped es' :=
  List.filterMap_append

theorem written_append (es es' : List (Event α)) :
    written (es ++ es') = written es ++ written es' :=
  List.filterMap_append

theorem pushed_append (es es' : List (Event α)) : pushed (es ++ es') = pushed es ++ pushed es' :=
  List.filterMap_append

/-- A call of `push` is in progress that has only loaded `_head` so far. -/
def PushBegun (es : List (Event α)) (overload : Overload) (item : α) : Prop :=
  ∃ pre mid, es = pre ++ .pushLoadHead overload item :: mid ∧ ∀ e ∈ mid, e.OfPop

/-- A call of `push` is in progress that has loaded `_tail` at the end of `pre`. -/
def PushLoaded (es pre : List (Event α)) (overload : Overload) (item : α) : Prop :=
  PushBegun pre overload item ∧ ∃ mid, es = pre ++ .pushLoadTail :: mid ∧ ∀ e ∈ mid, e.OfPop

def PopBegun (es : List (Event α)) (out : α) : Prop :=
  ∃ pre mid, es = pre ++ .popLoadTail out :: mid ∧ ∀ e ∈ mid, e.OfPush

/-- A call of `pop` is in progress that has loaded `_head` at the end of `pre`. -/
def PopLoaded (es pre : List (Event α)) (out : α) : Prop :=
  PopBegun pre out ∧ ∃ mid, es = pre ++ .popLoadHead :: mid ∧ ∀ e ∈ mid, e.OfPush

theorem snoc_mid {es pre mid : List (Event α)} {e₀ e : Event α} {G : Event α → Prop}
    (hes : es = pre ++ e₀ :: mid) (hmid : ∀ e ∈ mid, G e) (he : G e) :
    es ++ [e] = pre ++ e₀ :: (mid ++ [e]) ∧ ∀ e' ∈ mid ++ [e], G e' := by
  refine ⟨by rw [hes]; simp, ?_⟩
  intro e' he'
  rcases List.mem_append.mp he' with h | h
  · exact hmid e' h
  · rw [List.mem_singleton.mp h]
    exact he

theorem PushBegun.snoc {es : List (Event α)} {overload : Overload} {item : α} {e : Event α}
    (h : PushBegun es overload item) (he : e.OfPop) : PushBegun (es ++ [e]) overload item := by
  obtain ⟨pre, mid, hes, hmid⟩ := h
  exact ⟨pre, mid ++ [e], snoc_mid hes hmid he⟩

theorem PushLoaded.snoc {es pre : List (Event α)} {overload : Overload} {item : α} {e : Event α}
    (h : PushLoaded es pre overload item) (he : e.OfPop) :
    PushLoaded (es ++ [e]) pre overload item := by
  obtain ⟨hbegun, mid, hes, hmid⟩ := h
  exact ⟨hbegun, mid ++ [e], snoc_mid hes hmid he⟩

theorem PopBegun.snoc {es : List (Event α)} {out : α} {e : Event α} (h : PopBegun es out)
    (he : e.OfPush) : PopBegun (es ++ [e]) out := by
  obtain ⟨pre, mid, hes, hmid⟩ := h
  exact ⟨pre, mid ++ [e], snoc_mid hes hmid he⟩

theorem PopLoaded.snoc {es pre : List (Event α)} {out : α} {e : Event α} (h : PopLoaded es pre out)
    (he : e.OfPush) : PopLoaded (es ++ [e]) pre out := by
  obtain ⟨hbegun, mid, hes, hmid⟩ := h
  exact ⟨hbegun, mid ++ [e], snoc_mid hes hmid he⟩

/-- Since its load of `_tail` the producer has pushed nothing, and the
    consumer may have popped some more. -/
theorem PushLoaded.counts {es pre : List (Event α)} {overload : Overload} {item : α}
    (h : PushLoaded es pre overload item) :
    (pushed es).length = (pushed pre).length ∧ (popped pre).length ≤ (popped es).length := by
  obtain ⟨-, mid, rfl, hmid⟩ := h
  have hnone : pushed mid = [] := pushed_of_pops hmid
  have hnone : pushed (.pushLoadTail :: mid) = [] := hnone
  rw [pushed_append, popped_append, hnone]
  simp

theorem PopLoaded.counts {es pre : List (Event α)} {out : α} (h : PopLoaded es pre out) :
    (popped es).length = (popped pre).length ∧ (pushed pre).length ≤ (pushed es).length := by
  obtain ⟨-, mid, rfl, hmid⟩ := h
  have hnone : popped mid = [] := popped_of_pushes hmid
  have hnone : popped (.popLoadHead :: mid) = [] := hnone
  rw [pushed_append, popped_append, hnone]
  simp

/-! ### The invariant -/

/-- The item that is written and not yet published. -/
def Push.inHand : Push α → List α
  | .written item _ _ => [item]
  | _ => []

/-- The item that is read while its slot is not yet released. -/
def Pop.inHand : Pop α → List α
  | .read item _ => [item]
  | _ => []

/-- At the end of `es` the numbers of items pushed and popped fit the ring. -/
def Fits (capacity : ℕ) (es : List (Event α)) : Prop :=
  (popped es).length ≤ (pushed es).length ∧
    (pushed es).length + 1 ≤ (popped es).length + capacity

def PushInv (capacity : ℕ) (es : List (Event α)) : Push α → Prop
  | .idle => True
  | .loadedHead overload item head =>
    head = (pushed es).length % capacity ∧ PushBegun es overload item
  | .loadedTail overload item head tail =>
    head = (pushed es).length % capacity ∧
      ∃ pre, PushLoaded es pre overload item ∧ Fits capacity pre ∧
        tail = (popped pre).length % capacity
  | .written _ _ next => next = ((pushed es).length + 1) % capacity

def PopInv (capacity : ℕ) (es : List (Event α)) : Pop α → Prop
  | .idle => True
  | .loadedTail out tail => tail = (popped es).length % capacity ∧ PopBegun es out
  | .loadedHead out tail head =>
    tail = (popped es).length % capacity ∧
      ∃ pre, PopLoaded es pre out ∧ Fits capacity pre ∧
        head = (pushed pre).length % capacity
  | .read _ tail => tail = (popped es).length % capacity

structure Inv (capacity : ℕ) (es : List (Event α)) (s : State α) : Prop where
  size : s.queue.buffer.length = capacity
  head_eq : s.queue.head = (pushed es).length % capacity
  tail_eq : s.queue.tail = (popped es).length % capacity
  pushed_eq : (written es).map Prod.snd = pushed es ++ s.push.inHand
  popped_eq : (taken es).map Prod.snd = popped es ++ s.pop.inHand
  slots : ∀ n w, (written es)[n]? = some w → w.1 = n % capacity
  fifo : taken es <+: written es
  taken_le : (taken es).length ≤ (pushed es).length
  room : (written es).length + 1 ≤ (popped es).length + capacity
  cells : RingHolds s.queue.buffer ((written es).map Prod.snd) (taken es).length
    (written es).length
  push : PushInv capacity es s.push
  pop : PopInv capacity es s.pop

theorem PushInv.snoc {capacity : ℕ} {es : List (Event α)} {p : Push α} {e : Event α}
    (h : PushInv capacity es p) (he : e.OfPop) : PushInv capacity (es ++ [e]) p := by
  have hsame := (push_side_snoc es he).2
  cases p with
  | idle => trivial
  | loadedHead overload item head => exact ⟨by rw [hsame]; exact h.1, h.2.snoc he⟩
  | loadedTail overload item head tail =>
    obtain ⟨hhead, pre, hloaded, hfits, htail⟩ := h
    exact ⟨by rw [hsame]; exact hhead, pre, hloaded.snoc he, hfits, htail⟩
  | written item left next =>
    show next = _
    rw [hsame]
    exact h

theorem PopInv.snoc {capacity : ℕ} {es : List (Event α)} {p : Pop α} {e : Event α}
    (h : PopInv capacity es p) (he : e.OfPush) : PopInv capacity (es ++ [e]) p := by
  have hsame := (pop_side_snoc es he).2
  cases p with
  | idle => trivial
  | loadedTail out tail => exact ⟨by rw [hsame]; exact h.1, h.2.snoc he⟩
  | loadedHead out tail head =>
    obtain ⟨htail, pre, hloaded, hfits, hhead⟩ := h
    exact ⟨by rw [hsame]; exact htail, pre, hloaded.snoc he, hfits, hhead⟩
  | read item tail =>
    show tail = _
    rw [hsame]
    exact h

section Counts
variable {capacity : ℕ} {es : List (Event α)} {s : State α}

theorem Inv.written_length (h : Inv capacity es s) :
    (written es).length = (pushed es).length + s.push.inHand.length := by
  have := congrArg List.length h.pushed_eq
  simpa using this

theorem Inv.taken_length (h : Inv capacity es s) :
    (taken es).length = (popped es).length + s.pop.inHand.length := by
  have := congrArg List.length h.popped_eq
  simpa using this

theorem Inv.fits (h : Inv capacity es s) : Fits capacity es := by
  have hw := h.written_length
  have ht := h.taken_length
  have hle := h.taken_le
  have hroom := h.room
  constructor <;> omega

theorem Inv.pos (h : Inv capacity es s) : 0 < capacity := by
  have hw := h.written_length
  have ht := h.taken_length
  have hle := h.taken_le
  have hroom := h.room
  omega

theorem Inv.next_eq (h : Inv capacity es s) (n : ℕ) :
    s.queue.next (n % capacity) = (n + 1) % capacity := by
  rw [SPSCQueue.next, h.size, Nat.mod_add_mod]

/-- The test of `push` compares with the number of items popped at the load. -/
theorem Inv.full_iff (h : Inv capacity es s) {pre : List (Event α)} {overload : Overload}
    {item : α} (hl : PushLoaded es pre overload item) (hf : Fits capacity pre) :
    s.queue.next ((pushed es).length % capacity) = (popped pre).length % capacity ↔
      (pushed pre).length = (popped pre).length + (capacity - 1) := by
  obtain ⟨hsame, -⟩ := hl.counts
  obtain ⟨hle, hroom⟩ := hf
  rw [h.next_eq, hsame, Ring.slot_eq_iff (by omega) (by omega)]
  have hpos := h.pos
  omega

theorem PopLoaded.empty_iff {pre : List (Event α)} {out : α}
    (hl : PopLoaded es pre out) (hf : Fits capacity pre) :
    (popped es).length % capacity = (pushed pre).length % capacity ↔
      (pushed pre).length = (popped pre).length := by
  obtain ⟨hsame, -⟩ := hl.counts
  obtain ⟨hle, hroom⟩ := hf
  rw [hsame]
  constructor
  · intro heq
    exact (Ring.slot_inj hle (by omega) heq).symm
  · intro heq
    rw [heq]

/-- The slot about to be written: it is in bounds, and the producer is not
    further ahead than the ring allows. -/
theorem Inv.before_write (h : Inv capacity es s) {overload : Overload} {item : α} {head tail : ℕ}
    (hp : s.push = .loadedTail overload item head tail) (hne : s.queue.next head ≠ tail) :
    head = (pushed es).length % capacity ∧ (written es).length = (pushed es).length ∧
      (written es).length + 2 ≤ (popped es).length + capacity := by
  have hw := h.written_length
  have hpush := h.push
  rw [hp] at hpush hw
  obtain ⟨hhead, pre, hloaded, hfits, htail⟩ := hpush
  obtain ⟨hsame, hmore⟩ := hloaded.counts
  rw [hhead, htail, Ne, h.full_iff hloaded hfits] at hne
  obtain ⟨hle, hroom⟩ := hfits
  simp only [Push.inHand, List.length_nil] at hw
  refine ⟨hhead, by omega, by omega⟩

/-- The slot about to be read holds a published item that nobody has read. -/
theorem Inv.before_read (h : Inv capacity es s) {out : α} {tail head : ℕ}
    (hp : s.pop = .loadedHead out tail head) (hne : tail ≠ head) :
    tail = (popped es).length % capacity ∧ (taken es).length = (popped es).length ∧
      (taken es).length < (pushed es).length := by
  have ht := h.taken_length
  have hpop := h.pop
  rw [hp] at hpop ht
  obtain ⟨htail, pre, hloaded, hfits, hhead⟩ := hpop
  obtain ⟨hsame, hmore⟩ := hloaded.counts
  rw [htail, hhead, Ne, hloaded.empty_iff hfits] at hne
  obtain ⟨hle, hroom⟩ := hfits
  simp only [Pop.inHand, List.length_nil] at ht
  refine ⟨htail, by omega, by omega⟩

/-! ### What the steps preserve -/

/-- A step of the producer leaves the consumer's half of the invariant as it is. -/
theorem Inv.of_push (h : Inv capacity es s) {e : Event α} (he : e.OfPush) {s' : State α}
    (hpop : s'.pop = s.pop) (htail : s'.queue.tail = s.queue.tail)
    (hsize : s'.queue.buffer.length = capacity)
    (hhead : s'.queue.head = (pushed (es ++ [e])).length % capacity)
    (hpushed : (written (es ++ [e])).map Prod.snd = pushed (es ++ [e]) ++ s'.push.inHand)
    (hslots : ∀ n w, (written (es ++ [e]))[n]? = some w → w.1 = n % capacity)
    (hroom : (written (es ++ [e])).length + 1 ≤ (popped es).length + capacity)
    (hcells : RingHolds s'.queue.buffer ((written (es ++ [e])).map Prod.snd) (taken es).length
      (written (es ++ [e])).length)
    (hpush : PushInv capacity (es ++ [e]) s'.push) : Inv capacity (es ++ [e]) s' := by
  obtain ⟨ht, hpo⟩ := pop_side_snoc es he
  constructor
  case size => exact hsize
  case head_eq => exact hhead
  case tail_eq =>
    rw [htail, hpo]
    exact h.tail_eq
  case pushed_eq => exact hpushed
  case popped_eq =>
    rw [ht, hpo, hpop]
    exact h.popped_eq
  case slots => exact hslots
  case fifo =>
    rw [ht, written_append]
    exact h.fifo.trans (List.prefix_append _ _)
  case taken_le =>
    rw [ht, pushed_append, List.length_append]
    exact Nat.le_add_right_of_le h.taken_le
  case room =>
    rw [hpo]
    exact hroom
  case cells =>
    rw [ht]
    exact hcells
  case push => exact hpush
  case pop =>
    rw [hpop]
    exact h.pop.snoc he

/-- A step of the consumer leaves the producer's half of the invariant as it is. -/
theorem Inv.of_pop (h : Inv capacity es s) {e : Event α} (he : e.OfPop) {s' : State α}
    (hpush : s'.push = s.push) (hhead : s'.queue.head = s.queue.head)
    (hsize : s'.queue.buffer.length = capacity)
    (htail : s'.queue.tail = (popped (es ++ [e])).length % capacity)
    (hpopped : (taken (es ++ [e])).map Prod.snd = popped (es ++ [e]) ++ s'.pop.inHand)
    (hfifo : taken (es ++ [e]) <+: written es)
    (htaken : (taken (es ++ [e])).length ≤ (pushed es).length)
    (hcells : RingHolds s'.queue.buffer ((written es).map Prod.snd) (taken (es ++ [e])).length
      (written es).length)
    (hpop : PopInv capacity (es ++ [e]) s'.pop) : Inv capacity (es ++ [e]) s' := by
  obtain ⟨hw, hpu⟩ := push_side_snoc es he
  constructor
  case size => exact hsize
  case head_eq =>
    rw [hhead, hpu]
    exact h.head_eq
  case tail_eq => exact htail
  case pushed_eq =>
    rw [hw, hpu, hpush]
    exact h.pushed_eq
  case popped_eq => exact hpopped
  case slots =>
    rw [hw]
    exact h.slots
  case fifo =>
    rw [hw]
    exact hfifo
  case taken_le =>
    rw [hpu]
    exact htaken
  case room =>
    rw [hw, popped_append, List.length_append, Nat.add_right_comm]
    exact Nat.le_add_right_of_le h.room
  case cells =>
    rw [hw]
    exact hcells
  case push =>
    rw [hpush]
    exact h.push.snoc he
  case pop => exact hpop

/-- A step of the producer that leaves the queue alone. -/
theorem Inv.push_quiet (h : Inv capacity es s) {e : Event α} {p : Push α} (he : e.OfPush)
    (hw : written (es ++ [e]) = written es) (hpu : pushed (es ++ [e]) = pushed es)
    (hhand : p.inHand = s.push.inHand) (hp : PushInv capacity (es ++ [e]) p) :
    Inv capacity (es ++ [e]) { s with push := p } := by
  apply h.of_push he
  case hpop => rfl
  case htail => rfl
  case hsize => exact h.size
  case hhead =>
    rw [hpu]
    exact h.head_eq
  case hpushed =>
    rw [hw, hpu, h.pushed_eq]
    exact congrArg _ hhand.symm
  case hslots =>
    rw [hw]
    exact h.slots
  case hroom =>
    rw [hw]
    exact h.room
  case hcells =>
    rw [hw]
    exact h.cells
  case hpush => exact hp

/-- A step of the consumer that leaves the queue alone. -/
theorem Inv.pop_quiet (h : Inv capacity es s) {e : Event α} {p : Pop α} (he : e.OfPop)
    (ht : taken (es ++ [e]) = taken es) (hpo : popped (es ++ [e]) = popped es)
    (hhand : p.inHand = s.pop.inHand) (hp : PopInv capacity (es ++ [e]) p) :
    Inv capacity (es ++ [e]) { s with pop := p } := by
  apply h.of_pop he
  case hpush => rfl
  case hhead => rfl
  case hsize => exact h.size
  case htail =>
    rw [hpo]
    exact h.tail_eq
  case hpopped =>
    rw [ht, hpo, h.popped_eq]
    exact congrArg _ hhand.symm
  case hfifo =>
    rw [ht]
    exact h.fifo
  case htaken =>
    rw [ht]
    exact h.taken_le
  case hcells =>
    rw [ht]
    exact h.cells
  case hpop => exact hp

/-- The next write goes to the next slot of the ring. -/
theorem Inv.slots_snoc (h : Inv capacity es s) {slot : ℕ} {item : α}
    (hslot : slot = (written es).length % capacity) {n : ℕ} {w : ℕ × α}
    (hn : (written es ++ [(slot, item)])[n]? = some w) : w.1 = n % capacity := by
  rcases Nat.lt_trichotomy n (written es).length with hlt | heq | hgt
  · rw [List.getElem?_append_left hlt] at hn
    exact h.slots n w hn
  · subst heq
    simp only [List.getElem?_concat_length, Option.some.injEq] at hn
    rw [← hn]
    exact hslot
  · rw [List.getElem?_eq_none (by simp; omega)] at hn
    cases hn

/-- The write goes to a slot that holds nothing any more. -/
theorem Inv.push_write (h : Inv capacity es s) {overload : Overload} {item left : α}
    {head tail : ℕ} (hp : s.push = .loadedTail overload item head tail)
    (hne : s.queue.next head ≠ tail) :
    Inv capacity (es ++ [.pushWrite head item])
      { s with
        queue := { s.queue with buffer := s.queue.buffer.set head item }
        push  := .written item left (s.queue.next head) } := by
  obtain ⟨hhead, hlen, hroom⟩ := h.before_write hp hne
  have hw : written (es ++ [.pushWrite head item]) = written es ++ [(head, item)] := by
    simp [written]
  have hpu : pushed (es ++ [.pushWrite head item]) = pushed es := by simp [pushed]
  apply h.of_push (e := .pushWrite head item) trivial
  case hpop => rfl
  case htail => rfl
  case hsize =>
    show (s.queue.buffer.set head item).length = capacity
    rw [List.length_set]
    exact h.size
  case hhead =>
    rw [hpu]
    exact h.head_eq
  case hpushed =>
    have hpushed := h.pushed_eq
    rw [hp, show (Push.loadedTail overload item head tail).inHand = [] from rfl,
      List.append_nil] at hpushed
    rw [hw, hpu, List.map_append, hpushed]
    rfl
  case hslots =>
    intro n w hn
    rw [hw] at hn
    exact h.slots_snoc (by rw [hlen]; exact hhead) hn
  case hroom =>
    rw [hw, List.length_append, List.length_singleton]
    omega
  case hcells =>
    -- The ring takes in one more element at its far end.
    have hpos := h.pos
    have hcells := h.cells
    have hmap : (written es).length = ((written es).map Prod.snd).length := by simp
    rw [hmap] at hcells
    have htl := h.taken_length
    have hgrow := hcells.push item (by rw [h.size, List.length_map]; omega) (by rw [h.size]; omega)
    rw [List.length_map, h.size, hlen, ← hhead] at hgrow
    rw [hw, List.length_append, List.length_singleton, List.map_append, hlen]
    exact hgrow
  case hpush =>
    show s.queue.next head = _
    rw [hpu, hhead, h.next_eq]

theorem Inv.push_store (h : Inv capacity es s) {item left : α} {next : ℕ}
    (hp : s.push = .written item left next) :
    Inv capacity (es ++ [.pushStore item left])
      { s with queue := { s.queue with head := next }, push := .idle } := by
  have hw : written (es ++ [.pushStore item left]) = written es := by simp [written]
  have hpu : pushed (es ++ [.pushStore item left]) = pushed es ++ [item] := by simp [pushed]
  have hpush := h.push
  have hpushed := h.pushed_eq
  rw [hp] at hpush hpushed
  apply h.of_push (e := .pushStore item left) trivial
  case hpop => rfl
  case htail => rfl
  case hsize => exact h.size
  case hhead =>
    rw [hpu, List.length_append, List.length_singleton]
    exact hpush
  case hpushed =>
    rw [hw, hpu, hpushed]
    simp [Push.inHand]
  case hslots =>
    rw [hw]
    exact h.slots
  case hroom =>
    rw [hw]
    exact h.room
  case hcells =>
    rw [hw]
    exact h.cells
  case hpush => trivial

/-- The slot about to be read holds the next one of the items written. -/
theorem Inv.taken_snoc (h : Inv capacity es s) {item : α} {tail : ℕ}
    (htail : tail = (taken es).length % capacity) (hlt : (taken es).length < (written es).length)
    (hcell : s.queue.buffer[tail]? = some item) : taken es ++ [(tail, item)] <+: written es := by
  obtain ⟨y, hy, hcell'⟩ := h.cells (taken es).length (Nat.le_refl _) hlt
  rw [h.size, ← htail, hcell] at hcell'
  cases hcell'
  rw [List.getElem?_map] at hy
  obtain ⟨w, hwn, hsnd⟩ := Option.map_eq_some_iff.mp hy
  have hslot := h.slots _ w hwn
  rw [← htail] at hslot
  obtain ⟨rest, hrest⟩ := h.fifo
  rw [← hrest, List.getElem?_append_right (Nat.le_refl _), Nat.sub_self] at hwn
  rw [← hrest]
  cases rest with
  | nil => cases hwn
  | cons w' rest =>
    cases hwn
    obtain ⟨slot, item'⟩ := w
    cases hsnd
    cases hslot
    exact ⟨rest, by simp⟩

/-- The item read is the next one of those written. -/
theorem Inv.pop_read (h : Inv capacity es s) {out item x : α} {tail head : ℕ}
    (hp : s.pop = .loadedHead out tail head) (hne : tail ≠ head)
    (hcell : s.queue.buffer[tail]? = some item) :
    Inv capacity (es ++ [.popRead tail item])
      { s with
        queue := { s.queue with buffer := s.queue.buffer.set tail x }
        pop   := .read item tail } := by
  obtain ⟨htail, hlen, hlt⟩ := h.before_read hp hne
  have ht : taken (es ++ [.popRead tail item]) = taken es ++ [(tail, item)] := by simp [taken]
  have hpo : popped (es ++ [.popRead tail item]) = popped es := by simp [popped]
  have hwl := h.written_length
  apply h.of_pop (e := .popRead tail item) trivial
  case hpush => rfl
  case hhead => rfl
  case hsize =>
    show (s.queue.buffer.set tail x).length = capacity
    rw [List.length_set]
    exact h.size
  case htail =>
    rw [hpo]
    exact h.tail_eq
  case hpopped =>
    have hpopped := h.popped_eq
    rw [hp, show (Pop.loadedHead out tail head).inHand = [] from rfl,
      List.append_nil] at hpopped
    rw [ht, hpo, List.map_append, hpopped]
    rfl
  case hfifo =>
    rw [ht]
    exact h.taken_snoc (by rw [hlen]; exact htail) (by omega) hcell
  case htaken =>
    rw [ht, List.length_append, List.length_singleton]
    omega
  case hcells =>
    -- The slot that is overwritten is behind all elements that are left.
    rw [ht, List.length_append, List.length_singleton]
    apply (h.cells.drop (Nat.le_succ _)).set
    intro n hlo hhi heq
    rw [h.size, htail, ← hlen] at heq
    have hroom := h.room
    exact Ring.slot_ne (Nat.lt_of_succ_le hlo) (by omega) heq.symm
  case hpop =>
    show tail = _
    rw [hpo]
    exact htail

theorem Inv.pop_store (h : Inv capacity es s) {item : α} {tail : ℕ} (hp : s.pop = .read item tail) :
    Inv capacity (es ++ [.popStore item])
      { s with queue := { s.queue with tail := s.queue.next tail }, pop := .idle } := by
  have ht : taken (es ++ [.popStore item]) = taken es := by simp [taken]
  have hpo : popped (es ++ [.popStore item]) = popped es ++ [item] := by simp [popped]
  have hpop := h.pop
  have hpopped := h.popped_eq
  rw [hp] at hpop hpopped
  apply h.of_pop (e := .popStore item) trivial
  case hpush => rfl
  case hhead => rfl
  case hsize => exact h.size
  case htail =>
    rw [hpo, List.length_append, List.length_singleton]
    show s.queue.next tail = _
    have hpop' : tail = (popped es).length % capacity := hpop
    rw [hpop', h.next_eq]
  case hpopped =>
    rw [ht, hpo, hpopped]
    simp [Pop.inHand]
  case hfifo =>
    rw [ht]
    exact h.fifo
  case htaken =>
    rw [ht]
    exact h.taken_le
  case hcells =>
    rw [ht]
    exact h.cells
  case hpop => trivial

end Counts

section Runs
variable {moved : α → α → α} {capacity : ℕ} {blank : α} {es : List (Event α)} {s s' : State α}

theorem Inv.step (h : Inv capacity es s) {e : Event α} (hs : Step moved s e s') :
    Inv capacity (es ++ [e]) s' := by
  cases hs with
  | pushLoadHead overload item hp =>
    have hpu : pushed (es ++ [.pushLoadHead overload item]) = pushed es := by simp [pushed]
    apply h.push_quiet (e := .pushLoadHead overload item) trivial (by simp [written]) hpu
      (by rw [hp]; rfl)
    refine ⟨by rw [hpu]; exact h.head_eq, es, [], rfl, ?_⟩
    simp
  | pushLoadTail overload item head hp =>
    have hpu : pushed (es ++ [.pushLoadTail]) = pushed es := by simp [pushed]
    have hpush := h.push
    rw [hp] at hpush
    apply h.push_quiet (e := .pushLoadTail) trivial (by simp [written]) hpu (by rw [hp]; rfl)
    -- What it has loaded dates from this moment.
    refine ⟨by rw [hpu]; exact hpush.1, es, ⟨hpush.2, [], rfl, ?_⟩, h.fits, h.tail_eq⟩
    simp
  | pushFail overload item head tail hp heq =>
    exact h.push_quiet trivial (by simp [written]) (by simp [pushed]) (by rw [hp]; rfl) trivial
  | pushWrite overload item old head tail hp hne hcell => exact h.push_write hp hne
  | pushStore item left next hp => exact h.push_store hp
  | popLoadTail out hp =>
    have hpo : popped (es ++ [.popLoadTail out]) = popped es := by simp [popped]
    apply h.pop_quiet (e := .popLoadTail out) trivial (by simp [taken]) hpo (by rw [hp]; rfl)
    refine ⟨by rw [hpo]; exact h.tail_eq, es, [], rfl, ?_⟩
    simp
  | popLoadHead out tail hp =>
    have hpo : popped (es ++ [.popLoadHead]) = popped es := by simp [popped]
    have hpop := h.pop
    rw [hp] at hpop
    apply h.pop_quiet (e := .popLoadHead) trivial (by simp [taken]) hpo (by rw [hp]; rfl)
    refine ⟨by rw [hpo]; exact hpop.1, es, ⟨hpop.2, [], rfl, ?_⟩, h.fits, h.head_eq⟩
    simp
  | popFail out tail head hp heq =>
    exact h.pop_quiet trivial (by simp [taken]) (by simp [popped]) (by rw [hp]; rfl) trivial
  | popRead out item tail head hp hne hcell => exact h.pop_read hp hne hcell
  | popStore item tail hp => exact h.pop_store hp

theorem inv_start (hcap : 1 ≤ capacity) (blank : α) : Inv capacity [] (start capacity blank) where
  size := List.length_replicate
  head_eq := (Nat.zero_mod capacity).symm
  tail_eq := (Nat.zero_mod capacity).symm
  pushed_eq := rfl
  popped_eq := rfl
  slots := by
    intro n w hn
    cases hn
  fifo := List.prefix_refl _
  taken_le := Nat.le_refl _
  room := by simpa [written, popped] using hcap
  cells := RingHolds.refl _ _ _
  push := trivial
  pop := trivial

theorem inv_of_path (hcap : 1 ≤ capacity)
    (hr : Path (Step moved) (start capacity blank) es s) : Inv capacity es s :=
  hr.history (fun _ _ _ _ h hs => Inv.step h hs) (inv_start hcap blank)

/-- A call of `push` can always take its next step: the slot it writes is in
    bounds. -/
theorem Inv.push_goes_on (h : Inv capacity es s) (hp : s.push ≠ .idle) :
    ∃ e s', e.OfPush ∧ Step moved s e s' := by
  cases hpush : s.push with
  | idle => exact absurd hpush hp
  | loadedHead overload item head =>
    exact ⟨.pushLoadTail, _, trivial, .pushLoadTail s overload item head hpush⟩
  | loadedTail overload item head tail =>
    by_cases heq : s.queue.next head = tail
    · exact ⟨.pushFail item, _, trivial, .pushFail s overload item head tail hpush heq⟩
    · have hhead := (h.before_write hpush heq).1
      have hlt : head < s.queue.buffer.length := by
        rw [hhead, h.size]
        exact Nat.mod_lt _ h.pos
      exact ⟨.pushWrite head item, _, trivial, .pushWrite s overload item _ head tail hpush
        heq (List.getElem?_eq_getElem hlt)⟩
  | written item left next =>
    exact ⟨.pushStore item left, _, trivial, .pushStore s item left next hpush⟩

theorem Inv.pop_goes_on (h : Inv capacity es s) (hp : s.pop ≠ .idle) :
    ∃ e s', e.OfPop ∧ Step moved s e s' := by
  cases hpop : s.pop with
  | idle => exact absurd hpop hp
  | loadedTail out tail => exact ⟨.popLoadHead, _, trivial, .popLoadHead s out tail hpop⟩
  | loadedHead out tail head =>
    by_cases heq : tail = head
    · exact ⟨.popFail out, _, trivial, .popFail s out tail head hpop heq⟩
    · have htail := (h.before_read hpop heq).1
      have hlt : tail < s.queue.buffer.length := by
        rw [htail, h.size]
        exact Nat.mod_lt _ h.pos
      exact ⟨.popRead tail _, _, trivial, .popRead s out _ tail head hpop heq
        (List.getElem?_eq_getElem hlt)⟩
  | read item tail => exact ⟨.popStore item, _, trivial, .popStore s item tail hpop⟩

/-! ### The channel -/

/-- Publishing an item sends it, and releasing a slot receives its item. -/
def toAct : Event α → Channel.Act α
  | .pushStore item _ => .send item
  | .popStore item => .receive item
  | _ => .silent

theorem sent_map_toAct (es : List (Event α)) : Channel.sent (es.map toAct) = pushed es := by
  induction es with
  | nil => rfl
  | cons e es ih => cases e <;> simpa [Channel.sent, pushed, toAct] using ih

theorem received_map_toAct (es : List (Event α)) :
    Channel.received (es.map toAct) = popped es := by
  induction es with
  | nil => rfl
  | cons e es ih => cases e <;> simpa [Channel.received, popped, toAct] using ih

/-- What a step is to a channel that holds the items in between. -/
theorem Inv.channel_step (h : Inv capacity es s) {e : Event α} (hs : Step moved s e s')
    {c : Channel α (capacity - 1)} (hc : pushed es = popped es ++ c.items) :
    ∃ c' : Channel α (capacity - 1), Channel.Step c (toAct e) c' := by
  have hlen := congrArg List.length hc
  rw [List.length_append] at hlen
  cases hs with
  | pushStore item left next hp =>
    have hw := h.written_length
    have hroom := h.room
    rw [hp] at hw
    simp only [Push.inHand, List.length_singleton] at hw
    obtain ⟨c', hsend, -⟩ := c.send_of_lt item (by omega)
    exact ⟨c', .send c c' item hsend⟩
  | popStore item tail hp =>
    have hpopped := h.popped_eq
    have hle := h.taken_le
    rw [hp] at hpopped
    -- What was read is in front of what the channel holds.
    have hpre : popped es ++ [item] <+: popped es ++ c.items := by
      have hmap := h.fifo.map Prod.snd
      rw [hpopped, h.pushed_eq, hc] at hmap
      apply List.prefix_of_prefix_length_le hmap (List.prefix_append _ _)
      have ht := congrArg List.length hpopped
      rw [List.length_map] at ht
      rw [← ht, ← hc]
      exact hle
    obtain ⟨rest, hrest⟩ := (List.prefix_append_right_inj _).mp hpre
    obtain ⟨c', hrecv, -⟩ := Channel.receive_of_cons (c := c) hrest.symm
    exact ⟨c', .receive c c' item hrecv⟩
  | _ => exact ⟨c, .silent c⟩

/-- **The queue refines a channel** that holds at most `capacity - 1` items. -/
theorem refines_channel (hcap : 1 ≤ capacity)
    (hr : Path (Step moved) (start capacity blank) es s) :
    ∃ c : Channel α (capacity - 1), Path Channel.Step .empty (es.map toAct) c := by
  have hI : Inv capacity es s ∧ ∃ c : Channel α (capacity - 1),
      Path Channel.Step .empty (es.map toAct) c := by
    refine hr.history (I := fun es s => Inv capacity es s ∧ ∃ c : Channel α (capacity - 1),
      Path Channel.Step .empty (es.map toAct) c) ?_ ⟨inv_start hcap blank, .empty, .nil _⟩
    intro es s e s' hI hs
    obtain ⟨h, c, hc⟩ := hI
    have heq := Channel.sent_eq hc
    rw [sent_map_toAct, received_map_toAct] at heq
    obtain ⟨c', hstep⟩ := h.channel_step hs heq
    refine ⟨h.step hs, c', ?_⟩
    rw [List.map_append]
    exact hc.snoc hstep
  exact hI.2

/-! ### The bounded FIFO -/

/-- What makes the queue a bounded FIFO along the history `es`. -/
structure BoundedFifo (capacity : ℕ) (es : List (Event α)) : Prop where
  /-- What is popped is what was pushed, in that order. -/
  popped_in_order : popped es <+: pushed es
  /-- Every read takes the next item written, from the slot it was written to. -/
  reads_in_order : taken es <+: written es
  outstanding : (pushed es).length ≤ (popped es).length + (capacity - 1)
  /-- No slot is written whose last item is unread, or read and not released. -/
  no_overwrite : ∀ pre slot item post, es = pre ++ .pushWrite slot item :: post →
    ∀ w ∈ (written pre).drop (popped pre).length, w.1 ≠ slot
  /-- A rejected push leaves its caller the item it offered, and
      `capacity - 1` items were outstanding when it loaded `_tail`. -/
  push_false : ∀ pre left post, es = pre ++ .pushFail left :: post →
    ∃ loaded overload, PushLoaded pre loaded overload left ∧
      (pushed loaded).length = (popped loaded).length + (capacity - 1)
  /-- No item was outstanding when a rejected pop loaded `_head`. -/
  pop_false : ∀ pre out post, es = pre ++ .popFail out :: post →
    ∃ loaded, PopLoaded pre loaded out ∧ (pushed loaded).length = (popped loaded).length

theorem Inv.no_overwrite (h : Inv capacity es s) {slot : ℕ} {item : α}
    (hs : Step moved s (.pushWrite slot item) s') :
    ∀ w ∈ (written es).drop (popped es).length, w.1 ≠ slot := by
  cases hs with
  | pushWrite overload item old head tail hp hne hcell =>
    obtain ⟨hhead, hlen, hroom⟩ := h.before_write hp hne
    intro w hw
    obtain ⟨i, hi⟩ := List.mem_iff_getElem?.mp hw
    rw [List.getElem?_drop] at hi
    have hlt := (List.getElem?_eq_some_iff.mp hi).1
    rw [h.slots _ w hi, hhead, ← hlen]
    exact Ring.slot_ne hlt (by omega)

theorem Inv.push_false (h : Inv capacity es s) {left : α}
    (hs : Step moved s (.pushFail left) s') :
    ∃ loaded overload, PushLoaded es loaded overload left ∧
      (pushed loaded).length = (popped loaded).length + (capacity - 1) := by
  cases hs with
  | pushFail overload _ head tail hp heq =>
    have hpush := h.push
    rw [hp] at hpush
    obtain ⟨hhead, pre, hloaded, hfits, htail⟩ := hpush
    rw [hhead, htail, h.full_iff hloaded hfits] at heq
    exact ⟨pre, overload, hloaded, heq⟩

theorem Inv.pop_false (h : Inv capacity es s) {out : α} (hs : Step moved s (.popFail out) s') :
    ∃ loaded, PopLoaded es loaded out ∧ (pushed loaded).length = (popped loaded).length := by
  cases hs with
  | popFail _ tail head hp heq =>
    have hpop := h.pop
    rw [hp] at hpop
    obtain ⟨htail, pre, hloaded, hfits, hhead⟩ := hpop
    rw [htail, hhead, hloaded.empty_iff hfits] at heq
    exact ⟨pre, hloaded, heq⟩

/-- The state before an event of the history. -/
theorem before_event (hcap : 1 ≤ capacity) (hr : Path (Step moved) (start capacity blank) es s)
    {pre post : List (Event α)} {e : Event α} (hes : es = pre ++ e :: post) :
    ∃ s₁ s₂, Inv capacity pre s₁ ∧ Step moved s₁ e s₂ := by
  subst hes
  obtain ⟨s₁, hpre, hrest⟩ := hr.split
  cases hrest with
  | cons hs _ => exact ⟨s₁, _, inv_of_path hcap hpre, hs⟩

/-- The steps of which a rejected push consists. -/
def Event.Rejecting : Event α → Prop
  | .pushLoadHead _ _ | .pushLoadTail | .pushFail _ => True
  | _ => False

/-- **The queue is a bounded FIFO** along every interleaving, and a rejected
    push changes nothing. -/
theorem bounded_fifo (hcap : 1 ≤ capacity) (hr : Path (Step moved) (start capacity blank) es s) :
    BoundedFifo capacity es ∧
      ∀ (x x' : State α) (e : Event α), Step moved x e x' → e.Rejecting → x'.queue = x.queue := by
  constructor
  · obtain ⟨c, hc⟩ := refines_channel hcap hr
    obtain ⟨hpre, hbound⟩ := Channel.received_in_order hc
    rw [received_map_toAct, sent_map_toAct] at hpre hbound
    refine ⟨hpre, (inv_of_path hcap hr).fifo, hbound, ?_, ?_, ?_⟩
    · intro pre slot item post hes
      obtain ⟨s₁, s₂, h, hs⟩ := before_event hcap hr hes
      exact h.no_overwrite hs
    · intro pre left post hes
      obtain ⟨s₁, s₂, h, hs⟩ := before_event hcap hr hes
      exact h.push_false hs
    · intro pre out post hes
      obtain ⟨s₁, s₂, h, hs⟩ := before_event hcap hr hes
      exact h.pop_false hs
  · intro x x' e hs he
    cases hs <;> first | rfl | exact False.elim he

end Runs

/-- Two slots: an item is moved in, a second one is rejected while it waits, it
    is popped, and the next pop finds nothing. -/
def rejectedTwice : List (Event ℕ) :=
  [.pushLoadHead .rvalue 7, .pushLoadTail, .pushWrite 0 7, .popLoadTail 0, .pushStore 7 0,
    .pushLoadHead .constRef 8, .popLoadHead, .pushLoadTail, .popRead 0 7, .pushFail 8, .popStore 7,
    .popLoadTail 7, .popLoadHead, .popFail 7]

theorem bounded_fifo_rejectedTwice :
    (∃ s, Path (Step fun _ _ => 0) (start 2 0) rejectedTwice s) ∧
      BoundedFifo 2 rejectedTwice := by
  have hr : ∃ s, Path (Step fun _ _ => 0) (start 2 0) rejectedTwice s :=
    ⟨_, .cons (.pushLoadHead _ .rvalue 7 rfl) <| .cons (.pushLoadTail _ _ _ _ rfl) <|
      .cons (.pushWrite _ _ _ 0 _ _ rfl (by decide) rfl) <| .cons (.popLoadTail _ 0 rfl) <|
      .cons (.pushStore _ _ _ _ rfl) <| .cons (.pushLoadHead _ .constRef 8 rfl) <|
      .cons (.popLoadHead _ _ _ rfl) <| .cons (.pushLoadTail _ _ _ _ rfl) <|
      .cons (.popRead _ _ _ _ _ rfl (by decide) rfl) <| .cons (.pushFail _ _ _ _ _ rfl rfl) <|
      .cons (.popStore _ _ _ rfl) <| .cons (.popLoadTail _ 7 rfl) <|
      .cons (.popLoadHead _ _ _ rfl) <| .cons (.popFail _ _ _ _ rfl rfl) <| .nil _⟩
  obtain ⟨s, hs⟩ := hr
  exact ⟨⟨s, hs⟩, (bounded_fifo (by decide) hs).1⟩

end SPSCQueue
end Orderbook
