import Orderbook.LevelQueue
import Orderbook.PriceLevelV1
import Orderbook.Lib.Program

/-! # The two versions of the price level

    Both versions of `PriceLevel` are compared with a plain queue, through
    what a client can see of them: the answers of `remove_order`, and after
    every call `size`, `empty`, `total_qty` and, if there is one, `front`.
    The second version always shows what the queue shows.  The first one
    does until an order is to be removed that was popped before: its
    `pop_front_order_if_filled` leaves the id of the popped order in the map. -/

namespace Orderbook

/-- The memory that the levels look at. -/
abbrev Heap (P : Type) : Type := OrderPtr → Order P

/-- A call on a level, or a fill of the order at its front. -/
inductive LevelCall where
  | addOrder (order : OrderPtr)
  | removeOrder (orderId : OrderId)
  | fillFront (fillQty : Quantity) (now : TimePoint)
  | popFrontOrderIfFilled

/-- What is seen of a level after a call. -/
structure LevelView where
  removed  : Option Bool
  size     : ℕ
  empty    : Bool
  totalQty : Quantity
  front    : Option OrderPtr
  deriving DecidableEq, Repr

/-- The members of a class `PriceLevel`. -/
structure LevelMembers (P L : Type) where
  addOrder              : L → Heap P → OrderPtr → L
  removeOrder           : L → OrderId → Option (Bool × L)
  popFrontOrderIfFilled : L → Heap P → Option L
  size                  : L → ℕ
  empty                 : L → Bool
  totalQty              : L → Heap P → Quantity
  front                 : L → Option OrderPtr

namespace LevelMembers
variable {P L : Type}

/-- `price_level.h`. -/
def v1 (P : Type) : LevelMembers P (PriceLevelV1 P) where
  addOrder              := PriceLevelV1.addOrder
  removeOrder           := PriceLevelV1.removeOrder
  popFrontOrderIfFilled := PriceLevelV1.popFrontOrderIfFilled
  size                  := PriceLevelV1.size
  empty                 := PriceLevelV1.empty
  totalQty              := PriceLevelV1.totalQty
  front                 := PriceLevelV1.front

/-- `price_level_v2.h`. -/
def v2 (P : Type) : LevelMembers P (PriceLevel P) where
  addOrder              := PriceLevel.addOrder
  removeOrder lvl id    := (lvl.removeOrder id).toOption
  popFrontOrderIfFilled := fun lvl heap => (lvl.popFrontOrderIfFilled heap).toOption
  size                  := PriceLevel.size
  empty                 := PriceLevel.empty
  totalQty              := PriceLevel.totalQty
  front lvl             := lvl.front.toOption

/-- The level is looked at; its front only if it has one. -/
def view (lm : LevelMembers P L) (heap : Heap P) (lvl : L) (removed : Option Bool) :
    Option LevelView :=
  if lm.empty lvl then some ⟨removed, lm.size lvl, true, lm.totalQty lvl heap, none⟩
  else do
    let order ← lm.front lvl
    some ⟨removed, lm.size lvl, false, lm.totalQty lvl heap, some order⟩

/-- `match` of the front order.  If it throws, the order is as it was. -/
def fillFront (lm : LevelMembers P L) (heap : Heap P) (lvl : L) (fillQty : Quantity)
    (now : TimePoint) : Option (Heap P) :=
  if lm.empty lvl then some heap
  else do
    let order ← lm.front lvl
    match (heap order).matchFill fillQty now with
    | .ok o => some (Function.update heap order o)
    | .error _ => some heap

/-- A version of the level as a client sees it. -/
def program (lm : LevelMembers P L) : Program (Heap P × L) LevelCall LevelView := fun s c => do
  let (heap, lvl, removed) ← match c with
    | .addOrder order => some (s.1, lm.addOrder s.2 s.1 order, none)
    | .removeOrder orderId => (lm.removeOrder s.2 orderId).map fun r => (s.1, r.2, some r.1)
    | .fillFront fillQty now => (lm.fillFront s.1 s.2 fillQty now).map fun heap => (heap, s.2, none)
    | .popFrontOrderIfFilled => (lm.popFrontOrderIfFilled s.2 s.1).map fun lvl => (s.1, lvl, none)
  let seen ← lm.view heap lvl removed
  some ((heap, lvl), seen)

end LevelMembers

/-! ### What a level is for -/

/-- A queue of orders with their ids, the ids of all orders that were ever
    added, and of those that left it filled. -/
structure Line where
  queue  : List (OrderId × OrderPtr)
  added  : List OrderId
  popped : List OrderId

namespace Line
variable {P : Type}

def new : Line := ⟨[], [], []⟩

def addOrder (line : Line) (heap : Heap P) (order : OrderPtr) : Line :=
  { line with
    queue := line.queue ++ [((heap order).id, order)]
    added := (heap order).id :: line.added }

/-- Without the orders of an id. -/
def drop (line : Line) (orderId : OrderId) : List (OrderId × OrderPtr) :=
  line.queue.filter fun k => k.1 != orderId

def removeOrder (line : Line) (orderId : OrderId) : Bool × Line :=
  (line.queue.any fun k => k.1 == orderId, { line with queue := line.drop orderId })

def fillFront (line : Line) (heap : Heap P) (fillQty : Quantity) (now : TimePoint) : Heap P :=
  match line.queue with
  | [] => heap
  | (_, order) :: _ =>
    match (heap order).matchFill fillQty now with
    | .ok o => Function.update heap order o
    | .error _ => heap

def popFrontOrderIfFilled (line : Line) (heap : Heap P) : Line :=
  match line.queue with
  | [] => line
  | (id, order) :: rest =>
    if (heap order).status = .fullyFilled then
      { line with queue := rest, popped := id :: line.popped }
    else line

def view (line : Line) (heap : Heap P) (removed : Option Bool) : LevelView where
  removed  := removed
  size     := line.queue.length
  empty    := line.queue.isEmpty
  totalQty := line.queue.foldl (fun qty k => qty + (heap k.2).available) 0
  front    := line.queue.head?.map Prod.snd

def call (s : Heap P × Line) : LevelCall → (Heap P × Line) × LevelView
  | .addOrder order =>
    let line := s.2.addOrder s.1 order
    ((s.1, line), line.view s.1 none)
  | .removeOrder orderId =>
    let (removed, line) := s.2.removeOrder orderId
    ((s.1, line), line.view s.1 (some removed))
  | .fillFront fillQty now =>
    let heap := s.2.fillFront s.1 fillQty now
    ((heap, s.2), s.2.view heap none)
  | .popFrontOrderIfFilled =>
    let line := s.2.popFrontOrderIfFilled s.1
    ((s.1, line), line.view s.1 none)

/-- How the book uses a level: no id is added twice, and once its orders are
    gone it is not used again. -/
def Open (s : Heap P × Line) (c : LevelCall) : Prop :=
  (s.2.queue ≠ [] ∨ s.2.added = []) ∧
    match c with
    | .addOrder order => (s.1 order).id ∉ s.2.added
    | _ => True

/-- The call does not ask for an order that left the queue filled. -/
def NotPopped (s : Heap P × Line) (c : LevelCall) : Prop :=
  match c with
  | .removeOrder orderId => orderId ∉ s.2.popped
  | _ => True

instance : DecidableRel (Open : Heap P × Line → LevelCall → Prop) := fun _ c =>
  match c with
  | .addOrder _ => inferInstanceAs (Decidable (_ ∧ _ ∉ _))
  | .removeOrder _ => inferInstanceAs (Decidable (_ ∧ True))
  | .fillFront _ _ => inferInstanceAs (Decidable (_ ∧ True))
  | .popFrontOrderIfFilled => inferInstanceAs (Decidable (_ ∧ True))

instance : DecidableRel (NotPopped : Heap P × Line → LevelCall → Prop) := fun _ c =>
  match c with
  | .addOrder _ => .isTrue trivial
  | .removeOrder _ => inferInstanceAs (Decidable (_ ∉ _))
  | .fillFront _ _ => .isTrue trivial
  | .popFrontOrderIfFilled => .isTrue trivial

/-- The ids of a line are those of its orders, and each is there once. -/
structure Sound (heap : Heap P) (line : Line) : Prop where
  ids : ∀ k ∈ line.queue, (heap k.2).id = k.1
  nodup : (line.queue.map Prod.fst).Nodup
  known : ∀ k ∈ line.queue, k.1 ∈ line.added
  gone : ∀ id ∈ line.popped, id ∈ line.added ∧ ∀ k ∈ line.queue, k.1 ≠ id

theorem Sound.new (heap : Heap P) : Sound heap Line.new := by
  constructor <;> simp [Line.new]

theorem Sound.congr {heap heap' : Heap P} {line : Line} (h : line.Sound heap)
    (hid : ∀ p, (heap' p).id = (heap p).id) : line.Sound heap' :=
  ⟨fun k hk => (hid k.2).trans (h.ids k hk), h.nodup, h.known, h.gone⟩

theorem Sound.addOrder {heap : Heap P} {line : Line} (h : line.Sound heap) {p : OrderPtr}
    (hnew : (heap p).id ∉ line.added) : (line.addOrder heap p).Sound heap where
  ids k hk := by
    simp only [Line.addOrder, List.mem_append, List.mem_singleton] at hk
    rcases hk with hk | rfl
    · exact h.ids k hk
    · rfl
  nodup := by
    simp only [Line.addOrder, List.map_append, List.map_cons, List.map_nil]
    rw [List.nodup_append]
    refine ⟨h.nodup, List.nodup_singleton _, ?_⟩
    intro a ha b hb heq
    obtain ⟨k, hk, rfl⟩ := List.mem_map.mp ha
    rw [List.mem_singleton] at hb
    exact hnew (hb ▸ heq ▸ h.known k hk)
  known k hk := by
    simp only [Line.addOrder, List.mem_append, List.mem_singleton] at hk ⊢
    rcases hk with hk | rfl
    · exact List.mem_cons_of_mem _ (h.known k hk)
    · exact List.mem_cons_self
  gone id hid := by
    obtain ⟨hadded, hnone⟩ := h.gone id hid
    refine ⟨List.mem_cons_of_mem _ hadded, ?_⟩
    intro k hk heq
    simp only [Line.addOrder, List.mem_append, List.mem_singleton] at hk
    rcases hk with hk | rfl
    · exact hnone k hk heq
    · have heq : (heap p).id = id := heq
      exact hnew (heq ▸ hadded)

/-- Fewer orders, and of the ids that went some may count as popped. -/
theorem Sound.drop {heap : Heap P} {line line' : Line} (h : line.Sound heap) {id : OrderId}
    (hqueue : line'.queue = line.drop id) (hadded : line'.added = line.added)
    (hpopped : ∀ id' ∈ line'.popped, id' ∈ line.popped ∨ (id' = id ∧ id ∈ line.added)) :
    line'.Sound heap := by
  have hsub : ∀ k ∈ line'.queue, k ∈ line.queue ∧ k.1 ≠ id := by
    intro k hk
    rw [hqueue, Line.drop, List.mem_filter] at hk
    exact ⟨hk.1, by simpa using hk.2⟩
  constructor
  case ids => exact fun k hk => h.ids k (hsub k hk).1
  case nodup =>
    rw [hqueue]
    exact h.nodup.sublist (List.filter_sublist.map _)
  case known =>
    intro k hk
    rw [hadded]
    exact h.known k (hsub k hk).1
  case gone =>
    intro id' hid'
    rw [hadded]
    rcases hpopped id' hid' with hold | ⟨rfl, hin⟩
    · exact ⟨(h.gone id' hold).1, fun k hk => (h.gone id' hold).2 k (hsub k hk).1⟩
    · exact ⟨hin, fun k hk => (hsub k hk).2⟩

/-- Nothing leaves the queue with an id that is not in it. -/
theorem removeOrder_absent {line : Line} {id : OrderId} (h : id ∉ line.queue.map Prod.fst) :
    line.removeOrder id = (false, line) := by
  have hne : ∀ k ∈ line.queue, k.1 ≠ id := by
    intro k hk heq
    exact h (heq ▸ List.mem_map_of_mem hk)
  have hqueue : line.drop id = line.queue := by
    rw [Line.drop, List.filter_eq_self]
    intro k hk
    simpa using hne k hk
  have hany : (line.queue.any fun k => k.1 == id) = false := by
    rw [List.any_eq_false]
    intro k hk
    simpa using hne k hk
  rw [Line.removeOrder, hany, hqueue]

/-- The order at the front is the only one of its id. -/
theorem Sound.drop_front {heap : Heap P} {line : Line} (h : line.Sound heap) {id : OrderId}
    {p : OrderPtr} {rest : List (OrderId × OrderPtr)} (hqueue : line.queue = (id, p) :: rest) :
    line.drop id = rest := by
  have hnodup := h.nodup
  rw [hqueue, List.map_cons, List.nodup_cons] at hnodup
  rw [Line.drop, hqueue, List.filter_cons_of_neg (by simp), List.filter_eq_self]
  intro k hk
  simp only [bne_iff_ne, ne_eq]
  intro heq
  exact hnodup.1 (List.mem_map.mpr ⟨k, hk, heq⟩)

theorem Sound.popFrontOrderIfFilled {heap : Heap P} {line : Line} (h : line.Sound heap) :
    (line.popFrontOrderIfFilled heap).Sound heap := by
  unfold Line.popFrontOrderIfFilled
  split
  · exact h
  · next id p rest hqueue =>
    split
    · refine h.drop (h.drop_front hqueue).symm rfl ?_
      intro id' hid'
      rcases List.mem_cons.mp hid' with heq | hold
      · exact Or.inr ⟨heq, h.known (id, p) (hqueue ▸ List.mem_cons_self)⟩
      · exact Or.inl hold
    · exact h

theorem fillFront_id (line : Line) (heap : Heap P) (fillQty : Quantity) (now : TimePoint)
    (p : OrderPtr) : (line.fillFront heap fillQty now p).id = (heap p).id := by
  unfold fillFront
  cases line.queue with
  | nil => rfl
  | cons k rest =>
    cases ho : (heap k.2).matchFill fillQty now with
    | error e => simp only [ho]
    | ok o =>
      simp only [ho, Function.update_apply]
      split
      · next heq =>
        subst heq
        unfold Order.matchFill at ho
        split at ho
        · cases ho
        · cases ho
          rfl
      · rfl

end Line

/-! ### Following the queue -/

/-- What has to be shown of a version of the level: `Sim` relates it to the
    queue, and `Ok` says which orders it can be asked to remove. -/
structure Follows {P L : Type} (lm : LevelMembers P L) (Sim : Heap P → L → Line → Prop)
    (Ok : Line → OrderId → Prop) : Prop where
  size : ∀ heap lvl line, line.Sound heap → Sim heap lvl line → lm.size lvl = line.queue.length
  empty : ∀ heap lvl line, line.Sound heap → Sim heap lvl line →
    lm.empty lvl = line.queue.isEmpty
  totalQty : ∀ heap lvl line, line.Sound heap → Sim heap lvl line → lm.totalQty lvl heap =
    line.queue.foldl (fun qty k => qty + (heap k.2).available) 0
  front : ∀ heap lvl line k rest, line.Sound heap → Sim heap lvl line → line.queue = k :: rest →
    lm.front lvl = some k.2
  congr : ∀ heap heap' lvl line, (∀ p, (heap' p).id = (heap p).id) → Sim heap lvl line →
    Sim heap' lvl line
  addOrder : ∀ heap lvl line p, line.Sound heap → Sim heap lvl line →
    line.queue ≠ [] ∨ line.added = [] → (heap p).id ∉ line.added →
    Sim heap (lm.addOrder lvl heap p) (line.addOrder heap p)
  removeOrder : ∀ heap lvl line id, line.Sound heap → Sim heap lvl line → Ok line id →
    ∃ lvl', lm.removeOrder lvl id = some ((line.removeOrder id).1, lvl') ∧
      Sim heap lvl' (line.removeOrder id).2
  popFrontOrderIfFilled : ∀ heap lvl line, line.Sound heap → Sim heap lvl line →
    ∃ lvl', lm.popFrontOrderIfFilled lvl heap = some lvl' ∧
      Sim heap lvl' (line.popFrontOrderIfFilled heap)

/-- The states of a version and of the queue belong together. -/
def Related {P L : Type} (Sim : Heap P → L → Line → Prop) (s : Heap P × L) (t : Heap P × Line) :
    Prop :=
  s.1 = t.1 ∧ t.2.Sound t.1 ∧ Sim t.1 s.2 t.2

namespace Follows
variable {P L : Type} {lm : LevelMembers P L} {Sim : Heap P → L → Line → Prop}
  {Ok : Line → OrderId → Prop} {heap : Heap P} {lvl : L} {line : Line}

theorem view (hf : Follows lm Sim Ok) (h : line.Sound heap) (hsim : Sim heap lvl line)
    (removed : Option Bool) : lm.view heap lvl removed = some (line.view heap removed) := by
  unfold LevelMembers.view Line.view
  rw [hf.empty heap lvl line h hsim, hf.size heap lvl line h hsim, hf.totalQty heap lvl line h hsim]
  cases hqueue : line.queue with
  | nil => simp
  | cons k rest =>
    rw [hf.front heap lvl line k rest h hsim hqueue]
    simp

theorem fillFront (hf : Follows lm Sim Ok) (h : line.Sound heap) (hsim : Sim heap lvl line)
    (fillQty : Quantity) (now : TimePoint) :
    lm.fillFront heap lvl fillQty now = some (line.fillFront heap fillQty now) := by
  unfold LevelMembers.fillFront Line.fillFront
  rw [hf.empty heap lvl line h hsim]
  cases hqueue : line.queue with
  | nil => simp
  | cons k rest =>
    rw [hf.front heap lvl line k rest h hsim hqueue]
    simp only [List.isEmpty_cons, Bool.false_eq_true, if_false, Option.bind_eq_bind,
      Option.bind_some]
    cases (heap k.2).matchFill fillQty now <;> rfl

/-- One call, on both sides. -/
theorem step (hf : Follows lm Sim Ok) {s : Heap P × L} {t : Heap P × Line} {c : LevelCall}
    (hR : Related Sim s t) (hopen : Line.Open t c) (hok : ∀ id, c = .removeOrder id → Ok t.2 id) :
    ∃ s', lm.program s c = some (s', (Line.call t c).2) ∧ Related Sim s' (Line.call t c).1 := by
  obtain ⟨heap, lvl⟩ := s
  obtain ⟨heap₂, line⟩ := t
  obtain ⟨heq, h, hsim⟩ := hR
  have heq : heap = heap₂ := heq
  subst heq
  obtain ⟨hused, hnew⟩ := hopen
  cases c with
  | addOrder p =>
    have hsound := h.addOrder hnew
    have hsim' := hf.addOrder heap lvl line p h hsim hused hnew
    have hview := hf.view hsound hsim' none
    exact ⟨(heap, lm.addOrder lvl heap p), by simp [LevelMembers.program, hview, Line.call],
      rfl, hsound, hsim'⟩
  | removeOrder id =>
    obtain ⟨lvl', hrem, hsim'⟩ := hf.removeOrder heap lvl line id h hsim (hok id rfl)
    have hsound : (line.removeOrder id).2.Sound heap := h.drop rfl rfl fun _ hid => Or.inl hid
    have hview := hf.view hsound hsim' (some (line.removeOrder id).1)
    exact ⟨(heap, lvl'), by simp [LevelMembers.program, hrem, hview, Line.call], rfl, hsound, hsim'⟩
  | fillFront fillQty now =>
    have hfill := hf.fillFront h hsim fillQty now
    have hids := line.fillFront_id heap fillQty now
    have hsound := h.congr hids
    have hsim' := hf.congr heap _ lvl line hids hsim
    have hview := hf.view hsound hsim' none
    exact ⟨(_, lvl), by simp [LevelMembers.program, hfill, hview, Line.call], rfl, hsound, hsim'⟩
  | popFrontOrderIfFilled =>
    obtain ⟨lvl', hpop, hsim'⟩ := hf.popFrontOrderIfFilled heap lvl line h hsim
    have hsound := h.popFrontOrderIfFilled
    have hview := hf.view hsound hsim' none
    exact ⟨(heap, lvl'), by simp [LevelMembers.program, hpop, hview, Line.call], rfl, hsound, hsim'⟩

end Follows

/-! ### The second version -/

theorem OrderEntry.eq_queued {e : OrderEntry} (h : e.isValid = true) : e = .queued e.order := by
  cases e
  simp only at h
  rw [h]

namespace PriceLevel
variable {P : Type} {heap heap' : Heap P} {lvl : PriceLevel P} {line : Line}

/-- The order of an entry, with its id. -/
def keyed (heap : Heap P) (e : OrderEntry) : OrderId × OrderPtr := ((heap e.order).id, e.order)

/-- The valid entries are the queue, each of them is the one its id is mapped
    to, and the first of them is at the head. -/
structure Lined (heap : Heap P) (lvl : PriceLevel P) (line : Line) : Prop where
  wf : lvl.WF heap
  queue : (lvl.orderEntries.filter OrderEntry.isValid).map (keyed heap) = line.queue
  key : ∀ (j : ℕ) (p : OrderPtr), lvl.orderEntries[j]? = some (.queued p) →
    lvl.ordersMap.find? (heap p).id = some j
  head : lvl.empty = false → lvl.HeadValid
  unused : line.added = [] → lvl.orderEntries = []

theorem Lined.new (heap : Heap P) (price : P) : (PriceLevel.new price).Lined heap .new where
  wf := .new heap price
  queue := rfl
  key j p hj := by simp [PriceLevel.new] at hj
  head := by simp [PriceLevel.new, PriceLevel.empty, SortedMap.isEmpty, SortedMap.empty]
  unused _ := rfl

/-- The keys of the map are the ids of the queue. -/
theorem Lined.key_iff (h : lvl.Lined heap line) (id : OrderId) :
    (∃ j, lvl.ordersMap.find? id = some j) ↔ id ∈ line.queue.map Prod.fst := by
  rw [← h.queue]
  simp only [List.mem_map, List.mem_filter]
  constructor
  · intro hid
    obtain ⟨j, hj⟩ := hid
    obtain ⟨-, p, hp, hpid⟩ := h.wf.mapped id j hj
    exact ⟨_, ⟨.queued p, ⟨List.mem_of_getElem? hp, rfl⟩, rfl⟩, hpid⟩
  · intro hid
    obtain ⟨k, ⟨e, ⟨he, hvalid⟩, rfl⟩, rfl⟩ := hid
    obtain ⟨j, hj⟩ := List.mem_iff_getElem?.mp he
    rw [OrderEntry.eq_queued hvalid] at hj
    exact ⟨j, h.key j e.order hj⟩

theorem Lined.empty (h : lvl.Lined heap line) : lvl.empty = line.queue.isEmpty := by
  rw [Bool.eq_iff_iff, empty_iff, List.isEmpty_iff]
  constructor
  · intro hnone
    apply List.eq_nil_iff_forall_not_mem.mpr
    intro k hk
    obtain ⟨j, hj⟩ := (h.key_iff k.1).mpr (List.mem_map_of_mem hk)
    rw [hnone] at hj
    cases hj
  · intro hnil id
    cases hid : lvl.ordersMap.find? id with
    | none => rfl
    | some j =>
      have hmem := (h.key_iff id).mp ⟨j, hid⟩
      rw [hnil] at hmem
      cases hmem

theorem Lined.size (h : lvl.Lined heap line) (hline : line.Sound heap) :
    lvl.size = line.queue.length := by
  have hperm : (lvl.ordersMap.entries.map Prod.fst).Perm (line.queue.map Prod.fst) := by
    apply (List.perm_ext_iff_of_nodup (SortedMap.keys_nodup _) hline.nodup).mpr
    intro id
    rw [SortedMap.mem_keys_iff, h.key_iff]
  simpa [PriceLevel.size, SortedMap.size] using hperm.length_eq

/-- `total_qty` skips the tombstones. -/
theorem totalQty_eq (lvl : PriceLevel P) (heap : Heap P) : lvl.totalQty heap =
    ((lvl.orderEntries.filter OrderEntry.isValid).map (keyed heap)).foldl
      (fun qty k => qty + (heap k.2).available) 0 := by
  rw [List.foldl_map, List.foldl_filter]
  rfl

theorem Lined.front (h : lvl.Lined heap line) {k : OrderId × OrderPtr}
    {rest : List (OrderId × OrderPtr)} (hqueue : line.queue = k :: rest) :
    lvl.orderEntries[lvl.queueHeadIndex]? = some (.queued k.2) ∧ lvl.front = .ok k.2 := by
  have hempty : lvl.empty = false := by rw [h.empty, hqueue, List.isEmpty_cons]
  obtain ⟨p, hp⟩ := h.head hempty
  obtain ⟨t, ht⟩ := h.wf.valid_eq_cons hp
  have hcons := h.queue
  rw [ht, List.map_cons, hqueue] at hcons
  have hk : k.2 = p := congrArg Prod.snd (List.cons.inj hcons).1.symm
  rw [hk]
  exact ⟨hp, by simp only [PriceLevel.front, hp]⟩

theorem Lined.congr (h : lvl.Lined heap line) (hid : ∀ p, (heap' p).id = (heap p).id) :
    lvl.Lined heap' line where
  wf := h.wf.congr fun e _ => hid e.order
  queue := by
    rw [← h.queue]
    apply List.map_congr_left
    intro e _
    rw [keyed, keyed, hid]
  key j p hj := by
    rw [hid]
    exact h.key j p hj
  head := h.head
  unused := h.unused

theorem Lined.addOrder (h : lvl.Lined heap line) (hline : line.Sound heap) {p : OrderPtr}
    (hused : line.queue ≠ [] ∨ line.added = []) (hnew : (heap p).id ∉ line.added) :
    (lvl.addOrder heap p).Lined heap (line.addOrder heap p) where
  wf := h.wf.addOrder p
  queue := by
    simp only [PriceLevel.addOrder, Line.addOrder, List.filter_append, List.map_append, h.queue]
    rfl
  key j q hj := by
    simp only [PriceLevel.addOrder, List.getElem?_append] at hj ⊢
    split at hj
    · have hold := h.key j q hj
      -- An order of the queue has another id than the new one.
      have hne : (heap q).id ≠ (heap p).id := by
        intro heq
        obtain ⟨k, hk, hkid⟩ := List.mem_map.mp ((h.key_iff _).mp ⟨j, hold⟩)
        exact hnew (heq ▸ hkid ▸ hline.known k hk)
      rw [SortedMap.find?_insert_ne _ hne]
      exact hold
    · next hge =>
      rw [List.getElem?_singleton] at hj
      split at hj
      · next hz =>
        simp only [Option.some.injEq, OrderEntry.mk.injEq, true_and] at hj
        rw [← hj, SortedMap.find?_insert_self, Option.some.injEq]
        omega
      · cases hj
  head _ := by
    cases hqueue : line.queue with
    | nil =>
      -- The level is new, so its head is where the order goes.
      have hentries := h.unused (hused.resolve_left fun hne => hne hqueue)
      have hle := h.wf.head_le
      rw [hentries, List.length_nil, Nat.le_zero] at hle
      exact ⟨p, by simp [PriceLevel.addOrder, hentries, hle]⟩
    | cons k rest =>
      have hfront := (h.front hqueue).1
      have hlt := (List.getElem?_eq_some_iff.mp hfront).1
      exact ⟨k.2, (List.getElem?_append_left hlt).trans hfront⟩
  unused hnil := by simp [Line.addOrder] at hnil

/-- A new tombstone takes one of the valid entries away. -/
theorem filter_set_tombstone {es : List OrderEntry} {i : ℕ} {p : OrderPtr} {f : OrderEntry → Bool}
    (hf : ∀ j e, es[j]? = some e → e.isValid = true → (f e = true ↔ j ≠ i)) :
    (es.set i (.tombstone p)).filter OrderEntry.isValid =
      (es.filter OrderEntry.isValid).filter f := by
  induction es generalizing i with
  | nil => rfl
  | cons e es ih =>
    cases i with
    | zero =>
      -- The entry itself goes, and `f` keeps all that come after it.
      have hrest : (es.filter OrderEntry.isValid).filter f = es.filter OrderEntry.isValid := by
        rw [List.filter_eq_self]
        intro e' he'
        obtain ⟨hmem, hvalid⟩ := List.mem_filter.mp he'
        obtain ⟨j, hj⟩ := List.mem_iff_getElem?.mp hmem
        exact (hf (j + 1) e' hj hvalid).mpr (Nat.succ_ne_zero j)
      rw [List.set_cons_zero, List.filter_cons_of_neg (by simp)]
      cases hvalid : e.isValid with
      | false => rw [List.filter_cons_of_neg (by simp [hvalid]), hrest]
      | true =>
        have hnot : ¬ f e = true := fun hc => (hf 0 e rfl hvalid).mp hc rfl
        rw [List.filter_cons_of_pos hvalid, List.filter_cons_of_neg hnot, hrest]
    | succ i =>
      have hrec := ih (i := i) fun j e' hj hvalid =>
        (hf (j + 1) e' hj hvalid).trans (not_congr Nat.succ_inj)
      rw [List.set_cons_succ]
      cases hvalid : e.isValid with
      | false => simp only [List.filter_cons, hvalid, Bool.false_eq_true, if_false, hrec]
      | true =>
        have hpos : f e = true := (hf 0 e rfl hvalid).mpr (Nat.succ_ne_zero i).symm
        simp only [List.filter_cons, hvalid, if_true, hrec, hpos]

/-- An order leaves the level and the queue. -/
theorem Lined.drop (h : lvl.Lined heap line) {i n : ℕ} {p : OrderPtr} {line' : Line}
    (hp : lvl.orderEntries[i]? = some (.queued p))
    (hqueue : line'.queue = line.drop (heap p).id) (hadded : line'.added = line.added)
    (hwf : WF heap { lvl.unqueued i p (heap p).id with queueHeadIndex := n })
    (hhead : (lvl.unqueued i p (heap p).id).empty = false →
      HeadValid { lvl.unqueued i p (heap p).id with queueHeadIndex := n }) :
    Lined heap { lvl.unqueued i p (heap p).id with queueHeadIndex := n } line' where
  wf := hwf
  queue := by
    have hf : ∀ j e, lvl.orderEntries[j]? = some e → e.isValid = true →
        (((keyed heap e).1 != (heap p).id) = true ↔ j ≠ i) := by
      intro j e hj hvalid
      rw [OrderEntry.eq_queued hvalid] at hj
      have hkey := h.key j e.order hj
      rw [bne_iff_ne, ne_eq, not_iff_not]
      constructor
      · intro hid
        have hid : (heap e.order).id = (heap p).id := hid
        rw [hid, h.key i p hp, Option.some.injEq] at hkey
        exact hkey.symm
      · intro heq
        rw [heq, hp, Option.some.injEq] at hj
        show (heap e.order).id = (heap p).id
        rw [← congrArg OrderEntry.order hj]
    have hset := filter_set_tombstone (p := p) (i := i)
      (f := fun e => (keyed heap e).1 != (heap p).id) hf
    rw [hqueue, Line.drop, ← h.queue, List.filter_map]
    exact congrArg (List.map (keyed heap)) hset
  key j q hj := by
    obtain ⟨hne, hold⟩ := queued_of_set hj
    have hkey := h.key j q hold
    have hid : (heap q).id ≠ (heap p).id := by
      intro heq
      rw [heq, h.key i p hp, Option.some.injEq] at hkey
      exact hne hkey.symm
    exact (SortedMap.find?_erase_ne _ hid).trans hkey
  head := hhead
  unused hnil := by
    have hentries := h.unused (hadded ▸ hnil)
    rw [hentries] at hp
    cases hp

theorem Lined.removeOrder (h : lvl.Lined heap line) (id : OrderId) :
    ∃ lvl', (lvl.removeOrder id).toOption = some ((line.removeOrder id).1, lvl') ∧
      lvl'.Lined heap (line.removeOrder id).2 := by
  obtain ⟨b, lvl', hrem, hremoved, hwf⟩ := removeOrder_ok h.wf id
  have hanswer : b = (line.removeOrder id).1 := by
    rw [Bool.eq_iff_iff, removeOrder_eq_true_iff hrem, h.key_iff]
    simp [Line.removeOrder]
  refine ⟨lvl', by rw [hrem, hanswer]; rfl, ?_⟩
  cases hremoved with
  | absent hnone =>
    have hid : id ∉ line.queue.map Prod.fst := by
      rw [← h.key_iff, hnone]
      simp
    rw [Line.removeOrder_absent hid]
    exact h
  | removed i n p hi hp hid _ _ hvalid =>
    subst hid
    exact h.drop hp rfl rfl hwf hvalid

theorem Lined.popFrontOrderIfFilled (h : lvl.Lined heap line) (hline : line.Sound heap) :
    ∃ lvl', (lvl.popFrontOrderIfFilled heap).toOption = some lvl' ∧
      lvl'.Lined heap (line.popFrontOrderIfFilled heap) := by
  cases hqueue : line.queue with
  | nil =>
    have hempty : lvl.empty = true := by rw [h.empty, hqueue, List.isEmpty_nil]
    refine ⟨lvl, by simp [PriceLevel.popFrontOrderIfFilled, hempty, Except.toOption], ?_⟩
    rw [Line.popFrontOrderIfFilled, hqueue]
    exact h
  | cons k rest =>
    have hempty : lvl.empty = false := by rw [h.empty, hqueue, List.isEmpty_cons]
    obtain ⟨hhead, -⟩ := h.front hqueue
    obtain ⟨lvl', hpop, hpopped, hwf⟩ := popFront_ok h.wf hempty hhead
    refine ⟨lvl', by rw [hpop]; rfl, ?_⟩
    have hid : (heap k.2).id = k.1 := hline.ids k (hqueue ▸ List.mem_cons_self)
    unfold Line.popFrontOrderIfFilled
    cases hpopped with
    | kept hnot =>
      simp only [hqueue]
      rw [if_neg hnot]
      exact h
    | popped n hfilled _ hadvanced =>
      simp only [hqueue]
      rw [if_pos hfilled]
      refine h.drop hhead ?_ rfl hwf fun hne => (hadvanced hne).2
      rw [hid]
      exact (hline.drop_front hqueue).symm

/-- The second version follows the queue, whatever it is asked to remove. -/
theorem follows (P : Type) :
    Follows (LevelMembers.v2 P) (fun heap lvl line => Lined heap lvl line) fun _ _ => True where
  size _ _ _ hline h := h.size hline
  empty _ _ _ _ h := h.empty
  totalQty _ lvl line _ h := by
    rw [← h.queue]
    exact totalQty_eq lvl _
  front _ _ _ _ _ _ h hqueue := by
    show Except.toOption _ = _
    rw [(h.front hqueue).2]
    rfl
  congr _ _ _ _ hid h := h.congr hid
  addOrder _ _ _ _ hline h hused hnew := h.addOrder hline hused hnew
  removeOrder _ _ _ id _ h _ := h.removeOrder id
  popFrontOrderIfFilled _ _ _ hline h := h.popFrontOrderIfFilled hline

end PriceLevel

/-! ### The first version -/

namespace PriceLevelV1
variable {P : Type} {heap heap' : Heap P} {lvl : PriceLevelV1 P} {line : Line}

/-- The order of a node, with its id. -/
def keyed (heap : Heap P) (n : OrderNode) : OrderId × OrderPtr := ((heap n.order).id, n.order)

/-- The list is the queue, and the map has the node of each order in it; for
    an order that was popped the map still has a node, which is gone. -/
structure Lined (heap : Heap P) (lvl : PriceLevelV1 P) (line : Line) : Prop where
  queue : lvl.ordersList.map (keyed heap) = line.queue
  nodes : (lvl.ordersList.map OrderNode.node).Nodup
  allocated : ∀ n ∈ lvl.ordersList, n.node < lvl.nextNode
  key : ∀ n ∈ lvl.ordersList, lvl.ordersMap.find? (heap n.order).id = some n.node
  mapped : ∀ id it, lvl.ordersMap.find? id = some it →
    id ∈ line.popped ∨ ∃ n ∈ lvl.ordersList, (heap n.order).id = id
  dangling : ∀ id ∈ line.popped, ∃ it, lvl.ordersMap.find? id = some it ∧ it < lvl.nextNode ∧
    ∀ n ∈ lvl.ordersList, n.node ≠ it

theorem Lined.new (heap : Heap P) (price : P) : (PriceLevelV1.new price).Lined heap .new := by
  constructor <;> simp [PriceLevelV1.new, Line.new]

theorem Lined.congr (h : lvl.Lined heap line) (hid : ∀ p, (heap' p).id = (heap p).id) :
    lvl.Lined heap' line where
  queue := by
    rw [← h.queue]
    apply List.map_congr_left
    intro n _
    rw [keyed, keyed, hid]
  nodes := h.nodes
  allocated := h.allocated
  key n hn := by
    rw [hid]
    exact h.key n hn
  mapped id it hit := by
    simp only [hid]
    exact h.mapped id it hit
  dangling := h.dangling

/-- The ids of the list are those of the queue. -/
theorem Lined.mem_ids_iff (h : lvl.Lined heap line) (id : OrderId) :
    (∃ n ∈ lvl.ordersList, (heap n.order).id = id) ↔ id ∈ line.queue.map Prod.fst := by
  rw [← h.queue, List.map_map, List.mem_map]
  rfl

theorem Lined.addOrder (h : lvl.Lined heap line) (hline : line.Sound heap) {p : OrderPtr}
    (hnew : (heap p).id ∉ line.added) :
    (lvl.addOrder heap p).Lined heap (line.addOrder heap p) := by
  have hne : ∀ n ∈ lvl.ordersList, (heap n.order).id ≠ (heap p).id := by
    intro n hn heq
    obtain ⟨k, hk, hkid⟩ := List.mem_map.mp ((h.mem_ids_iff _).mp ⟨n, hn, rfl⟩)
    exact hnew (heq ▸ hkid ▸ hline.known k hk)
  have hmem : ∀ n, n ∈ (lvl.addOrder heap p).ordersList ↔
      n ∈ lvl.ordersList ∨ n = ⟨lvl.nextNode, p⟩ := by
    intro n
    simp [PriceLevelV1.addOrder]
  constructor
  case queue =>
    simp only [PriceLevelV1.addOrder, Line.addOrder, List.map_append, h.queue]
    rfl
  case nodes =>
    simp only [PriceLevelV1.addOrder, List.map_append, List.map_cons, List.map_nil]
    rw [List.nodup_append]
    refine ⟨h.nodes, List.nodup_singleton _, ?_⟩
    intro a ha b hb heq
    obtain ⟨n, hn, rfl⟩ := List.mem_map.mp ha
    rw [List.mem_singleton] at hb
    have hlt := h.allocated n hn
    omega
  case allocated =>
    intro n hn
    show n.node < lvl.nextNode + 1
    rcases (hmem n).mp hn with hn | rfl
    · exact Nat.lt_succ_of_lt (h.allocated n hn)
    · exact Nat.lt_succ_self _
  case key =>
    intro n hn
    rcases (hmem n).mp hn with hn | rfl
    · exact (SortedMap.find?_insert_ne _ (hne n hn) _).trans (h.key n hn)
    · exact SortedMap.find?_insert_self _ _ _
  case mapped =>
    intro id it hit
    by_cases hid : id = (heap p).id
    · exact Or.inr ⟨_, (hmem _).mpr (Or.inr rfl), hid.symm⟩
    · rw [PriceLevelV1.addOrder, SortedMap.find?_insert_ne _ hid] at hit
      rcases h.mapped id it hit with hpopped | ⟨n, hn, hnid⟩
      · exact Or.inl hpopped
      · exact Or.inr ⟨n, (hmem n).mpr (Or.inl hn), hnid⟩
  case dangling =>
    intro id hid
    obtain ⟨it, hit, hlt, hnone⟩ := h.dangling id hid
    have hidne : id ≠ (heap p).id := fun heq => hnew (heq ▸ (hline.gone id hid).1)
    refine ⟨it, (SortedMap.find?_insert_ne _ hidne _).trans hit, Nat.lt_succ_of_lt hlt, ?_⟩
    intro n hn
    rcases (hmem n).mp hn with hn | rfl
    · exact hnone n hn
    · exact (Nat.ne_of_lt hlt).symm

/-- Two nodes of the list with one number are the same. -/
theorem Lined.node_inj (h : lvl.Lined heap line) {n n' : OrderNode} (hn : n ∈ lvl.ordersList)
    (hn' : n' ∈ lvl.ordersList) (heq : n.node = n'.node) : n = n' :=
  List.inj_on_of_nodup_map h.nodes hn hn' heq

/-- The node of an order of the queue is erased. -/
theorem Lined.filter_keyed (h : lvl.Lined heap line) {n : OrderNode} (hn : n ∈ lvl.ordersList) :
    (lvl.ordersList.filter fun m => m.node != n.node).map (keyed heap) =
      line.drop (heap n.order).id := by
  rw [Line.drop, ← h.queue, List.filter_map]
  congr 1
  apply List.filter_congr
  intro m hm
  rw [Bool.eq_iff_iff]
  simp only [bne_iff_ne, ne_eq, not_iff_not, Function.comp_apply, keyed]
  constructor
  · intro heq
    rw [h.node_inj hm hn heq]
  · intro heq
    have hkey := h.key m hm
    rw [heq, h.key n hn, Option.some.injEq] at hkey
    exact hkey.symm

/-- An order leaves the list and the queue.  Its id leaves the map as well, or
    counts as popped from now on. -/
theorem Lined.drop (h : lvl.Lined heap line) {n : OrderNode} (hn : n ∈ lvl.ordersList)
    {map : SortedMap (· < · : OrderId → OrderId → Prop) ℕ} {line' : Line}
    (hqueue : line'.queue = line.drop (heap n.order).id)
    (hmap : ∀ id, id ≠ (heap n.order).id → map.find? id = lvl.ordersMap.find? id)
    (hpopped : ∀ id, id ≠ (heap n.order).id → (id ∈ line'.popped ↔ id ∈ line.popped))
    (hself : ((heap n.order).id ∈ line'.popped ∧ map.find? (heap n.order).id = some n.node) ∨
      ((heap n.order).id ∉ line'.popped ∧ map.find? (heap n.order).id = none)) :
    Lined heap
      { lvl with ordersList := lvl.ordersList.filter fun m => m.node != n.node, ordersMap := map }
      line' := by
  have hmem : ∀ m, m ∈ (lvl.ordersList.filter fun m => m.node != n.node) →
      m ∈ lvl.ordersList ∧ m.node ≠ n.node := by
    intro m hm
    simpa using hm
  have hid : ∀ m ∈ lvl.ordersList, m.node ≠ n.node → (heap m.order).id ≠ (heap n.order).id := by
    intro m hm hne heq
    have hkey := h.key m hm
    rw [heq, h.key n hn, Option.some.injEq] at hkey
    exact hne hkey.symm
  constructor
  case queue =>
    rw [hqueue]
    exact h.filter_keyed hn
  case nodes =>
    exact h.nodes.sublist (List.filter_sublist.map _)
  case allocated =>
    intro m hm
    exact h.allocated m (hmem m hm).1
  case key =>
    intro m hm
    obtain ⟨hold, hne⟩ := hmem m hm
    rw [hmap _ (hid m hold hne)]
    exact h.key m hold
  case mapped =>
    intro id it hit
    by_cases heq : id = (heap n.order).id
    · subst heq
      rcases hself with ⟨hin, -⟩ | ⟨-, hnone⟩
      · exact Or.inl hin
      · rw [hnone] at hit
        cases hit
    · rw [hmap id heq] at hit
      rcases h.mapped id it hit with hold | ⟨m, hm, hmid⟩
      · exact Or.inl ((hpopped id heq).mpr hold)
      · have hne : m.node ≠ n.node := by
          intro hnode
          rw [h.node_inj hm hn hnode] at hmid
          exact heq hmid.symm
        exact Or.inr ⟨m, by simpa using ⟨hm, hne⟩, hmid⟩
  case dangling =>
    intro id hin
    by_cases heq : id = (heap n.order).id
    · subst heq
      rcases hself with ⟨-, hfind⟩ | ⟨hnot, -⟩
      · exact ⟨n.node, hfind, h.allocated n hn, fun m hm => (hmem m hm).2⟩
      · exact absurd hin hnot
    · obtain ⟨it, hit, hlt, hnone⟩ := h.dangling id ((hpopped id heq).mp hin)
      exact ⟨it, (hmap id heq).trans hit, hlt, fun m hm => hnone m (hmem m hm).1⟩

/-- Removing works as long as the order was not popped. -/
theorem Lined.removeOrder (h : lvl.Lined heap line) {id : OrderId} (hok : id ∉ line.popped) :
    ∃ lvl', lvl.removeOrder id = some ((line.removeOrder id).1, lvl') ∧
      lvl'.Lined heap (line.removeOrder id).2 := by
  cases hid : lvl.ordersMap.find? id with
  | none =>
    have hnot : id ∉ line.queue.map Prod.fst := by
      rw [← h.mem_ids_iff]
      rintro ⟨n, hn, rfl⟩
      rw [h.key n hn] at hid
      cases hid
    rw [Line.removeOrder_absent hnot]
    exact ⟨lvl, by simp [PriceLevelV1.removeOrder, hid], h⟩
  | some it =>
    -- The map has its node, which is still in the list.
    obtain ⟨n, hn, hnid⟩ := (h.mapped id it hid).resolve_left hok
    have hnode : n.node = it := by
      have hkey := h.key n hn
      rw [hnid, hid, Option.some.injEq] at hkey
      exact hkey.symm
    subst hnode
    subst hnid
    have hany : (lvl.ordersList.any fun m => m.node == n.node) = true :=
      List.any_eq_true.mpr ⟨n, hn, by simp⟩
    have hmem : (line.queue.any fun k => k.1 == (heap n.order).id) = true := by
      obtain ⟨k, hk, hkid⟩ := List.mem_map.mp ((h.mem_ids_iff _).mp ⟨n, hn, rfl⟩)
      exact List.any_eq_true.mpr ⟨k, hk, by simp [hkid]⟩
    refine ⟨_, by simp only [PriceLevelV1.removeOrder, hid, eraseNode, hany, if_true,
      Option.bind_eq_bind, Option.bind_some, Line.removeOrder, hmem]; rfl, ?_⟩
    exact h.drop hn rfl (fun id hne => SortedMap.find?_erase_ne _ hne) (fun _ _ => Iff.rfl)
      (Or.inr ⟨hok, SortedMap.find?_erase_self _ _⟩)

/-- The order was popped: its node is gone, and its id is still in the map. -/
theorem Lined.removeOrder_popped (h : lvl.Lined heap line) {id : OrderId}
    (hpopped : id ∈ line.popped) : lvl.removeOrder id = none := by
  obtain ⟨it, hit, -, hnone⟩ := h.dangling id hpopped
  have hany : (lvl.ordersList.any fun n => n.node == it) = false := by
    rw [List.any_eq_false]
    intro n hn
    simpa using hnone n hn
  simp [PriceLevelV1.removeOrder, hit, eraseNode, hany]

theorem Lined.popFrontOrderIfFilled (h : lvl.Lined heap line) (hline : line.Sound heap) :
    ∃ lvl', lvl.popFrontOrderIfFilled heap = some lvl' ∧
      lvl'.Lined heap (line.popFrontOrderIfFilled heap) := by
  have hkeyed := h.queue
  cases hlist : lvl.ordersList with
  | nil =>
    rw [hlist, List.map_nil] at hkeyed
    refine ⟨lvl, by simp [PriceLevelV1.popFrontOrderIfFilled, PriceLevelV1.empty, hlist], ?_⟩
    rw [Line.popFrontOrderIfFilled, ← hkeyed]
    exact h
  | cons n rest =>
    rw [hlist, List.map_cons] at hkeyed
    have hfront : lvl.front = some n.order := by rw [PriceLevelV1.front, hlist]; rfl
    have hempty : lvl.empty = false := by rw [PriceLevelV1.empty, hlist]; rfl
    have hn : n ∈ lvl.ordersList := hlist ▸ List.mem_cons_self
    by_cases hfilled : (heap n.order).status = .fullyFilled
    · refine ⟨{ lvl with ordersList := rest }, ?_, ?_⟩
      · simp [PriceLevelV1.popFrontOrderIfFilled, hempty, hfront, hfilled, hlist]
      · have hrest : (lvl.ordersList.filter fun m => m.node != n.node) = rest := by
          have hnodes := h.nodes
          rw [hlist, List.map_cons, List.nodup_cons] at hnodes
          rw [hlist, List.filter_cons_of_neg (by simp), List.filter_eq_self]
          intro m hm
          rw [bne_iff_ne]
          intro heq
          exact hnodes.1 (List.mem_map.mpr ⟨m, hm, heq⟩)
        have hpop : line.popFrontOrderIfFilled heap =
            { line with
              queue := rest.map (keyed heap), popped := (heap n.order).id :: line.popped } := by
          rw [Line.popFrontOrderIfFilled, ← hkeyed]
          exact if_pos hfilled
        have hdrop : (line.popFrontOrderIfFilled heap).queue = line.drop (heap n.order).id := by
          rw [hpop]
          exact (hline.drop_front hkeyed.symm).symm
        -- The map keeps the id of the popped order.
        have hmap : ∀ id, id ≠ (heap n.order).id →
            lvl.ordersMap.find? id = lvl.ordersMap.find? id := fun _ _ => rfl
        have hlined := h.drop hn hdrop hmap
          (fun id hne => by rw [hpop]; simp [hne])
          (Or.inl ⟨by rw [hpop]; exact List.mem_cons_self, h.key n hn⟩)
        rw [hrest] at hlined
        exact hlined
    · refine ⟨lvl, ?_, ?_⟩
      · simp [PriceLevelV1.popFrontOrderIfFilled, hempty, hfront, hfilled]
      · have hpop : line.popFrontOrderIfFilled heap = line := by
          rw [Line.popFrontOrderIfFilled, ← hkeyed]
          exact if_neg hfilled
        rw [hpop]
        exact h

/-- The first version follows the queue as long as it is not asked to remove
    an order that was popped. -/
theorem follows (P : Type) :
    Follows (LevelMembers.v1 P) (fun heap lvl line => Lined heap lvl line)
      fun line id => id ∉ line.popped where
  size _ lvl _ _ h := by
    rw [← h.queue, List.length_map]
    rfl
  empty _ lvl _ _ h := by
    rw [← h.queue, List.isEmpty_map]
    rfl
  totalQty _ lvl _ _ h := by
    rw [← h.queue, List.foldl_map]
    rfl
  front _ lvl _ k rest _ h hqueue := by
    have hkeyed := h.queue
    rw [hqueue] at hkeyed
    obtain ⟨n, ns, hlist, hn, -⟩ := List.map_eq_cons_iff.mp hkeyed
    rw [← hn]
    show lvl.ordersList.head?.map OrderNode.order = _
    rw [hlist]
    rfl
  congr _ _ _ _ hid h := h.congr hid
  addOrder _ _ _ _ hline h _ hnew := h.addOrder hline hnew
  removeOrder _ _ _ _ _ h hok := h.removeOrder hok
  popFrontOrderIfFilled _ _ _ hline h := h.popFrontOrderIfFilled hline

end PriceLevelV1

/-! ### The two versions side by side -/

namespace LevelMembers
variable {P : Type}

/-- The second version shows what the queue shows. -/
theorem v2_shown (heap : Heap P) (price : P) {calls : List LevelCall}
    (h : Program.Meets Line.call Line.Open (heap, .new) calls) :
    (v2 P).program.shown (heap, .new price) calls =
      some (Program.outputs Line.call (heap, .new) calls) := by
  refine Program.shown_eq (R := Related fun heap lvl line => PriceLevel.Lined heap lvl line) ?_ ?_ h
  · intro s t c hR hopen
    exact (PriceLevel.follows P).step hR hopen fun _ _ => trivial
  · exact ⟨rfl, .new heap, .new heap price⟩

/-- The first version does exactly until it is asked to remove an order that
    was popped. -/
theorem v1_shown_iff (heap : Heap P) (price : P) {calls : List LevelCall}
    (h : Program.Meets Line.call Line.Open (heap, .new) calls) :
    (v1 P).program.shown (heap, .new price) calls =
      some (Program.outputs Line.call (heap, .new) calls) ↔
    Program.Meets Line.call Line.NotPopped (heap, .new) calls := by
  refine Program.shown_eq_iff (R := Related fun heap lvl line => PriceLevelV1.Lined heap lvl line)
    ?_ ?_ ?_ h
  · intro s t c hR hopen hok
    apply (PriceLevelV1.follows P).step hR hopen
    intro id hc
    subst hc
    exact hok
  · intro s t c hR _ hbad
    obtain ⟨heap, lvl⟩ := s
    obtain ⟨heq, -, hlined⟩ := hR
    cases c with
    | removeOrder id =>
      have hpopped : id ∈ _ := not_not.mp hbad
      have hstuck : (v1 P).removeOrder lvl id = none := hlined.removeOrder_popped hpopped
      simp [program, hstuck]
    | addOrder _ => exact absurd trivial hbad
    | fillFront _ _ => exact absurd trivial hbad
    | popFrontOrderIfFilled => exact absurd trivial hbad
  · exact ⟨rfl, .new heap, .new heap price⟩

/-- **The two versions of the level.**  From an empty level, and for every
    sequence of calls as the book makes them, both versions return and show
    the same exactly when no order is to be removed that was popped before. -/
theorem versions_agree_iff (heap : Heap P) (price : P) (calls : List LevelCall)
    (h : Program.Meets Line.call Line.Open (heap, .new) calls) :
    (∃ views, (v1 P).program.shown (heap, .new price) calls = some views ∧
      (v2 P).program.shown (heap, .new price) calls = some views) ↔
    Program.Meets Line.call Line.NotPopped (heap, .new) calls := by
  rw [← v1_shown_iff heap price h]
  constructor
  · intro hagree
    obtain ⟨views, hv1, hv2⟩ := hagree
    rw [v2_shown heap price h] at hv2
    rw [hv1, ← hv2]
  · intro hv1
    exact ⟨_, hv1, v2_shown heap price h⟩

/-- Orders of 10 at 100, with ids that count from 1. -/
def tens : Heap ℤ := fun p =>
  { Order.ofClient "SPY" .buy 100 10 0 with id := UInt64.ofNat (p.slot + 1) }

/-- Two orders; the first is filled and popped, and the second is removed. -/
def removesWaiting : List LevelCall :=
  [.addOrder ⟨1, 0⟩, .addOrder ⟨1, 1⟩, .fillFront 10 0, .popFrontOrderIfFilled, .removeOrder 2]

theorem versions_agree_iff_removesWaiting :
    Program.Meets Line.call Line.NotPopped (tens, .new) removesWaiting ∧
    ((∃ views, (v1 ℤ).program.shown (tens, .new 100) removesWaiting = some views ∧
      (v2 ℤ).program.shown (tens, .new 100) removesWaiting = some views) ↔
    Program.Meets Line.call Line.NotPopped (tens, .new) removesWaiting) :=
  ⟨by decide, versions_agree_iff tens 100 removesWaiting (by decide)⟩

/-- Two orders; the first is filled and popped, and then removed. -/
def removesPopped : List LevelCall :=
  [.addOrder ⟨1, 0⟩, .addOrder ⟨1, 1⟩, .fillFront 10 0, .popFrontOrderIfFilled, .removeOrder 1]

/-- The second version says that the order is not there; the first one goes to
    the node that was freed. -/
theorem removesPopped_dangles :
    Program.Meets Line.call Line.Open (tens, .new) removesPopped ∧
    (v1 ℤ).program.shown (tens, .new 100) removesPopped = none ∧
    ((v2 ℤ).program.shown (tens, .new 100) removesPopped).bind List.getLast? =
      some ⟨some false, 1, false, 10, some ⟨1, 1⟩⟩ ∧
    ¬ ∃ views, (v1 ℤ).program.shown (tens, .new 100) removesPopped = some views ∧
      (v2 ℤ).program.shown (tens, .new 100) removesPopped = some views := by
  have hv1 : (v1 ℤ).program.shown (tens, .new 100) removesPopped = none := by decide +kernel
  refine ⟨by decide, hv1, by decide +kernel, ?_⟩
  intro hagree
  obtain ⟨views, hviews, -⟩ := hagree
  rw [hv1] at hviews
  cases hviews

end LevelMembers
end Orderbook
