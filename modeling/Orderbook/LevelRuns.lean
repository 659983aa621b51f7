import Orderbook.LevelVersions
import Orderbook.Lib.Path

/-! # A level on its own

    Any sequence of calls on a `PriceLevel`, whatever the orders and their
    ids, an emptied level included, while the orders change between the
    calls.  The level stays well formed, so `increment_to_valid`, which has
    no bound of its own, always has a valid entry in front of it. -/

namespace Orderbook

structure LevelState (P : Type) where
  heap : Heap P
  lvl  : PriceLevel P

inductive LevelEvent (P : Type) where
  | addOrder (order : OrderPtr)
  | removeOrder (orderId : OrderId)
  | popFrontOrderIfFilled
  | ordersChange (heap : Heap P)

namespace LevelState
variable {P : Type}

def step (s : LevelState P) : LevelEvent P → Except Fault (LevelState P)
  | .addOrder order => .ok { s with lvl := s.lvl.addOrder s.heap order }
  | .removeOrder orderId => do
    let (_, lvl) ← s.lvl.removeOrder orderId
    .ok { s with lvl := lvl }
  | .popFrontOrderIfFilled => do
    let lvl ← s.lvl.popFrontOrderIfFilled s.heap
    .ok { s with lvl := lvl }
  | .ordersChange heap => .ok { s with heap := heap }

def Step (s : LevelState P) (e : LevelEvent P) (s' : LevelState P) : Prop := s.step e = .ok s'

/-- Orders may change, but not their ids. -/
def KeepsIds (s : LevelState P) : LevelEvent P → Prop
  | .ordersChange heap => ∀ p, (heap p).id = (s.heap p).id
  | _ => True

/-- What the unchecked accesses and the unguarded loop of a level rest on. -/
structure Safe (s : LevelState P) : Prop where
  /-- There is a valid entry in front of the loop. -/
  valid : s.lvl.empty = false → ∃ i p, s.lvl.queueHeadIndex ≤ i ∧ i < s.lvl.orderEntries.length ∧
    s.lvl.orderEntries[i]? = some (.queued p)
  /-- The loop stops inside the vector. -/
  increment : ∃ lvl, s.lvl.incrementToValid = .ok lvl ∧
    (s.lvl.empty = false → lvl.queueHeadIndex < s.lvl.orderEntries.length ∧ lvl.HeadValid)
  front : s.lvl.empty = false → ∃ p, s.lvl.front = .ok p
  /-- No call runs into a fault. -/
  returns : ∀ e, s.KeepsIds e → ∃ s', s.step e = .ok s'
  /-- The head only moves forward. -/
  head_mono : ∀ es s', Path (Guarded KeepsIds Step) s es s' →
    s.lvl.queueHeadIndex ≤ s'.lvl.queueHeadIndex

/-! ### One call -/

theorem head_le_of_removed {heap : Heap P} {lvl lvl' : PriceLevel P} {id : OrderId}
    (h : PriceLevel.Removed heap lvl id lvl') : lvl.queueHeadIndex ≤ lvl'.queueHeadIndex := by
  cases h with
  | absent _ => exact Nat.le_refl _
  | removed i n p _ _ _ hle _ _ => exact hle

theorem head_le_of_popped {heap : Heap P} {lvl lvl' : PriceLevel P} {e : OrderEntry}
    (h : PriceLevel.Popped heap lvl e lvl') : lvl.queueHeadIndex ≤ lvl'.queueHeadIndex := by
  cases h with
  | kept _ => exact Nat.le_refl _
  | popped n _ hsame hadvanced =>
    -- Either the level is empty now, or the head went past the popped entry.
    cases hempty : (lvl.unqueued lvl.queueHeadIndex e.order (heap e.order).id).empty with
    | true => exact Nat.le_of_eq (hsame hempty).symm
    | false => exact Nat.le_of_lt (hadvanced hempty).1

/-- Every call returns, keeps the level well formed, and does not move the
    head back. -/
theorem step_ok {s : LevelState P} (h : s.lvl.WF s.heap) {e : LevelEvent P} (he : s.KeepsIds e) :
    ∃ s', s.step e = .ok s' ∧ s'.lvl.WF s'.heap ∧
      s.lvl.queueHeadIndex ≤ s'.lvl.queueHeadIndex := by
  cases e with
  | addOrder order => exact ⟨_, rfl, h.addOrder order, Nat.le_refl _⟩
  | removeOrder id =>
    obtain ⟨b, lvl', hrem, hremoved, hwf⟩ := PriceLevel.removeOrder_ok h id
    exact ⟨{ s with lvl := lvl' }, by simp only [step, hrem, bind, Except.bind], hwf,
      head_le_of_removed hremoved⟩
  | popFrontOrderIfFilled =>
    cases hempty : s.lvl.empty with
    | true =>
      refine ⟨s, ?_, h, Nat.le_refl _⟩
      simp only [step, PriceLevel.popFrontOrderIfFilled, hempty, if_true, bind, Except.bind]
    | false =>
      obtain ⟨entry, hentry, -⟩ := h.front_ok hempty
      obtain ⟨lvl', hpop, hpopped, hwf⟩ := PriceLevel.popFront_ok h hempty hentry
      exact ⟨{ s with lvl := lvl' }, by simp only [step, hpop, bind, Except.bind], hwf,
        head_le_of_popped hpopped⟩
  | ordersChange heap => exact ⟨_, rfl, h.congr fun entry _ => he entry.order, Nat.le_refl _⟩

theorem Step.wf {s s' : LevelState P} {e : LevelEvent P} (hs : Guarded KeepsIds Step s e s')
    (h : s.lvl.WF s.heap) :
    s'.lvl.WF s'.heap ∧ s.lvl.queueHeadIndex ≤ s'.lvl.queueHeadIndex := by
  obtain ⟨he, hok⟩ := hs
  obtain ⟨s'', hok', hwf, hle⟩ := step_ok h he
  rw [hok, Except.ok.injEq] at hok'
  subst hok'
  exact ⟨hwf, hle⟩

/-! ### Any sequence of calls -/

theorem wf_of_path {s s' : LevelState P} {es : List (LevelEvent P)}
    (hr : Path (Guarded KeepsIds Step) s es s') (h : s.lvl.WF s.heap) : s'.lvl.WF s'.heap :=
  hr.invariant (I := fun s => s.lvl.WF s.heap) (fun _ _ _ h hs => (Step.wf hs h).1) h

theorem head_le_of_path {s s' : LevelState P} {es : List (LevelEvent P)}
    (hr : Path (Guarded KeepsIds Step) s es s') (h : s.lvl.WF s.heap) :
    s.lvl.queueHeadIndex ≤ s'.lvl.queueHeadIndex := by
  induction hr with
  | nil s => exact Nat.le_refl _
  | cons hs _ ih =>
    obtain ⟨hwf, hle⟩ := Step.wf hs h
    exact Nat.le_trans hle (ih hwf)

theorem safe_of_wf {s : LevelState P} (h : s.lvl.WF s.heap) : Safe s where
  valid hne := by
    obtain ⟨id, i, hi⟩ := PriceLevel.empty_eq_false_iff.mp hne
    obtain ⟨hle, p, hp, -⟩ := h.mapped id i hi
    exact ⟨i, p, hle, (List.getElem?_eq_some_iff.mp hp).1, hp⟩
  increment := by
    obtain ⟨n, hok, -, hwf, -, hvalid⟩ := PriceLevel.incrementToValid_ok h
    exact ⟨_, hok, fun hne => ⟨hwf.head_lt hne, hvalid hne⟩⟩
  front hne := by
    obtain ⟨entry, -, hfront⟩ := h.front_ok hne
    exact ⟨entry.order, hfront⟩
  returns e he := by
    obtain ⟨s', hok, -⟩ := step_ok h he
    exact ⟨s', hok⟩
  head_mono es s' hr := head_le_of_path hr h

/-- **A level is safe on its own.**  Whatever calls were made on a new level,
    and however its orders changed in between, their ids apart: it is safe. -/
theorem safe_of_path {heap : Heap P} {price : P} {es : List (LevelEvent P)} {s : LevelState P}
    (hr : Path (Guarded KeepsIds Step) ⟨heap, .new price⟩ es s) : Safe s :=
  safe_of_wf (wf_of_path hr (.new heap price))

/-- An order that is added twice and removed leaves its first entry valid in
    an empty level, which is then used again. -/
def reusesLevel : List (LevelEvent ℤ) :=
  [.addOrder ⟨1, 0⟩, .addOrder ⟨1, 0⟩, .removeOrder 1, .popFrontOrderIfFilled, .addOrder ⟨1, 1⟩,
    .removeOrder 7]

theorem safe_of_path_reusesLevel : ∃ s : LevelState ℤ,
    Path (Guarded KeepsIds Step) ⟨LevelMembers.tens, .new 100⟩ reusesLevel s ∧
      s.lvl.empty = false ∧ s.lvl.front = .ok ⟨1, 0⟩ ∧ Safe s := by
  have hr : Path (Guarded KeepsIds Step) ⟨LevelMembers.tens, .new 100⟩ reusesLevel _ :=
    .cons ⟨trivial, rfl⟩ (.cons ⟨trivial, rfl⟩ (.cons ⟨trivial, rfl⟩ (.cons ⟨trivial, rfl⟩
      (.cons ⟨trivial, rfl⟩ (.cons ⟨trivial, rfl⟩ (.nil _))))))
  exact ⟨_, hr, rfl, rfl, safe_of_path hr⟩

end LevelState
end Orderbook
