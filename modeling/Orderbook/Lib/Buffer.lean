import Mathlib.Logic.Function.Basic
import Mathlib.Tactic

/-! # Growable buffers and the pointers into them

    A contiguous growable array (`std::vector`) seen from the outside of its
    allocation: the elements live in the current buffer, and a pointer is the
    generation of the buffer it was taken from plus an index.  Growing past
    the capacity moves the elements to a new buffer and ends the old one, so
    the pointers of earlier generations no longer denote anything. -/

namespace Orderbook

/-- A pointer to an element: which buffer, and which slot of it. -/
structure BufferPtr where
  buffer : ℕ
  slot   : ℕ
  deriving DecidableEq, Repr

/-- A growable array.  `cells i` is meaningful for `i < size`. -/
structure Buffer (α : Type) where
  buffer   : ℕ
  capacity : ℕ
  size     : ℕ
  cells    : ℕ → α
  size_le  : size ≤ capacity

namespace Buffer
variable {α : Type}

/-- A vector that holds nothing and has allocated nothing. -/
def empty [Inhabited α] : Buffer α := ⟨0, 0, 0, fun _ => default, Nat.le_refl 0⟩

/-- `reserve(n)`: beyond the present capacity the elements move to a new
    buffer of capacity `n`. -/
def reserve (b : Buffer α) (n : ℕ) : Buffer α :=
  if h : n ≤ b.capacity then b
  else { b with buffer := b.buffer + 1, capacity := n,
                size_le := Nat.le_trans b.size_le (by omega) }

/-- `emplace_back(v)`: a full buffer is replaced by one of twice the capacity. -/
def emplaceBack (b : Buffer α) (v : α) : Buffer α :=
  if h : b.size < b.capacity then
    { b with size := b.size + 1, cells := Function.update b.cells b.size v, size_le := h }
  else
    { buffer := b.buffer + 1, capacity := max 1 (2 * b.capacity), size := b.size + 1,
      cells := Function.update b.cells b.size v,
      size_le := by have := b.size_le; omega }

/-- `&b[i]`. -/
def ptr (b : Buffer α) (i : ℕ) : BufferPtr := ⟨b.buffer, i⟩

/-- The pointer denotes an element of the current buffer. -/
def Live (b : Buffer α) (p : BufferPtr) : Prop := p.buffer = b.buffer ∧ p.slot < b.size

instance (b : Buffer α) (p : BufferPtr) : Decidable (b.Live p) :=
  inferInstanceAs (Decidable (_ ∧ _))

/-- Overwrite an element in place. -/
def write (b : Buffer α) (i : ℕ) (v : α) : Buffer α :=
  { b with cells := Function.update b.cells i v }

@[simp] theorem empty_size [Inhabited α] : (empty : Buffer α).size = 0 := rfl
@[simp] theorem empty_capacity [Inhabited α] : (empty : Buffer α).capacity = 0 := rfl

@[simp] theorem write_buffer (b : Buffer α) (i : ℕ) (v : α) : (b.write i v).buffer = b.buffer := rfl
@[simp] theorem write_size (b : Buffer α) (i : ℕ) (v : α) : (b.write i v).size = b.size := rfl
@[simp] theorem write_capacity (b : Buffer α) (i : ℕ) (v : α) :
    (b.write i v).capacity = b.capacity := rfl

theorem write_cells (b : Buffer α) (i j : ℕ) (v : α) :
    (b.write i v).cells j = if j = i then v else b.cells j := by
  simp [write, Function.update_apply]

@[simp] theorem live_write (b : Buffer α) (i : ℕ) (v : α) (p : BufferPtr) :
    (b.write i v).Live p ↔ b.Live p := Iff.rfl

@[simp] theorem reserve_size (b : Buffer α) (n : ℕ) : (b.reserve n).size = b.size := by
  unfold reserve; split <;> rfl

@[simp] theorem reserve_cells (b : Buffer α) (n : ℕ) : (b.reserve n).cells = b.cells := by
  unfold reserve; split <;> rfl

theorem le_reserve_capacity (b : Buffer α) (n : ℕ) : n ≤ (b.reserve n).capacity := by
  unfold reserve; split
  · assumption
  · exact Nat.le_refl n

/-- Room for `k` more elements. -/
theorem reserve_room (b : Buffer α) {n k : ℕ} (h : b.size + k ≤ n) :
    (b.reserve n).size + k ≤ (b.reserve n).capacity := by
  rw [reserve_size]
  exact Nat.le_trans h (b.le_reserve_capacity n)

/-! ### Storage that stays in place -/

/-- The elements of `b` were not moved, though they may have been overwritten. -/
structure Stays (b b' : Buffer α) : Prop where
  buffer : b'.buffer = b.buffer
  capacity : b'.capacity = b.capacity
  size : b'.size = b.size

theorem Stays.refl (b : Buffer α) : Stays b b := ⟨rfl, rfl, rfl⟩

theorem Stays.trans {b b' b'' : Buffer α} (h : Stays b b') (h' : Stays b' b'') : Stays b b'' :=
  ⟨h'.buffer.trans h.buffer, h'.capacity.trans h.capacity, h'.size.trans h.size⟩

theorem stays_write (b : Buffer α) (i : ℕ) (v : α) : Stays b (b.write i v) := ⟨rfl, rfl, rfl⟩

theorem Stays.live_iff {b b' : Buffer α} (h : Stays b b') (p : BufferPtr) :
    b'.Live p ↔ b.Live p := by
  simp only [Live, h.buffer, h.size]

/-! ### Appending several elements within the capacity -/

/-- Append `f 0`, `f 1`, ..., `f (n - 1)`. -/
def emplaceMany (b : Buffer α) (f : ℕ → α) : ℕ → Buffer α
  | 0 => b
  | n + 1 => (emplaceMany b f n).emplaceBack (f n)

theorem emplaceMany_spec (b : Buffer α) (f : ℕ → α) {n : ℕ} (h : b.size + n ≤ b.capacity) :
    (b.emplaceMany f n).buffer = b.buffer ∧ (b.emplaceMany f n).capacity = b.capacity ∧
      (b.emplaceMany f n).size = b.size + n ∧
      ∀ i, (b.emplaceMany f n).cells i =
        if b.size ≤ i ∧ i < b.size + n then f (i - b.size) else b.cells i := by
  induction n with
  | zero =>
    refine ⟨rfl, rfl, rfl, ?_⟩
    intro i
    rw [if_neg (by omega)]
    rfl
  | succ n ih =>
    obtain ⟨h1, h2, h3, h4⟩ := ih (by omega)
    have hroom : (b.emplaceMany f n).size < (b.emplaceMany f n).capacity := by omega
    simp only [emplaceMany, emplaceBack, dif_pos hroom]
    refine ⟨h1, h2, by omega, ?_⟩
    intro i
    rw [Function.update_apply, h3, h4]
    by_cases hi : i = b.size + n
    · rw [if_pos hi, if_pos (by omega), hi, Nat.add_sub_cancel_left]
    · by_cases hlt : b.size ≤ i ∧ i < b.size + n
      · rw [if_neg hi, if_pos hlt, if_pos (by omega)]
      · rw [if_neg hi, if_neg hlt, if_neg (by omega)]

end Buffer
end Orderbook
