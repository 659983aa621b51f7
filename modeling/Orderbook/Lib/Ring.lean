import Mathlib.Data.List.Basic
import Mathlib.Tactic

/-! # Sequences laid out in a ring

    The `n`-th element of an unbounded sequence lives in slot `n` modulo the
    size of the ring.  A window of the sequence that is no longer than the
    ring keeps its elements in different slots. -/

namespace Orderbook

/-- Two elements less than a whole turn apart live in different slots. -/
theorem Ring.slot_ne {size m n : ℕ} (hlt : m < n) (hturn : n < m + size) :
    m % size ≠ n % size := by
  intro heq
  have hdvd : size ∣ n - m := (Nat.modEq_iff_dvd' (Nat.le_of_lt hlt)).mp heq
  have hle := Nat.le_of_dvd (by omega) hdvd
  omega

/-- At most a whole turn ahead, only a whole turn leads to the same slot. -/
theorem Ring.slot_eq_iff {size m n : ℕ} (hlt : m < n) (hturn : n ≤ m + size) :
    n % size = m % size ↔ n = m + size := by
  constructor
  · intro heq
    rcases Nat.lt_or_eq_of_le hturn with h | h
    · exact absurd heq.symm (Ring.slot_ne hlt h)
    · exact h
  · intro heq
    rw [heq, Nat.add_mod_right]

/-- Less than a whole turn ahead, the same slot is the same element. -/
theorem Ring.slot_inj {size m n : ℕ} (hle : m ≤ n) (hturn : n < m + size)
    (heq : m % size = n % size) : m = n := by
  rcases Nat.lt_or_eq_of_le hle with h | h
  · exact absurd heq (Ring.slot_ne h hturn)
  · exact h

/-- The ring `cells` holds the elements of `xs` numbered from `lo` up to, but
    not including, `hi`. -/
def RingHolds {α : Type} (cells xs : List α) (lo hi : ℕ) : Prop :=
  ∀ n, lo ≤ n → n < hi → ∃ x, xs[n]? = some x ∧ cells[n % cells.length]? = some x

namespace RingHolds
variable {α : Type} {cells xs : List α} {lo hi : ℕ}

theorem refl (cells xs : List α) (n : ℕ) : RingHolds cells xs n n := by
  intro i hlo hhi
  omega

/-- The elements at the front of the window may be let go. -/
theorem drop (h : RingHolds cells xs lo hi) {lo' : ℕ} (hle : lo ≤ lo') :
    RingHolds cells xs lo' hi := by
  intro n hlo hhi
  exact h n (Nat.le_trans hle hlo) hhi

/-- Overwriting a slot outside the window leaves the window alone. -/
theorem set (h : RingHolds cells xs lo hi) {k : ℕ} (x : α)
    (hk : ∀ n, lo ≤ n → n < hi → n % cells.length ≠ k) :
    RingHolds (cells.set k x) xs lo hi := by
  intro n hlo hhi
  rw [List.length_set, List.getElem?_set_ne (Ne.symm (hk n hlo hhi))]
  exact h n hlo hhi

/-- Writing the next element, where the window leaves room for it. -/
theorem push (h : RingHolds cells xs lo xs.length) (x : α) (hroom : xs.length < lo + cells.length)
    (hpos : 0 < cells.length) :
    RingHolds (cells.set (xs.length % cells.length) x) (xs ++ [x]) lo (xs.length + 1) := by
  intro n hlo hhi
  rw [List.length_set]
  rcases Nat.lt_or_eq_of_le (Nat.le_of_lt_succ hhi) with hlt | heq
  · rw [List.getElem?_append_left hlt, List.getElem?_set_ne (Ring.slot_ne hlt (by omega)).symm]
    exact h n hlo hlt
  · subst heq
    rw [List.getElem?_set_self (Nat.mod_lt _ hpos)]
    exact ⟨x, by simp, rfl⟩

end RingHolds
end Orderbook
