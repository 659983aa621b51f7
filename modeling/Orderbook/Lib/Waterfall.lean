import Mathlib.Data.List.Basic
import Mathlib.Tactic

/-! # Sharing an amount in order

    An amount is shared among demands that stand in a row: each takes what it
    can of what those in front of it have left. -/

namespace Orderbook
namespace Waterfall

/-- What each of the demands gets of the amount. -/
def shares : ℕ → List ℕ → List ℕ
  | _, [] => []
  | amount, demand :: demands => min amount demand :: shares (amount - demand) demands

@[simp] theorem shares_nil (amount : ℕ) : shares amount [] = [] := rfl

@[simp] theorem shares_cons (amount demand : ℕ) (demands : List ℕ) :
    shares amount (demand :: demands) = min amount demand :: shares (amount - demand) demands := rfl

@[simp] theorem length_shares (amount : ℕ) (demands : List ℕ) :
    (shares amount demands).length = demands.length := by
  induction demands generalizing amount with
  | nil => rfl
  | cons demand demands ih => rw [shares_cons, List.length_cons, List.length_cons, ih]

/-- A demand gets what the demands in front of it have left, at most itself. -/
theorem getElem_shares {amount m : ℕ} {demands : List ℕ} (hm : m < demands.length)
    (hm' : m < (shares amount demands).length) :
    (shares amount demands)[m] = min (amount - (demands.take m).sum) demands[m] := by
  induction demands generalizing amount m with
  | nil => exact absurd hm (Nat.not_lt_zero _)
  | cons demand demands ih =>
    cases m with
    | zero => simp
    | succ m =>
      have hm : m < demands.length := Nat.lt_of_succ_lt_succ hm
      have hlen : m < (shares (amount - demand) demands).length := by
        rw [length_shares]
        exact hm
      have hrest := ih hm hlen
      simp only [shares_cons, List.getElem_cons_succ, List.take_succ_cons, List.sum_cons]
      rw [hrest, Nat.sub_sub]

theorem shares_zero (demands : List ℕ) : ∀ share ∈ shares 0 demands, share = 0 := by
  induction demands with
  | nil => simp
  | cons demand demands ih =>
    intro share hshare
    rw [shares_cons, Nat.zero_min, Nat.zero_sub] at hshare
    rcases List.mem_cons.mp hshare with rfl | hshare
    · rfl
    · exact ih share hshare

/-- How many demands get something. -/
def served (amount : ℕ) (demands : List ℕ) : ℕ := ((shares amount demands).filter (0 < ·)).length

@[simp] theorem served_nil (amount : ℕ) : served amount [] = 0 := rfl

theorem served_zero (demands : List ℕ) : served 0 demands = 0 := by
  rw [served, List.length_eq_zero_iff, List.filter_eq_nil_iff]
  intro share hshare
  simp [shares_zero demands share hshare]

theorem served_cons {amount demand : ℕ} (hamount : 0 < amount) (hdemand : 0 < demand)
    (demands : List ℕ) :
    served amount (demand :: demands) = 1 + served (amount - demand) demands := by
  have hpos : 0 < min amount demand := lt_min hamount hdemand
  simp [served, hpos, Nat.add_comm]

end Waterfall

theorem takeWhile_congr_of_mem {α : Type} {p q : α → Bool} {l : List α}
    (h : ∀ a ∈ l, p a = q a) : l.takeWhile p = l.takeWhile q := by
  induction l with
  | nil => rfl
  | cons a l ih =>
    rw [List.takeWhile_cons, List.takeWhile_cons, h a List.mem_cons_self,
      ih fun b hb => h b (List.mem_cons_of_mem a hb)]

/-- A test that, passed by an entry, is passed by all before it. -/
theorem takeWhile_eq_filter {α : Type} {p : α → Bool} {l : List α}
    (h : l.Pairwise fun a b => p b = true → p a = true) : l.takeWhile p = l.filter p := by
  induction l with
  | nil => rfl
  | cons a l ih =>
    obtain ⟨ha, hl⟩ := List.pairwise_cons.mp h
    by_cases hp : p a = true
    · rw [List.takeWhile_cons_of_pos hp, List.filter_cons_of_pos hp, ih hl]
    · have hnone : l.filter p = [] := List.filter_eq_nil_iff.mpr fun b hb hpb => hp (ha b hb hpb)
      rw [List.takeWhile_cons_of_neg hp, List.filter_cons_of_neg hp, hnone]

end Orderbook
