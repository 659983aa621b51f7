import Mathlib.Data.List.Sort
import Mathlib.Order.RelClasses
import Mathlib.Tactic

/-! # Queues by priority and arrival

    Entries are numbered in the order in which they arrive, and each has a
    rank in a strict total order.  A queue holds them by rank, and entries of
    equal rank by arrival.  `sweep` is the greedy walk along such a queue:
    deal with the entry at the front for as long as one wants to go on, and
    drop it when it is used up. -/

namespace Orderbook
namespace Priority

/-! ### The order of the queue -/

section Ahead
variable {K : Type} {r : K → K → Prop} [IsStrictTotalOrder K r] {rank rank' : ℕ → K}

/-- `i` is served before `j`. -/
def Ahead (r : K → K → Prop) (rank : ℕ → K) (i j : ℕ) : Prop :=
  r (rank i) (rank j) ∨ (rank i = rank j ∧ i < j)

theorem Ahead.irrefl (i : ℕ) : ¬ Ahead r rank i i := by
  rintro (h | h)
  · exact irrefl_of r _ h
  · exact Nat.lt_irrefl _ h.2

theorem Ahead.trans {i j k : ℕ} (hij : Ahead r rank i j) (hjk : Ahead r rank j k) :
    Ahead r rank i k := by
  unfold Ahead at hij hjk ⊢
  rcases hij with hij | ⟨heq, hij⟩
  · rcases hjk with hjk | ⟨heq', -⟩
    · exact Or.inl (trans_of r hij hjk)
    · rw [← heq']
      exact Or.inl hij
  · rcases hjk with hjk | ⟨heq', hjk⟩
    · rw [heq]
      exact Or.inl hjk
    · exact Or.inr ⟨heq.trans heq', Nat.lt_trans hij hjk⟩

theorem Ahead.asymm {i j : ℕ} (hij : Ahead r rank i j) : ¬ Ahead r rank j i :=
  fun hji => Ahead.irrefl i (hij.trans hji)

theorem Ahead.ne {i j : ℕ} (hij : Ahead r rank i j) : i ≠ j := by
  intro heq
  rw [heq] at hij
  exact Ahead.irrefl j hij

/-- A queue in which every entry is ahead of those behind it. -/
def Sorted (r : K → K → Prop) (rank : ℕ → K) (l : List ℕ) : Prop := l.Pairwise (Ahead r rank)

omit [IsStrictTotalOrder K r] in
/-- Only the ranks of the entries matter. -/
theorem Sorted.congr {l : List ℕ} (h : Sorted r rank l) (hsame : ∀ k ∈ l, rank' k = rank k) :
    Sorted r rank' l := by
  refine List.Pairwise.imp_of_mem ?_ h
  intro a b ha hb hab
  unfold Ahead at hab ⊢
  rwa [hsame a ha, hsame b hb]

theorem Sorted.nodup {l : List ℕ} (h : Sorted r rank l) : l.Nodup := by
  refine List.Pairwise.imp ?_ h
  intro a b hab
  exact hab.ne

/-- Two queues with the same entries are the same. -/
theorem Sorted.ext {l l' : List ℕ} (h : Sorted r rank l) (h' : Sorted r rank l')
    (hmem : ∀ k, k ∈ l ↔ k ∈ l') : l = l' := by
  have hperm : l.Perm l' := (List.perm_ext_iff_of_nodup h.nodup h'.nodup).mpr hmem
  exact hperm.eq_of_pairwise (fun a b _ _ hab hba => absurd hba hab.asymm) h h'

omit [IsStrictTotalOrder K r] in
/-- Who stays of a queue stays in order. -/
theorem Sorted.keep {l : List ℕ} (h : Sorted r rank l) (p : ℕ → Bool) :
    Sorted r rank (l.filter p) :=
  List.Pairwise.filter p h

/-! ### Joining the queue -/

variable [DecidableRel r]

/-- Put `i` behind all entries that do not rank strictly lower. -/
def place (r : K → K → Prop) [DecidableRel r] (rank : ℕ → K) (i : ℕ) (l : List ℕ) : List ℕ :=
  l.orderedInsert (fun a b => r (rank a) (rank b)) i

omit [IsStrictTotalOrder K r] in
@[simp] theorem mem_place {i k : ℕ} {l : List ℕ} : k ∈ place r rank i l ↔ k = i ∨ k ∈ l :=
  List.mem_orderedInsert _

omit [IsStrictTotalOrder K r] in
@[simp] theorem length_place {i : ℕ} {l : List ℕ} : (place r rank i l).length = l.length + 1 :=
  List.orderedInsert_length _ _ _

/-- A newcomer finds its place behind the others of its rank. -/
theorem Sorted.place {l : List ℕ} (h : Sorted r rank l) {i : ℕ} (hnew : ∀ k ∈ l, k < i) :
    Sorted r rank (place r rank i l) := by
  induction l with
  | nil => exact List.pairwise_singleton _ _
  | cons j t ih =>
    obtain ⟨hj, ht⟩ := List.pairwise_cons.mp h
    have htail := ih ht fun k hk => hnew k (List.mem_cons_of_mem _ hk)
    unfold Priority.place at htail ⊢
    rw [List.orderedInsert_cons]
    split
    · next hlt =>
      refine List.pairwise_cons.mpr ⟨?_, h⟩
      intro k hk
      rcases List.mem_cons.mp hk with rfl | hk
      · exact Or.inl hlt
      · exact Ahead.trans (Or.inl hlt) (hj k hk)
    · next hge =>
      refine List.pairwise_cons.mpr ⟨?_, htail⟩
      intro k hk
      rcases (List.mem_orderedInsert _).mp hk with rfl | hk
      -- The newcomer does not rank higher, and arrived later.
      · rcases trichotomous_of r (rank j) (rank k) with hlt | heq | hgt
        · exact Or.inl hlt
        · exact Or.inr ⟨heq, hnew j List.mem_cons_self⟩
        · exact absurd hgt hge
      · exact hj k hk

/-- The newcomer has those ahead of it that do not rank lower, and the others
    behind it. -/
theorem Sorted.place_eq {l : List ℕ} (h : Sorted r rank l) (i : ℕ) :
    Priority.place r rank i l = l.filter (fun k => ¬ r (rank i) (rank k)) ++
      i :: l.filter fun k => r (rank i) (rank k) := by
  induction l with
  | nil => rfl
  | cons j t ih =>
    obtain ⟨hj, ht⟩ := List.pairwise_cons.mp h
    by_cases hlt : r (rank i) (rank j)
    · -- All that follow rank lower, too.
      have hall : ∀ k ∈ j :: t, r (rank i) (rank k) := by
        intro k hk
        rcases List.mem_cons.mp hk with rfl | hk
        · exact hlt
        · rcases hj k hk with hlt' | ⟨heq, -⟩
          · exact trans_of r hlt hlt'
          · rw [← heq]
            exact hlt
      have hnone : (j :: t).filter (fun k => ¬ r (rank i) (rank k)) = [] := by
        refine List.filter_eq_nil_iff.mpr fun k hk => ?_
        simpa using hall k hk
      have hsame : (j :: t).filter (fun k => r (rank i) (rank k)) = j :: t :=
        List.filter_eq_self.mpr fun k hk => decide_eq_true (hall k hk)
      rw [hnone, hsame, Priority.place, List.orderedInsert_cons, if_pos hlt, List.nil_append]
    · have hplace : Priority.place r rank i (j :: t) = j :: Priority.place r rank i t := by
        rw [Priority.place, List.orderedInsert_cons, if_neg hlt, Priority.place]
      rw [hplace, ih ht, List.filter_cons_of_pos (by simpa using hlt),
        List.filter_cons_of_neg (by simpa using hlt), List.cons_append]

omit [IsStrictTotalOrder K r] in
/-- Only the ranks of those in the queue matter for a place in it. -/
theorem join_congr {l : List ℕ} (hsame : ∀ k ∈ l, rank' k = rank k) (x : K) (i : ℕ) :
    l.filter (fun k => ¬ r x (rank' k)) ++ i :: l.filter (fun k => r x (rank' k)) =
      l.filter (fun k => ¬ r x (rank k)) ++ i :: l.filter fun k => r x (rank k) := by
  congr 1
  · exact List.filter_congr fun k hk => by rw [hsame k hk]
  · congr 1
    exact List.filter_congr fun k hk => by rw [hsame k hk]

end Ahead

/-! ### Walking along the queue -/

section Sweep
variable {σ ι : Type} (go : σ → ι → Bool) (deal : σ → ι → σ) (gone : σ → ι → Bool)

/-- Deal with the entries from the front on for as long as `go` allows.  An
    entry that is not `gone` afterwards stays at the front and ends the walk. -/
def sweep : σ → List ι → σ × List ι
  | s, [] => (s, [])
  | s, j :: js =>
    if go s j then
      if gone (deal s j) j then sweep (deal s j) js else (deal s j, j :: js)
    else (s, j :: js)

/-- What is left of the queue when its front entry has been dealt with. -/
def after (s : σ) (j : ι) (js : List ι) : List ι := if gone s j then js else j :: js

variable {go deal gone}

@[simp] theorem sweep_nil (s : σ) : sweep go deal gone s [] = (s, []) := rfl

theorem sweep_stop {s : σ} {l : List ι} (h : ∀ j ∈ l.head?, go s j = false) :
    sweep go deal gone s l = (s, l) := by
  cases l with
  | nil => rfl
  | cons j js => simp [sweep, h j rfl]

/-- One deal and then the rest of the walk, where an entry that is left over
    means that one does not want to go on. -/
theorem sweep_step {s : σ} {j : ι} {js : List ι} (hgo : go s j = true)
    (hend : gone (deal s j) j = false → go (deal s j) j = false) :
    sweep go deal gone s (j :: js) =
      sweep go deal gone (deal s j) (after gone (deal s j) j js) := by
  unfold after
  cases hgone : gone (deal s j) j with
  | true => simp [sweep, hgo, hgone]
  | false => simp [sweep, hgo, hgone, hend hgone]

/-- **Invariant rule.** -/
theorem sweep_invariant {I : σ → List ι → Prop}
    (hstep : ∀ s j js, go s j = true → I s (j :: js) → I (deal s j) (after gone (deal s j) j js))
    {s : σ} {l : List ι} (h : I s l) :
    I (sweep go deal gone s l).1 (sweep go deal gone s l).2 := by
  induction l generalizing s with
  | nil => exact h
  | cons j js ih =>
    unfold sweep
    split
    · next hgo =>
      have hone := hstep s j js hgo h
      unfold after at hone
      split
      · next hgone =>
        rw [if_pos hgone] at hone
        exact ih hone
      · next hgone =>
        rw [if_neg hgone] at hone
        exact hone
    · exact h

end Sweep
end Priority
end Orderbook
