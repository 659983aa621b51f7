import Orderbook.Lib.Path
import Mathlib.Order.Interval.Set.Basic
import Mathlib.Data.Set.Insert

/-! # Numbers handed out in ranges

    A counter grants ranges of consecutive numbers to holders, who issue the
    numbers they hold one at a time, the smallest first.  Whatever the order
    of grants and issues, no number is issued twice and every holder issues
    rising numbers.  The state carries the proofs, so these are facts about
    every `Supply` there is. -/

namespace Orderbook

/-- The state of the counter and its holders, with the history of issues. -/
structure Supply (H : Type) where
  first        : ℕ
  next         : ℕ
  held         : H → Set ℕ
  issued       : List (H × ℕ)
  first_le     : first ≤ next
  held_mem     : ∀ h x, x ∈ held h → first ≤ x ∧ x < next
  disjoint     : ∀ h h' x, x ∈ held h → x ∈ held h' → h = h'
  issued_mem   : ∀ e ∈ issued, first ≤ e.2 ∧ e.2 < next
  not_held     : ∀ e ∈ issued, ∀ h, e.2 ∉ held h
  issued_nodup : (issued.map Prod.snd).Nodup
  ahead        : ∀ e ∈ issued, ∀ x ∈ held e.1, e.2 < x
  rising       : issued.Pairwise fun e e' => e.1 = e'.1 → e.2 < e'.2

namespace Supply
variable {H : Type}

/-- Nothing granted and nothing issued yet. -/
def start (first : ℕ) : Supply H where
  first := first
  next := first
  held := fun _ => ∅
  issued := []
  first_le := Nat.le_refl _
  held_mem := by simp
  disjoint := by simp
  issued_mem := by simp
  not_held := by simp
  issued_nodup := by simp
  ahead := by simp
  rising := by simp

/-- Grant the next `n` numbers to the holder `h`. -/
def grant (s : Supply H) (h : H) (n : ℕ) : Supply H where
  first := s.first
  next := s.next + n
  held := fun h' => s.held h' ∪ {x | h' = h ∧ s.next ≤ x ∧ x < s.next + n}
  issued := s.issued
  first_le := Nat.le_trans s.first_le (Nat.le_add_right _ _)
  held_mem := by
    have hle := s.first_le
    rintro h' x (hx | ⟨-, h₁, h₂⟩)
    · have := s.held_mem h' x hx
      omega
    · omega
  disjoint := by
    -- What is granted now is beyond everything granted before.
    rintro h₁ h₂ x (hx | ⟨rfl, hx, -⟩) (hy | ⟨rfl, hy, -⟩)
    · exact s.disjoint h₁ h₂ x hx hy
    · have := s.held_mem h₁ x hx
      omega
    · have := s.held_mem h₂ x hy
      omega
    · rfl
  issued_mem := by
    intro e he
    have := s.issued_mem e he
    omega
  not_held := by
    rintro e he h' (hx | ⟨-, hx, -⟩)
    · exact s.not_held e he h' hx
    · have := s.issued_mem e he
      omega
  issued_nodup := s.issued_nodup
  ahead := by
    rintro e he x (hx | ⟨-, hx, -⟩)
    · exact s.ahead e he x hx
    · have := s.issued_mem e he
      omega
  rising := s.rising

/-- The holder `h` issues the smallest number that it holds. -/
def issue (s : Supply H) (h : H) (x : ℕ) (hx : x ∈ s.held h) (hmin : ∀ y ∈ s.held h, x ≤ y) :
    Supply H where
  first := s.first
  next := s.next
  held := fun h' => s.held h' \ {x}
  issued := s.issued ++ [(h, x)]
  first_le := s.first_le
  held_mem := fun h' y hy => s.held_mem h' y hy.1
  disjoint := fun h₁ h₂ y hy hy' => s.disjoint h₁ h₂ y hy.1 hy'.1
  issued_mem := by
    intro e he
    rcases List.mem_append.mp he with he | he
    · exact s.issued_mem e he
    · rw [List.mem_singleton.mp he]
      exact s.held_mem h x hx
  not_held := by
    intro e he h' hy
    rcases List.mem_append.mp he with he | he
    · exact s.not_held e he h' hy.1
    · rw [List.mem_singleton.mp he] at hy
      exact hy.2 rfl
  issued_nodup := by
    rw [List.map_append, List.nodup_append]
    refine ⟨s.issued_nodup, List.nodup_singleton _, ?_⟩
    intro y hy z hz heq
    obtain ⟨e, he, rfl⟩ := List.mem_map.mp hy
    rw [List.mem_singleton.mp hz] at heq
    exact s.not_held e he h (by rw [heq]; exact hx)
  ahead := by
    intro e he y hy
    rcases List.mem_append.mp he with he | he
    · exact s.ahead e he y hy.1
    · have heq := List.mem_singleton.mp he
      rw [heq] at hy ⊢
      exact lt_of_le_of_ne (hmin y hy.1) fun h => hy.2 h.symm
  rising := by
    refine List.pairwise_append.mpr ⟨s.rising, List.pairwise_singleton _ _, ?_⟩
    intro e he e' he' heq
    rw [List.mem_singleton.mp he'] at heq ⊢
    exact s.ahead e he x (by rw [heq]; exact hx)

section IssuedTo
variable [DecidableEq H]

/-- The numbers that one holder has issued, the oldest first. -/
def issuedTo (s : Supply H) (h : H) : List ℕ :=
  (s.issued.filter fun e => e.1 = h).map Prod.snd

theorem mem_issuedTo {s : Supply H} {h : H} {x : ℕ} : x ∈ s.issuedTo h ↔ (h, x) ∈ s.issued := by
  unfold issuedTo
  constructor
  · intro hx
    obtain ⟨e, he, rfl⟩ := List.mem_map.mp hx
    obtain ⟨hmem, heq⟩ := List.mem_filter.mp he
    rw [← of_decide_eq_true heq]
    exact hmem
  · intro hx
    exact List.mem_map.mpr ⟨(h, x), List.mem_filter.mpr ⟨hx, decide_eq_true rfl⟩, rfl⟩

theorem issuedTo_nodup (s : Supply H) (h : H) : (s.issuedTo h).Nodup :=
  s.issued_nodup.sublist (List.filter_sublist.map _)

/-- Two holders have issued no number in common. -/
theorem eq_of_mem_issuedTo {s : Supply H} {h h' : H} {x : ℕ} (hx : x ∈ s.issuedTo h)
    (hx' : x ∈ s.issuedTo h') : h = h' := by
  have heq := List.inj_on_of_nodup_map s.issued_nodup (mem_issuedTo.mp hx) (mem_issuedTo.mp hx') rfl
  exact congrArg Prod.fst heq

theorem issuedTo_of_snoc {s s' : Supply H} {h : H} {x : ℕ} (hs : s'.issued = s.issued ++ [(h, x)])
    (h' : H) : s'.issuedTo h' = s.issuedTo h' ++ if h = h' then [x] else [] := by
  unfold issuedTo
  rw [hs, List.filter_append, List.map_append]
  congr 1
  by_cases heq : h = h' <;> simp [heq]

end IssuedTo

/-! ### Runs -/

inductive Act (H : Type) where
  | grant (h : H) (n : ℕ)
  | issue (h : H) (x : ℕ)

inductive Step : Supply H → Act H → Supply H → Prop where
  | grant (s : Supply H) (h : H) (n : ℕ) : Step s (.grant h n) (s.grant h n)
  | issue (s : Supply H) (h : H) (x : ℕ) (hx : x ∈ s.held h) (hmin : ∀ y ∈ s.held h, x ≤ y) :
      Step s (.issue h x) (s.issue h x hx hmin)

/-- The issues among the acts of a run. -/
def issues (as : List (Act H)) : List (H × ℕ) :=
  as.filterMap fun a => match a with
    | .issue h x => some (h, x)
    | .grant _ _ => none

theorem Step.first_eq {s s' : Supply H} {a : Act H} (h : Step s a s') : s'.first = s.first := by
  cases h <;> rfl

/-- A run adds its issues to the history. -/
theorem issued_of_path {s s' : Supply H} {as : List (Act H)} (h : Path Step s as s') :
    s'.issued = s.issued ++ issues as ∧ s'.first = s.first := by
  induction h with
  | nil s => simp [issues]
  | @cons s s₁ s' a as hs _ ih =>
    refine ⟨?_, ih.2.trans hs.first_eq⟩
    rw [ih.1]
    cases hs with
    | grant h n => rfl
    | issue h x hx hmin => simp [issues, Supply.issue]

/-- **No number is issued twice, and every holder's numbers rise.** -/
theorem issues_of_path {s s' : Supply H} {as : List (Act H)} (h : Path Step s as s')
    (hs : s.issued = []) : ((issues as).map Prod.snd).Nodup ∧
      (issues as).Pairwise (fun e e' => e.1 = e'.1 → e.2 < e'.2) ∧
      ∀ e ∈ issues as, s.first ≤ e.2 ∧ e.2 < s'.next := by
  obtain ⟨hissued, hfirst⟩ := issued_of_path h
  rw [hs, List.nil_append] at hissued
  rw [← hissued, ← hfirst]
  exact ⟨s'.issued_nodup, s'.rising, s'.issued_mem⟩

end Supply
end Orderbook
