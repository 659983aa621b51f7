import Mathlib.Tactic

/-! # Tables as text

    A table is printed line by line.  A line sets its cells between bars, and
    a cell sets its text between blanks, so that the cells of a column are
    of one width.  A reader that splits at the bars and drops the blanks
    gets the texts back. -/

namespace Orderbook

/-- A text, as the list of its characters. -/
abbrev Text : Type := List Char

namespace Table

/-! ### Pieces with an end mark -/

/-- Every piece is followed by the mark. -/
def ended (mark : Char) (pieces : List Text) : Text := pieces.flatMap fun piece => piece ++ [mark]

@[simp] theorem ended_nil (mark : Char) : ended mark [] = [] := rfl

@[simp] theorem ended_cons (mark : Char) (piece : Text) (pieces : List Text) :
    ended mark (piece :: pieces) = piece ++ mark :: ended mark pieces := by
  simp [ended]

theorem ended_append (mark : Char) (pieces pieces' : List Text) :
    ended mark (pieces ++ pieces') = ended mark pieces ++ ended mark pieces' :=
  List.flatMap_append

theorem mem_ended {mark c : Char} {pieces : List Text} (h : c ∈ ended mark pieces) :
    c = mark ∨ ∃ piece ∈ pieces, c ∈ piece := by
  obtain ⟨piece, hpiece, hc⟩ := List.mem_flatMap.mp h
  rcases List.mem_append.mp hc with hc | hc
  · exact Or.inr ⟨piece, hpiece, hc⟩
  · exact Or.inl (List.mem_singleton.mp hc)

theorem length_ended (mark : Char) (pieces : List Text) :
    (ended mark pieces).length = (pieces.map fun piece => piece.length + 1).sum := by
  simp [ended, List.length_flatMap]

/-- The pieces are read back by splitting at the mark.  The last end mark
    leaves an empty piece behind. -/
theorem splitOn_ended {mark : Char} {pieces : List Text} (h : ∀ piece ∈ pieces, mark ∉ piece) :
    (ended mark pieces).splitOn mark = pieces ++ [[]] := by
  induction pieces with
  | nil => exact List.splitOn_nil mark
  | cons piece pieces ih =>
    have hpiece := h piece List.mem_cons_self
    have hpieces := ih fun piece' h' => h piece' (List.mem_cons_of_mem _ h')
    rw [ended_cons, List.splitOn_append_cons_self_of_not_mem hpiece, hpieces, List.cons_append]

/-! ### Cells -/

/-- A text between blanks. -/
def padded (left right : ℕ) (text : Text) : Text :=
  List.replicate left ' ' ++ text ++ List.replicate right ' '

/-- What a cell holds besides blanks. -/
def content (cell : Text) : Text := cell.filter (· ≠ ' ')

theorem length_padded (left right : ℕ) (text : Text) :
    (padded left right text).length = left + text.length + right := by
  simp [padded, Nat.add_assoc]

theorem mem_padded {left right : ℕ} {text : Text} {c : Char} (h : c ∈ padded left right text) :
    c = ' ' ∨ c ∈ text := by
  simp only [padded, List.mem_append, List.mem_replicate] at h
  rcases h with (⟨-, hc⟩ | hc) | ⟨-, hc⟩
  · exact Or.inl hc
  · exact Or.inr hc
  · exact Or.inl hc

theorem content_padded {left right : ℕ} {text : Text} (h : ' ' ∉ text) :
    content (padded left right text) = text := by
  have hkept : text.filter (· ≠ ' ') = text := by
    apply List.filter_eq_self.mpr
    intro c hc
    rw [decide_eq_true_iff]
    rintro rfl
    exact h hc
  have hblank : ∀ n, (List.replicate n ' ').filter (· ≠ ' ') = [] := by
    intro n
    apply List.filter_eq_nil_iff.mpr
    intro c hc
    simp [List.eq_of_mem_replicate hc]
  unfold content padded
  rw [List.filter_append, List.filter_append, hkept, hblank, hblank, List.nil_append,
    List.append_nil]

/-! ### Lines -/

/-- A line of cells: a bar, and a bar after every cell. -/
def line (cells : List Text) : Text := '|' :: ended '|' cells

/-- The contents of the cells of a line. -/
def readLine (text : Text) : List Text := ((text.splitOn '|').drop 1).dropLast.map content

theorem length_line (cells : List Text) :
    (line cells).length = (cells.map fun cell => cell.length + 1).sum + 1 := by
  rw [line, List.length_cons, length_ended]

theorem mem_line {c : Char} {cells : List Text} (h : c ∈ line cells) :
    c = '|' ∨ ∃ cell ∈ cells, c ∈ cell := by
  rcases List.mem_cons.mp h with hc | hc
  · exact Or.inl hc
  · exact mem_ended hc

/-- Reading a line back. -/
theorem readLine_line {cells : List Text} (h : ∀ cell ∈ cells, '|' ∉ cell) :
    readLine (line cells) = cells.map content := by
  have hsplit : (line cells).splitOn '|' = [] :: (cells ++ [[]]) := by
    have hfirst : line cells = [] ++ '|' :: ended '|' cells := rfl
    rw [hfirst, List.splitOn_append_cons_self_of_not_mem List.not_mem_nil, splitOn_ended h]
  rw [readLine, hsplit, List.drop_one, List.tail_cons, List.dropLast_concat]

/-! ### Numbers -/

/-- A number in decimal digits. -/
def ofNat (n : ℕ) : Text := Nat.toDigits 10 n

def toNat (text : Text) : ℕ := Nat.ofDigitChars 10 text 0

@[simp] theorem toNat_ofNat (n : ℕ) : toNat (ofNat n) = n := Nat.ofDigitChars_ten_toDigits

/-- A digit is neither a blank nor a bar nor the end of a line. -/
theorem not_mem_ofNat {n : ℕ} {c : Char} (h : c.isDigit = false) : c ∉ ofNat n := by
  intro hc
  have hdigit := Nat.isDigit_of_mem_toDigits (by decide) (by decide) hc
  rw [h] at hdigit
  exact Bool.false_ne_true hdigit

end Table
end Orderbook
