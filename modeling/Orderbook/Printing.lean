import Orderbook.LevelTotals
import Orderbook.Placement
import Orderbook.Lib.Table

/-! # Printing the book

    `orderbook.h`, `operator<<`: one row for each pair of levels, the best
    prices first, under a row of column names.  The texts of a row are kept
    in a map by column name, and so are the widths of the columns.

    `price_to_string` formats a floating-point number; it is the parameter
    `priceToString`.  The `int`s that count characters are integers here: the
    printed texts are taken to fit them. -/

namespace Orderbook

/-- `std::unordered_map<std::string, V>`. -/
abbrev TextMap (V : Type) : Type := Text → Option V

namespace Printing
open Table

def bidOrders : Text := "Bid Orders".toList
def bidQty    : Text := "Bid Qty".toList
def bidPrice  : Text := "Bid Price".toList
def askPrice  : Text := "Ask Price".toList
def askQty    : Text := "Ask Qty".toList
def askOrders : Text := "Ask Orders".toList

def headers : List Text := [bidOrders, bidQty, bidPrice, askPrice, askQty, askOrders]

/-- `mp[key] = value`. -/
def assign {V : Type} (mp : TextMap V) (key : Text) (value : V) : TextMap V :=
  Function.update mp key (some value)

/-- `get_default_header`. -/
def getDefaultHeader (headers : List Text) : TextMap Text :=
  headers.foldl (fun mp h => assign mp h h) fun _ => none

/-- `std::string(n, c)`.  A negative count becomes one that no string can
    have, and the constructor throws. -/
def repeated (n : ℤ) (c : Char) : Option Text :=
  if n < 0 then none else some (List.replicate n.toNat c)

/-- The body of the loop of `row_to_string`; `none` is an exception. -/
def appendCell (row : TextMap Text) (colMaxSize : TextMap ℤ) (printable : Text) (h : Text) :
    Option Text := do
  let printable := if h = askPrice then printable ++ ['|'] else printable
  let totalSpace ← colMaxSize h
  let cell ← row h
  let numEmptySpaces := totalSpace - cell.length
  let leftEmptySpace := numEmptySpaces.tdiv 2 + 1
  let rightEmptySpace := numEmptySpaces - leftEmptySpace + 2
  let left ← repeated leftEmptySpace ' '
  let right ← repeated rightEmptySpace ' '
  return printable ++ (left ++ cell ++ right ++ ['|'])

def rowToString (header : List Text) (row : TextMap Text) (colMaxSize : TextMap ℤ) :
    Option Text :=
  header.foldlM (appendCell row colMaxSize) ['|']

/-- The variables of `operator<<` while the table is built. -/
structure Layout where
  columnMaxSize : TextMap ℤ
  totalColSize  : ℤ
  tableRows     : List (TextMap Text)

/-- The layout before the levels are looked at. -/
def firstLayout : Layout :=
  let sizes : TextMap ℤ × ℤ := headers.foldl
    (fun st header => (assign st.1 header (header.length : ℤ), st.2 + header.length))
    (fun _ => none, 0)
  { columnMaxSize := sizes.1
    totalColSize  := sizes.2
    tableRows     := [getDefaultHeader headers] }

/-- The loop over the columns at the end of a row.  A key that is not there
    is read as the value that `operator[]` creates. -/
def measure (headers : List Text) (row : TextMap Text) (sizes : TextMap ℤ × ℤ) : TextMap ℤ × ℤ :=
  headers.foldl
    (fun st header =>
      let size := max ((st.1 header).getD 0) ((row header).getD []).length
      (assign st.1 header size, st.2 + size))
    sizes

def Layout.push (lay : Layout) (row : TextMap Text) : Layout :=
  let sizes := measure headers row (lay.columnMaxSize, 0)
  { columnMaxSize := sizes.1
    totalColSize  := max lay.totalColSize sizes.2
    tableRows     := lay.tableRows ++ [row] }

section Rows
variable {P : Type} (heap : OrderPtr → Order P) (priceToString : P → Text)

/-- The row for the levels that the two iterators point at. -/
def tableRow (bit ait : Option (P × PriceLevel P)) : TextMap Text :=
  let row := getDefaultHeader headers
  let row := match bit with
    | some (price, level) =>
      assign (assign (assign row bidOrders (ofNat level.size))
        bidQty (ofNat (level.totalQty heap).toNat)) bidPrice (priceToString price)
    | none => assign (assign (assign row bidOrders []) bidQty []) bidPrice []
  match ait with
  | some (price, level) =>
    assign (assign (assign row askOrders (ofNat level.size))
      askQty (ofNat (level.totalQty heap).toNat)) askPrice (priceToString price)
  | none => assign (assign (assign row askOrders []) askQty []) askPrice []

/-- The loop over the rows; the iterators are what is left of the two maps. -/
def tableLoop : ℕ → List (P × PriceLevel P) → List (P × PriceLevel P) → Layout → Layout
  | 0, _, _, lay => lay
  | rows + 1, bit, ait, lay =>
    tableLoop rows bit.tail ait.tail (lay.push (tableRow heap priceToString bit.head? ait.head?))

end Rows

/-- The last loop: the printed rows, with a rule under the first and the last. -/
def joinRows (printables : List Text) (rule : Text) : Text :=
  printables.zipIdx.flatMap fun (printable, i) =>
    printable ++ ['\n'] ++
      if i = 0 ∨ i = printables.length - 1 then rule ++ ['\n'] else []

end Printing

open Printing in
/-- The table of a book, and the widths of its columns. -/
def OrderBook.layout {P : Type} [LinearOrder P] (book : OrderBook P) (priceToString : P → Text) :
    Layout :=
  let rows := max (book.levels .buy).size (book.levels .sell).size
  tableLoop book.orderPool.get priceToString rows (book.levels .buy).entries
    (book.levels .sell).entries firstLayout

open Printing in
/-- `operator<<`. -/
def OrderBook.print {P : Type} [LinearOrder P] (book : OrderBook P) (priceToString : P → Text) :
    Option Text := do
  let lay := book.layout priceToString
  let printables ← lay.tableRows.mapM fun row => rowToString headers row lay.columnMaxSize
  let rule ← repeated (lay.totalColSize + 20) '-'
  return '\n' :: joinRows printables rule

/-! ### Widths -/

namespace Printing
open Table

theorem headers_nodup : headers.Nodup := by decide

@[simp] theorem assign_self {V : Type} (mp : TextMap V) (key : Text) (value : V) :
    assign mp key value key = some value := Function.update_self ..

theorem assign_ne {V : Type} (mp : TextMap V) {key key' : Text} (h : key' ≠ key) (value : V) :
    assign mp key value key' = mp key' := Function.update_of_ne h ..

/-- A row has a text in each of the columns. -/
def Filled (hs : List Text) (row : TextMap Text) (cell : Text → Text) : Prop :=
  ∀ h ∈ hs, row h = some (cell h)

/-- The columns have the widths `w`. -/
def Wide (hs : List Text) (columnMaxSize : TextMap ℤ) (w : Text → ℕ) : Prop :=
  ∀ h ∈ hs, columnMaxSize h = some (w h : ℤ)

/-- The characters of all columns. -/
def total (hs : List Text) (w : Text → ℕ) : ℕ := (hs.map w).sum

/-- A loop over columns that looks at each of them once. -/
theorem foldl_columns {hs : List Text} (hnodup : hs.Nodup) (g : Option ℤ → Text → ℤ)
    (sizes : TextMap ℤ × ℤ) :
    let last := hs.foldl
      (fun st h => (assign st.1 h (g (st.1 h) h), st.2 + g (st.1 h) h)) sizes
    (∀ h ∈ hs, last.1 h = some (g (sizes.1 h) h)) ∧ (∀ h ∉ hs, last.1 h = sizes.1 h) ∧
      last.2 = sizes.2 + (hs.map fun h => g (sizes.1 h) h).sum := by
  induction hs generalizing sizes with
  | nil => simp
  | cons h hs ih =>
    obtain ⟨hnot, hnodup⟩ := List.nodup_cons.mp hnodup
    obtain ⟨hset, hkept, hsum⟩ := ih hnodup
      (assign sizes.1 h (g (sizes.1 h) h), sizes.2 + g (sizes.1 h) h)
    have hne : ∀ h' ∈ hs, assign sizes.1 h (g (sizes.1 h) h) h' = sizes.1 h' := by
      intro h' hh'
      apply assign_ne
      rintro rfl
      exact hnot hh'
    refine ⟨?_, ?_, ?_⟩
    · intro h' hh'
      rcases List.mem_cons.mp hh' with rfl | hh'
      · exact (hkept h' hnot).trans (assign_self _ _ _)
      · exact (hset h' hh').trans (congrArg (fun size => some (g size h')) (hne h' hh'))
    · intro h' hh'
      rw [List.mem_cons, not_or] at hh'
      exact (hkept h' hh'.2).trans (assign_ne _ hh'.1 _)
    · have hrest : (hs.map fun h' => g (assign sizes.1 h (g (sizes.1 h) h) h') h').sum =
          (hs.map fun h' => g (sizes.1 h') h').sum := by
        congr 1
        apply List.map_congr_left
        intro h' hh'
        rw [hne h' hh']
      rw [List.foldl_cons, hsum, hrest, List.map_cons, List.sum_cons, add_assoc]

theorem total_cast (hs : List Text) (w : Text → ℕ) :
    ((total hs w : ℕ) : ℤ) = (hs.map fun h => (w h : ℤ)).sum := by
  induction hs with
  | nil => rfl
  | cons h hs ih => simp [total, ← ih]

/-- The default sizes are those of the column names. -/
theorem firstLayout_wide : Wide headers firstLayout.columnMaxSize List.length ∧
    firstLayout.totalColSize = total headers List.length := by
  obtain ⟨hset, -, hsum⟩ :=
    foldl_columns headers_nodup (fun _ h => (h.length : ℤ)) (fun _ => none, 0)
  refine ⟨hset, ?_⟩
  rw [total_cast, ← zero_add (List.sum _)]
  exact hsum

/-- A row widens the columns whose text is longer. -/
theorem measure_wide {hs : List Text} (hnodup : hs.Nodup) {row : TextMap Text} {cell : Text → Text}
    {columnMaxSize : TextMap ℤ} {w : Text → ℕ} (hrow : Filled hs row cell)
    (hw : Wide hs columnMaxSize w) :
    Wide hs (measure hs row (columnMaxSize, 0)).1 (fun h => max (w h) (cell h).length) ∧
      (measure hs row (columnMaxSize, 0)).2 = total hs fun h => max (w h) (cell h).length := by
  have hsize : ∀ h ∈ hs, max ((columnMaxSize h).getD 0) ((row h).getD []).length =
      ((max (w h) (cell h).length : ℕ) : ℤ) := by
    intro h hh
    rw [hw h hh, hrow h hh, Nat.cast_max]
    rfl
  obtain ⟨hset, -, hsum⟩ := foldl_columns hnodup
    (fun size h => max (size.getD 0) (((row h).getD []).length : ℤ)) (columnMaxSize, 0)
  constructor
  · intro h hh
    rw [← hsize h hh]
    exact hset h hh
  · rw [total_cast, ← List.map_congr_left hsize, ← zero_add (List.sum _)]
    exact hsum

/-- The layout knows the widths `w`, and the rows fit. -/
structure Layout.Laid (lay : Layout) (w : Text → ℕ) : Prop where
  wide : Wide headers lay.columnMaxSize w
  size : lay.totalColSize = total headers w
  rows : ∀ row ∈ lay.tableRows, ∃ cell, Filled headers row cell ∧
    ∀ h ∈ headers, (cell h).length ≤ w h

theorem total_mono {hs : List Text} {w w' : Text → ℕ} (h : ∀ c ∈ hs, w c ≤ w' c) :
    total hs w ≤ total hs w' :=
  List.sum_le_sum h

theorem getDefaultHeader_filled : Filled headers (getDefaultHeader headers) id := by
  intro h hh
  simp only [headers, List.mem_cons, List.not_mem_nil, or_false] at hh
  rcases hh with rfl | rfl | rfl | rfl | rfl | rfl <;> rfl

theorem firstLayout_laid : firstLayout.Laid List.length where
  wide := firstLayout_wide.1
  size := firstLayout_wide.2
  rows := by
    intro row hrow
    rw [List.mem_singleton.mp hrow]
    exact ⟨id, getDefaultHeader_filled, fun h _ => Nat.le_refl _⟩

theorem Layout.Laid.push {lay : Layout} {w : Text → ℕ} (h : lay.Laid w) {row : TextMap Text}
    {cell : Text → Text} (hrow : Filled headers row cell) :
    (lay.push row).Laid fun h => max (w h) (cell h).length := by
  obtain ⟨hwide, hsum⟩ := measure_wide headers_nodup hrow h.wide
  constructor
  case wide => exact hwide
  case size =>
    have hle : total headers w ≤ total headers fun h => max (w h) (cell h).length :=
      total_mono fun _ _ => Nat.le_max_left _ _
    show max lay.totalColSize (measure headers row (lay.columnMaxSize, 0)).2 = _
    rw [hsum, h.size, ← Nat.cast_max, max_eq_right hle]
  case rows =>
    intro row' hrow'
    rcases List.mem_append.mp hrow' with hrow' | hrow'
    · obtain ⟨cell', hcell', hfits⟩ := h.rows row' hrow'
      exact ⟨cell', hcell', fun c hc => (hfits c hc).trans (Nat.le_max_left _ _)⟩
    · rw [List.mem_singleton.mp hrow']
      exact ⟨cell, hrow, fun c _ => Nat.le_max_right _ _⟩

/-! ### Rows -/

/-- The cells of a printed row.  The double bar is an empty cell. -/
def cells (hs : List Text) (w : Text → ℕ) (cell : Text → Text) : List Text :=
  hs.flatMap fun h =>
    (if h = askPrice then [[]] else []) ++
      [padded ((w h - (cell h).length) / 2 + 1)
        (w h - (cell h).length - (w h - (cell h).length) / 2 + 1) (cell h)]

theorem repeated_ofNat (n : ℕ) (c : Char) : repeated n c = some (List.replicate n c) := by
  unfold repeated
  rw [if_neg (not_lt.mpr (Int.natCast_nonneg n)), Int.toNat_natCast]

theorem appendCell_eq {row : TextMap Text} {columnMaxSize : TextMap ℤ} {h cell : Text} {n : ℕ}
    (hw : columnMaxSize h = some (n : ℤ)) (hrow : row h = some cell) (hfits : cell.length ≤ n)
    (printable : Text) :
    appendCell row columnMaxSize printable h =
      some (printable ++ ended '|' (cells [h] (fun _ => n) fun _ => cell)) := by
  obtain ⟨m, rfl⟩ := Nat.exists_eq_add_of_le hfits
  have hspaces : ((cell.length + m : ℕ) : ℤ) - cell.length = m := by
    rw [Nat.cast_add, add_sub_cancel_left]
  have hleft : (m : ℤ).tdiv 2 + 1 = (m / 2 + 1 : ℕ) := rfl
  have hright : (m : ℤ) - (m / 2 + 1 : ℕ) + 2 = (m - m / 2 + 1 : ℕ) := by
    omega
  unfold appendCell
  simp only [hw, hrow, Option.bind_eq_bind, Option.bind_some, hspaces, hleft, hright,
    repeated_ofNat]
  simp only [cells, List.flatMap_singleton, ended_append, Nat.add_sub_cancel_left]
  split <;> simp [padded]

/-- `row_to_string` prints a row that fits. -/
theorem rowToString_eq {hs : List Text} {row : TextMap Text} {columnMaxSize : TextMap ℤ}
    {w : Text → ℕ} {cell : Text → Text} (hw : Wide hs columnMaxSize w) (hrow : Filled hs row cell)
    (hfits : ∀ h ∈ hs, (cell h).length ≤ w h) :
    rowToString hs row columnMaxSize = some (line (cells hs w cell)) := by
  have hall : ∀ printable, hs.foldlM (appendCell row columnMaxSize) printable =
      some (printable ++ ended '|' (cells hs w cell)) := by
    induction hs with
    | nil => simp [cells]
    | cons h hs ih =>
      intro printable
      have hfirst := appendCell_eq (hw h List.mem_cons_self) (hrow h List.mem_cons_self)
        (hfits h List.mem_cons_self) printable
      have hrest := ih (fun h' hh' => hw h' (List.mem_cons_of_mem _ hh'))
        (fun h' hh' => hrow h' (List.mem_cons_of_mem _ hh'))
        (fun h' hh' => hfits h' (List.mem_cons_of_mem _ hh'))
      have hcells : cells (h :: hs) w cell =
          cells [h] (fun _ => w h) (fun _ => cell h) ++ cells hs w cell := by
        simp [cells]
      rw [List.foldlM_cons, hfirst, hcells, ended_append, ← List.append_assoc]
      exact hrest _
  exact hall ['|']

/-! ### The two sides, row by row -/

/-- What the iterators point at in each row. -/
def pairUp {α β : Type} : ℕ → List α → List β → List (Option α × Option β)
  | 0, _, _ => []
  | rows + 1, bit, ait => (bit.head?, ait.head?) :: pairUp rows bit.tail ait.tail

section PairUp
variable {α β : Type} {rows : ℕ} {bit : List α} {ait : List β}

theorem length_pairUp : (pairUp rows bit ait).length = rows := by
  induction rows generalizing bit ait with
  | zero => rfl
  | succ rows ih => rw [pairUp, List.length_cons, ih]

theorem filterMap_fst_pairUp (h : bit.length ≤ rows) :
    (pairUp rows bit ait).filterMap Prod.fst = bit := by
  induction rows generalizing bit ait with
  | zero =>
    rw [List.eq_nil_of_length_eq_zero (Nat.le_zero.mp h)]
    rfl
  | succ rows ih =>
    have hrest : (pairUp rows bit.tail ait.tail).filterMap Prod.fst = bit.tail := by
      apply ih
      rw [List.length_tail]
      omega
    cases bit with
    | nil => exact hrest
    | cons b bit => exact congrArg (b :: ·) hrest

theorem filterMap_snd_pairUp (h : ait.length ≤ rows) :
    (pairUp rows bit ait).filterMap Prod.snd = ait := by
  induction rows generalizing bit ait with
  | zero =>
    rw [List.eq_nil_of_length_eq_zero (Nat.le_zero.mp h)]
    rfl
  | succ rows ih =>
    have hrest : (pairUp rows bit.tail ait.tail).filterMap Prod.snd = ait.tail := by
      apply ih
      rw [List.length_tail]
      omega
    cases ait with
    | nil => exact hrest
    | cons a ait => exact congrArg (a :: ·) hrest

end PairUp

section Rows
variable {P : Type} {heap : OrderPtr → Order P} {priceToString : P → Text}

theorem tableLoop_rows (rows : ℕ) (bit ait : List (P × PriceLevel P)) (lay : Layout) :
    (tableLoop heap priceToString rows bit ait lay).tableRows = lay.tableRows ++
      (pairUp rows bit ait).map fun e => tableRow heap priceToString e.1 e.2 := by
  induction rows generalizing bit ait lay with
  | zero => simp [tableLoop, pairUp]
  | succ rows ih => rw [tableLoop, ih, pairUp, List.map_cons, Layout.push, List.append_assoc,
      List.singleton_append]

/-- The three texts of a level, or of a side that has no more levels. -/
def levelTexts (heap : OrderPtr → Order P) (priceToString : P → Text) :
    Option (P × PriceLevel P) → Text × Text × Text
  | some (price, level) =>
    (ofNat level.size, ofNat (level.totalQty heap).toNat, priceToString price)
  | none => ([], [], [])

/-- The text of a row in each column. -/
def rowTexts (heap : OrderPtr → Order P) (priceToString : P → Text)
    (bit ait : Option (P × PriceLevel P)) (h : Text) : Text :=
  let bid := levelTexts heap priceToString bit
  let ask := levelTexts heap priceToString ait
  if h = bidOrders then bid.1 else if h = bidQty then bid.2.1 else if h = bidPrice then bid.2.2
  else if h = askPrice then ask.2.2 else if h = askQty then ask.2.1 else ask.1

theorem tableRow_filled (bit ait : Option (P × PriceLevel P)) :
    Filled headers (tableRow heap priceToString bit ait)
      (rowTexts heap priceToString bit ait) := by
  intro h hh
  simp only [headers, List.mem_cons, List.not_mem_nil, or_false] at hh
  rcases hh with rfl | rfl | rfl | rfl | rfl | rfl <;> cases bit <;> cases ait <;> rfl

theorem tableLoop_laid (rows : ℕ) (bit ait : List (P × PriceLevel P)) {lay : Layout} {w : Text → ℕ}
    (h : lay.Laid w) : ∃ w', (tableLoop heap priceToString rows bit ait lay).Laid w' := by
  induction rows generalizing bit ait lay w with
  | zero => exact ⟨w, h⟩
  | succ rows ih => exact ih bit.tail ait.tail (h.push (tableRow_filled bit.head? ait.head?))

end Rows

/-! ### Lines -/

/-- All rows that fit are of one length. -/
theorem length_cells {hs : List Text} {w : Text → ℕ} {cell : Text → Text}
    (hfits : ∀ h ∈ hs, (cell h).length ≤ w h) :
    (line (cells hs w cell)).length = total hs w + 3 * hs.length + hs.count askPrice + 1 := by
  rw [length_line, Nat.add_right_cancel_iff]
  induction hs with
  | nil => rfl
  | cons h hs ih =>
    have hfit := hfits h List.mem_cons_self
    have hrest := ih fun h' hh' => hfits h' (List.mem_cons_of_mem _ hh')
    have hcells : cells (h :: hs) w cell = cells [h] w cell ++ cells hs w cell := by
      simp [cells]
    have hfirst : ((cells [h] w cell).map fun cell => cell.length + 1).sum =
        w h + 3 + if h = askPrice then 1 else 0 := by
      simp only [cells, List.flatMap_singleton]
      split
      · simp only [List.singleton_append, List.map_cons, List.map_nil, List.sum_cons, List.sum_nil,
          length_padded, List.length_nil]
        omega
      · simp only [List.nil_append, List.map_cons, List.map_nil, List.sum_cons, List.sum_nil,
          length_padded]
        omega
    rw [hcells, List.map_append, List.sum_append, hfirst, hrest, List.count_cons, total, total,
      List.map_cons, List.sum_cons, List.length_cons]
    simp only [beq_iff_eq]
    omega

/-- The lines of the table: the rows and the rules. -/
def ruled (printables : List Text) (rule : Text) : List Text :=
  printables.zipIdx.flatMap fun e =>
    e.1 :: if e.2 = 0 ∨ e.2 = printables.length - 1 then [rule] else []

theorem joinRows_eq (printables : List Text) (rule : Text) :
    joinRows printables rule = ended '\n' (ruled printables rule) := by
  unfold joinRows ruled ended
  rw [List.flatMap_assoc]
  apply List.flatMap_congr
  intro e _
  obtain ⟨printable, i⟩ := e
  by_cases hrule : i = 0 ∨ i = printables.length - 1
  · simp [hrule]
  · simp [hrule]

/-- The rows after the first one end with a rule. -/
theorem ruled_tail {printables : List Text} (rule : Text) (k : ℕ) (hne : printables ≠ []) :
    ((printables.zipIdx (k + 1)).flatMap fun e =>
      e.1 :: if e.2 = 0 ∨ e.2 = k + printables.length then [rule] else []) =
        printables ++ [rule] := by
  induction printables generalizing k with
  | nil => exact absurd rfl hne
  | cons p ps ih =>
    rw [List.zipIdx_cons, List.flatMap_cons]
    by_cases hps : ps = []
    · subst hps
      simp
    · have hlen : 0 < ps.length := List.length_pos_iff.mpr hps
      have hrest := ih (k + 1) hps
      rw [show k + (p :: ps).length = k + 1 + ps.length by rw [List.length_cons]; omega, hrest,
        if_neg (by omega)]
      rfl

/-- A rule stands under the names and another one under the last level. -/
theorem ruled_cons (p : Text) (ps : List Text) (rule : Text) :
    ruled (p :: ps) rule = p :: rule :: if ps = [] then [] else ps ++ [rule] := by
  have hlast : (p :: ps).length - 1 = 0 + ps.length := by
    rw [List.length_cons]
    omega
  unfold ruled
  rw [List.zipIdx_cons, List.flatMap_cons, hlast]
  by_cases hps : ps = []
  · subst hps
    simp
  · rw [ruled_tail rule 0 hps, if_neg hps]
    rfl

theorem mem_ruled {p : Text} {ps : List Text} {rule l : Text} (h : l ∈ ruled (p :: ps) rule) :
    l = rule ∨ l ∈ p :: ps := by
  rw [ruled_cons] at h
  rcases List.mem_cons.mp h with rfl | h
  · exact Or.inr List.mem_cons_self
  rcases List.mem_cons.mp h with rfl | h
  · exact Or.inl rfl
  split at h
  · exact absurd h List.not_mem_nil
  · rcases List.mem_append.mp h with h | h
    · exact Or.inr (List.mem_cons_of_mem p h)
    · exact Or.inl (List.mem_singleton.mp h)

/-- The rules can be filtered out. -/
theorem filter_ruled {p : Text} {ps : List Text} {rule : Text} {q : Text → Bool}
    (hrule : q rule = false) (hrows : ∀ l ∈ p :: ps, q l = true) :
    (ruled (p :: ps) rule).filter q = p :: ps := by
  have hkept : ps.filter q = ps :=
    List.filter_eq_self.mpr fun l hl => hrows l (List.mem_cons_of_mem p hl)
  rw [ruled_cons, List.filter_cons_of_pos (hrows p List.mem_cons_self),
    List.filter_cons_of_neg (by simp [hrule])]
  split
  · next hps => rw [hps, List.filter_nil]
  · rw [List.filter_append, hkept, List.filter_cons_of_neg (by simp [hrule]), List.filter_nil,
      List.append_nil]

/-- A row whose texts have room is as long as the rule. -/
theorem length_row {w : Text → ℕ} {cell : Text → Text}
    (hfits : ∀ c ∈ headers, (cell c).length ≤ w c) :
    (line (cells headers w cell)).length = total headers w + 20 := by
  rw [length_cells hfits, show headers.count askPrice = 1 by decide]
  rfl

/-- Rows none of which throws. -/
theorem mapM_eq_some {α β : Type} {f : α → Option β} {g : α → β} {l : List α}
    (h : ∀ a ∈ l, f a = some (g a)) : l.mapM f = some (l.map g) := by
  induction l with
  | nil => rfl
  | cons a l ih =>
    have hrest := ih fun b hb => h b (List.mem_cons_of_mem a hb)
    rw [List.mapM_cons, h a List.mem_cons_self, hrest]
    rfl

/-- A row of the table fits and is printed. -/
theorem Layout.Laid.printed {lay : Layout} {w : Text → ℕ} (h : lay.Laid w) {row : TextMap Text}
    {cell : Text → Text} (hmem : row ∈ lay.tableRows) (hrow : Filled headers row cell) :
    (∀ c ∈ headers, (cell c).length ≤ w c) ∧
      rowToString headers row lay.columnMaxSize = some (line (cells headers w cell)) := by
  have hfits : ∀ c ∈ headers, (cell c).length ≤ w c := by
    intro c hc
    obtain ⟨cell', hcell', hfits⟩ := h.rows row hmem
    have heq := (hcell' c hc).symm.trans (hrow c hc)
    rw [← Option.some.inj heq]
    exact hfits c hc
  exact ⟨hfits, rowToString_eq h.wide hrow hfits⟩

end Printing

namespace OrderBook
open Table Printing
variable {P : Type} [LinearOrder P] {book : OrderBook P} {priceToString : P → Text}

/-- The levels of the two sides, row by row. -/
def rows (book : OrderBook P) : List (Option (P × PriceLevel P) × Option (P × PriceLevel P)) :=
  pairUp (max (book.levels .buy).size (book.levels .sell).size) (book.levels .buy).entries
    (book.levels .sell).entries

/-- A row of the table as a line, in columns of widths `w`. -/
def rowLine (book : OrderBook P) (priceToString : P → Text) (w : Text → ℕ)
    (e : Option (P × PriceLevel P) × Option (P × PriceLevel P)) : Text :=
  line (cells headers w (rowTexts book.orderPool.get priceToString e.1 e.2))

/-- The lines of the printed book. -/
def lines (book : OrderBook P) (priceToString : P → Text) (w : Text → ℕ) : List Text :=
  ruled (line (cells headers w id) :: book.rows.map (book.rowLine priceToString w))
    (List.replicate (total headers w + 20) '-')

/-- `operator<<` never throws, and every text has room in its column. -/
theorem print_eq (book : OrderBook P) (priceToString : P → Text) : ∃ w : Text → ℕ,
    (∀ c ∈ headers, c.length ≤ w c) ∧
      (∀ e ∈ book.rows, ∀ c ∈ headers,
        (rowTexts book.orderPool.get priceToString e.1 e.2 c).length ≤ w c) ∧
      book.print priceToString = some ('\n' :: ended '\n' (book.lines priceToString w)) := by
  obtain ⟨w, hw⟩ : ∃ w, (book.layout priceToString).Laid w := tableLoop_laid _ _ _ firstLayout_laid
  have hrows : (book.layout priceToString).tableRows = getDefaultHeader headers ::
      book.rows.map fun e => tableRow book.orderPool.get priceToString e.1 e.2 :=
    tableLoop_rows _ _ _ _
  obtain ⟨hnames, hname⟩ := hw.printed (by rw [hrows]; exact List.mem_cons_self)
    getDefaultHeader_filled
  have hlevel : ∀ e ∈ book.rows,
      (∀ c ∈ headers, (rowTexts book.orderPool.get priceToString e.1 e.2 c).length ≤ w c) ∧
        rowToString headers (tableRow book.orderPool.get priceToString e.1 e.2)
          (book.layout priceToString).columnMaxSize = some (book.rowLine priceToString w e) := by
    intro e he
    apply hw.printed _ (tableRow_filled e.1 e.2)
    rw [hrows]
    exact List.mem_cons_of_mem _ (List.mem_map_of_mem he)
  have hall := mapM_eq_some fun e he => (hlevel e he).2
  have hrule : repeated ((book.layout priceToString).totalColSize + 20) '-' =
      some (List.replicate (total headers w + 20) '-') := by
    rw [hw.size]
    exact repeated_ofNat _ _
  refine ⟨w, hnames, fun e he => (hlevel e he).1, ?_⟩
  unfold print
  simp only [hrows, List.mapM_cons, List.mapM_map, hname, Function.comp_def, hall, hrule,
    joinRows_eq, Option.bind_eq_bind, Option.bind_some, Option.pure_def]
  rfl

/-- **The table is aligned.**  Whatever the book, `operator<<` does not throw.
    It prints an empty line, the names, a rule, a row for each pair of levels
    and, if there is one, the rule again.  The lines are of one length, and
    every text has room in its column. -/
theorem print_aligned (book : OrderBook P) (priceToString : P → Text) :
    ∃ (w : Text → ℕ) (names rule : Text) (levels : List Text),
      names = line (cells headers w id) ∧
      levels = book.rows.map (book.rowLine priceToString w) ∧
      rule = List.replicate names.length '-' ∧
      (∀ c ∈ headers, c.length ≤ w c ∧ ∀ e ∈ book.rows,
        (rowTexts book.orderPool.get priceToString e.1 e.2 c).length ≤ w c) ∧
      (∀ l ∈ levels, l.length = names.length) ∧
      levels.length = max (book.levels .buy).size (book.levels .sell).size ∧
      book.print priceToString = some ('\n' :: ended '\n'
        (names :: rule :: if levels = [] then [] else levels ++ [rule])) := by
  obtain ⟨w, hnames, hrows, hprint⟩ := book.print_eq priceToString
  have hname : (line (cells headers w id)).length = total headers w + 20 := length_row hnames
  refine ⟨w, _, _, _, rfl, rfl, rfl, fun c hc => ⟨hnames c hc, fun e he => hrows e he c hc⟩,
    ?_, ?_, ?_⟩
  · intro l hl
    obtain ⟨e, he, rfl⟩ := List.mem_map.mp hl
    rw [hname]
    exact length_row (hrows e he)
  · rw [List.length_map, rows, length_pairUp]
  · rw [hprint, lines, ruled_cons, hname]

end OrderBook

/-! ### Reading the table back -/

namespace Printing
open Table

/-- What the table says of a level: how many orders, how much in all, and the
    price as it is printed. -/
abbrev Entry : Type := ℕ × ℕ × Text

def readCells (orders qty price : Text) : Option Entry :=
  if price = [] then none else some (toNat orders, toNat qty, price)

def readRow (side : OrderSide) (text : Text) : Option Entry :=
  match readLine text with
  | [bidOrders, bidQty, bidPrice, _, askPrice, askQty, askOrders] =>
    match side with
    | .buy => readCells bidOrders bidQty bidPrice
    | .sell => readCells askOrders askQty askPrice
  | _ => none

/-- One side of a printed book: of the lines that begin with a bar all but
    the first. -/
def readBook (text : Text) (side : OrderSide) : List Entry :=
  (((text.splitOn '\n').filter fun l => l.head? = some '|').drop 1).filterMap (readRow side)

/-- A price that can be told from the table around it. -/
structure Legible (text : Text) : Prop where
  ne_nil : text ≠ []
  blank : ' ' ∉ text
  bar : '|' ∉ text
  newline : '\n' ∉ text

theorem mem_cells {hs : List Text} {w : Text → ℕ} {cell : Text → Text} {piece : Text} {c : Char}
    (hpiece : piece ∈ cells hs w cell) (hc : c ∈ piece) : c = ' ' ∨ ∃ h ∈ hs, c ∈ cell h := by
  obtain ⟨h, hh, hmem⟩ := List.mem_flatMap.mp hpiece
  rcases List.mem_append.mp hmem with hmem | hmem
  · split at hmem
    · rw [List.mem_singleton.mp hmem] at hc
      exact absurd hc List.not_mem_nil
    · exact absurd hmem List.not_mem_nil
  · rw [List.mem_singleton.mp hmem] at hc
    exact (mem_padded hc).imp_right fun hc => ⟨h, hh, hc⟩

/-- Without the blanks the texts are left, and the empty cell. -/
theorem map_content_cells {hs : List Text} {w : Text → ℕ} {cell : Text → Text}
    (h : ∀ c ∈ hs, ' ' ∉ cell c) : (cells hs w cell).map content =
      hs.flatMap fun h => (if h = askPrice then [[]] else []) ++ [cell h] := by
  unfold cells
  rw [List.map_flatMap]
  apply List.flatMap_congr
  intro c hc
  rw [List.map_append, List.map_singleton, content_padded (h c hc)]
  split <;> rfl

section Level
variable {P : Type} {heap : OrderPtr → Order P} {priceToString : P → Text}

/-- The texts of a row are numbers and prices. -/
theorem not_mem_rowTexts {c : Char} (hdigit : c.isDigit = false)
    (hprice : ∀ price, c ∉ priceToString price) (bit ait : Option (P × PriceLevel P)) (h : Text) :
    c ∉ rowTexts heap priceToString bit ait h := by
  have hlevel : ∀ lvl, c ∉ (levelTexts heap priceToString lvl).1 ∧
      c ∉ (levelTexts heap priceToString lvl).2.1 ∧
      c ∉ (levelTexts heap priceToString lvl).2.2 := by
    intro lvl
    cases lvl with
    | none => exact ⟨List.not_mem_nil, List.not_mem_nil, List.not_mem_nil⟩
    | some e => exact ⟨not_mem_ofNat hdigit, not_mem_ofNat hdigit, hprice e.1⟩
  obtain ⟨hbid, hbid', hbid''⟩ := hlevel bit
  obtain ⟨hask, hask', hask''⟩ := hlevel ait
  unfold rowTexts
  split_ifs <;> assumption

/-- The entry of a level. -/
def entryOf (heap : OrderPtr → Order P) (priceToString : P → Text) (e : P × PriceLevel P) : Entry :=
  (e.2.size, (e.2.totalQty heap).toNat, priceToString e.1)

theorem readCells_levelTexts (hlegible : ∀ price, Legible (priceToString price))
    (lvl : Option (P × PriceLevel P)) :
    readCells (levelTexts heap priceToString lvl).1 (levelTexts heap priceToString lvl).2.1
      (levelTexts heap priceToString lvl).2.2 = lvl.map (entryOf heap priceToString) := by
  cases lvl with
  | none => rfl
  | some e => simp [readCells, levelTexts, entryOf, (hlegible e.1).ne_nil]

/-- A printed row is read back. -/
theorem readRow_line (hlegible : ∀ price, Legible (priceToString price)) (w : Text → ℕ)
    (bit ait : Option (P × PriceLevel P)) (side : OrderSide) :
    readRow side (line (cells headers w (rowTexts heap priceToString bit ait))) =
      (match side with | .buy => bit | .sell => ait).map (entryOf heap priceToString) := by
  have hbar : ∀ cell ∈ cells headers w (rowTexts heap priceToString bit ait), '|' ∉ cell := by
    intro cell hcell hc
    rcases mem_cells hcell hc with hc | ⟨h, -, hc⟩
    · exact absurd hc (by decide)
    · exact not_mem_rowTexts (by decide) (fun price => (hlegible price).bar) bit ait h hc
  have hblank : ∀ c ∈ headers, ' ' ∉ rowTexts heap priceToString bit ait c := fun c _ =>
    not_mem_rowTexts (by decide) (fun price => (hlegible price).blank) bit ait c
  have hread : readLine (line (cells headers w (rowTexts heap priceToString bit ait))) =
      [(levelTexts heap priceToString bit).1, (levelTexts heap priceToString bit).2.1,
        (levelTexts heap priceToString bit).2.2, [], (levelTexts heap priceToString ait).2.2,
        (levelTexts heap priceToString ait).2.1, (levelTexts heap priceToString ait).1] := by
    rw [readLine_line hbar, map_content_cells hblank]
    rfl
  unfold readRow
  rw [hread]
  cases side with
  | buy => exact readCells_levelTexts hlegible bit
  | sell => exact readCells_levelTexts hlegible ait

end Level

end Printing

namespace OrderBook
open Table Printing
variable {P : Type} [LinearOrder P] {book : OrderBook P} {priceToString : P → Text}

/-- The entries of a side, the best price first. -/
def entries (book : OrderBook P) (priceToString : P → Text) (side : OrderSide) : List Entry :=
  (book.levels side).entries.map (entryOf book.orderPool.get priceToString)

theorem filterMap_rows (book : OrderBook P) (side : OrderSide) :
    (book.rows.filterMap fun e => match side with | .buy => e.1 | .sell => e.2) =
      (book.levels side).entries := by
  cases side with
  | buy => exact filterMap_fst_pairUp (Nat.le_max_left _ _)
  | sell => exact filterMap_snd_pairUp (Nat.le_max_right _ _)

/-- Only the names, the rules and the rows are lines. -/
theorem newline_not_mem_lines (hlegible : ∀ price, Legible (priceToString price)) {w : Text → ℕ}
    {l : Text} (hl : l ∈ book.lines priceToString w) : '\n' ∉ l := by
  have hcells : ∀ {cell : Text → Text}, (∀ h ∈ headers, '\n' ∉ cell h) →
      '\n' ∉ line (cells headers w cell) := by
    intro cell hcell hc
    rcases mem_line hc with hc | ⟨piece, hpiece, hc⟩
    · exact absurd hc (by decide)
    · rcases mem_cells hpiece hc with hc | ⟨h, hh, hc⟩
      · exact absurd hc (by decide)
      · exact hcell h hh hc
  rcases mem_ruled hl with rfl | hl
  · intro hc
    exact absurd (List.eq_of_mem_replicate hc) (by decide)
  · rcases List.mem_cons.mp hl with rfl | hl
    · exact hcells (by decide)
    · obtain ⟨e, -, rfl⟩ := List.mem_map.mp hl
      exact hcells fun h _ =>
        not_mem_rowTexts (by decide) (fun price => (hlegible price).newline) e.1 e.2 h

/-- **Reading back.**  The printed table gives both sides of the book, level
    by level. -/
theorem readBook_print (book : OrderBook P) (hlegible : ∀ price, Legible (priceToString price)) :
    ∃ text, book.print priceToString = some text ∧
      ∀ side, readBook text side = book.entries priceToString side := by
  obtain ⟨w, -, -, hprint⟩ := book.print_eq priceToString
  refine ⟨_, hprint, ?_⟩
  intro side
  have hsplit : ('\n' :: ended '\n' (book.lines priceToString w)).splitOn '\n' =
      [] :: (book.lines priceToString w ++ [[]]) := by
    have hfirst : ([] ++ '\n' :: ended '\n' (book.lines priceToString w)).splitOn '\n' = _ :=
      List.splitOn_append_cons_self_of_not_mem List.not_mem_nil _
    rw [splitOn_ended fun l hl => newline_not_mem_lines hlegible hl] at hfirst
    exact hfirst
  have hrule : decide ((List.replicate (total headers w + 20) '-').head? = some '|') = false := by
    simp [List.replicate_succ]
  have hfilter : (([] :: (book.lines priceToString w ++ [[]])).filter
      fun l => l.head? = some '|') =
        line (cells headers w id) :: book.rows.map (book.rowLine priceToString w) := by
    have hlines : (book.lines priceToString w).filter (fun l => l.head? = some '|') = _ :=
      filter_ruled hrule (by
        intro l hl
        rcases List.mem_cons.mp hl with rfl | hl
        · rfl
        · obtain ⟨e, -, rfl⟩ := List.mem_map.mp hl
          rfl)
    rw [List.filter_cons_of_neg (by simp), List.filter_append, hlines]
    simp
  have hread : readRow side ∘ book.rowLine priceToString w = fun e =>
      (match side with
        | .buy => e.1
        | .sell => e.2).map (entryOf book.orderPool.get priceToString) :=
    funext fun e => readRow_line hlegible w e.1 e.2 side
  rw [readBook, hsplit, hfilter, List.drop_one, List.tail_cons, List.filterMap_map, hread, entries,
    ← filterMap_rows, List.map_filterMap]

/-! ### What the table says -/

/-- How many live orders there are of this side and price. -/
def openOrders (book : OrderBook P) (side : OrderSide) (price : P) : ℕ :=
  ((Finset.range book.orderPool.nextFreeIndex).filter (book.LiveAt side price)).card

/-- The prices of the live orders of a side, the best first, each with the
    number of these orders and what is left to fill of them.  The total is
    the 64-bit one. -/
structure Ladder (book : OrderBook P) (side : OrderSide) (l : List (P × ℕ × ℕ)) : Prop where
  sorted : l.Pairwise fun e e' => side.before e.1 e'.1
  mem : ∀ e, e ∈ l ↔ 0 < book.openOrders side e.1 ∧
    e.2 = (book.openOrders side e.1, book.openQuantity side e.1 % 2 ^ 64)

/-- The keys of a level are the ids of its live orders. -/
theorem Linked.size_eq (h : book.Linked) (hs : book.Sound) {side : OrderSide} {price : P}
    {lvl : PriceLevel P} (hlvl : (book.levels side).find? price = some lvl) :
    lvl.size = book.openOrders side price := by
  have hlive : ∀ i,
      i ∈ (Finset.range book.orderPool.nextFreeIndex).filter (book.LiveAt side price) ↔
      book.Accepted i ∧ book.LiveAt side price i := by
    intro i
    rw [Finset.mem_filter, Finset.mem_range]
    rfl
  have hkeys : (lvl.ordersMap.entries.map Prod.fst).toFinset =
      ((Finset.range book.orderPool.nextFreeIndex).filter (book.LiveAt side price)).image
        fun i => (book.slot i).id := by
    ext id
    rw [List.mem_toFinset, SortedMap.mem_keys_iff, Finset.mem_image]
    constructor
    · rintro ⟨j, hj⟩
      obtain ⟨p, hp, hlive', hside, hprice⟩ := h.of_keyAt hs ⟨lvl, j, hlvl, hj⟩
      obtain ⟨hacc, hid⟩ := hs.registered id p hp
      exact ⟨p.slot, (hlive _).mpr ⟨hacc, hlive', hside, hprice⟩, hid⟩
    · rintro ⟨i, hi, rfl⟩
      obtain ⟨hacc, hlive', rfl, rfl⟩ := (hlive i).mp hi
      obtain ⟨lvl', j, hlvl', hj⟩ := h.placed i hacc hlive'
      rw [hlvl, Option.some.injEq] at hlvl'
      subst hlvl'
      exact ⟨j, hj⟩
  have hinj : Set.InjOn (fun i => (book.slot i).id)
      ((Finset.range book.orderPool.nextFreeIndex).filter (book.LiveAt side price) : Finset ℕ) := by
    intro i hi j hj hid
    exact h.slot_inj ((hlive i).mp hi).1 ((hlive j).mp hj).1 hid
  rw [openOrders, ← Finset.card_image_of_injOn hinj, ← hkeys,
    List.toFinset_card_of_nodup lvl.ordersMap.keys_nodup, List.length_map]
  rfl

/-- The levels of a side, as the table has them, are its ladder. -/
theorem Linked.ladder (h : book.Linked) (hs : book.Sound) (side : OrderSide) :
    book.Ladder side ((book.levels side).entries.map fun e =>
      (e.1, e.2.size, (e.2.totalQty book.orderPool.get).toNat)) := by
  constructor
  case sorted => exact List.pairwise_map.mpr (book.levels side).sorted
  case mem =>
    intro e
    rw [List.mem_map]
    constructor
    · rintro ⟨e, he, rfl⟩
      have hlvl := SortedMap.mem_entries_iff.mp he
      have hsize := h.size_eq hs hlvl
      have hne : 0 < e.2.size := by
        have hempty := (hs.level _ _ _ hlvl).not_empty
        exact List.length_pos_iff.mpr (by simpa [PriceLevel.empty, SortedMap.isEmpty] using hempty)
      rw [← hsize, ← h.totalQty_eq hs hlvl]
      exact ⟨hne, rfl⟩
    · rintro ⟨hpos, heq⟩
      obtain ⟨i, hi⟩ := Finset.card_pos.mp hpos
      rw [Finset.mem_filter, Finset.mem_range] at hi
      obtain ⟨hacc, hlive, rfl, hprice⟩ := hi
      obtain ⟨lvl, j, hlvl, -⟩ := h.placed i hacc hlive
      rw [hprice] at hlvl
      refine ⟨(e.1, lvl), SortedMap.mem_entries_iff.mpr hlvl, ?_⟩
      rw [h.size_eq hs hlvl, h.totalQty_eq hs hlvl, ← heq]

end OrderBook

namespace Session
open OrderBook Printing Table
variable {P : Type} [LinearOrder P] [Zero P]

/-- **The printed book is the ladder of the live orders.**  After any run
    with distinct ids `operator<<` prints a table from which the ladders of
    the two sides can be read. -/
theorem printed_ladder {s s' : Session P} {ls : List (Label P)} (hf : Fresh s)
    (hr : Path Step s ls s') (hids : (addedIds ls).Nodup) {priceToString : P → Text}
    (hlegible : ∀ price, Legible (priceToString price)) :
    ∃ text, s'.book.print priceToString = some text ∧ ∀ side, ∃ l, s'.book.Ladder side l ∧
      readBook text side = l.map fun e => (e.2.1, e.2.2, priceToString e.1) := by
  obtain ⟨text, hprint, hread⟩ := s'.book.readBook_print hlegible
  refine ⟨text, hprint,
    fun side => ⟨_, (linked_of_path hf hr hids).ladder (sound_of_path hf hr) side, ?_⟩⟩
  rw [hread side, List.map_map]
  rfl

/-- Prices in whole units, with the two decimals that are printed. -/
def wholePrice (price : ℤ) : Text :=
  (if price < 0 then ['-'] else []) ++ ofNat price.natAbs ++ ".00".toList

theorem wholePrice_legible (price : ℤ) : Legible (wholePrice price) := by
  have hnot : ∀ c : Char, c.isDigit = false → c ≠ '-' → c ∉ ".00".toList →
      c ∉ wholePrice price := by
    intro c hdigit hsign hpoint hc
    simp only [wholePrice, List.mem_append] at hc
    rcases hc with (hc | hc) | hc
    · split at hc
      · exact hsign (List.mem_singleton.mp hc)
      · exact absurd hc List.not_mem_nil
    · exact not_mem_ofNat hdigit hc
    · exact hpoint hc
  constructor
  case ne_nil =>
    intro hnil
    have hpoint : '.' ∈ wholePrice price := List.mem_append_right _ (by decide)
    rw [hnil] at hpoint
    exact absurd hpoint List.not_mem_nil
  case blank => exact hnot ' ' (by decide) (by decide) (by decide)
  case bar => exact hnot '|' (by decide) (by decide) (by decide)
  case newline => exact hnot '\n' (by decide) (by decide) (by decide)

/-- Two buyers at one price, one of whom lowers his quantity, and a third one
    below; of two sellers the first is sold out. -/
def twoLevels : List (Label ℤ) :=
  [(limit .buy 100 10, .orderId 1), (limit .buy 100 1000000, .orderId 2),
    (limit .buy 99 7, .orderId 3),
    (amend 1 100 4, .done true), (limit .sell 100 4, .orderId 4), (limit .sell 101 6, .orderId 5)]

theorem printed_ladder_twoLevels : ∃ (s : Session ℤ) (text : Text),
    Path Step (opening 1000) twoLevels s ∧ s.book.print wholePrice = some text ∧
      readBook text .buy = [(1, 1000000, "100.00".toList), (1, 7, "99.00".toList)] ∧
      ∃ l, s.book.Ladder .sell l ∧ readBook text .sell =
        l.map fun e => (e.2.1, e.2.2, wholePrice e.1) := by
  obtain ⟨s, hs, hf⟩ := exists_path (opening 1000) twoLevels
    (fun s => (s.book.print wholePrice).map (readBook · .buy) ==
      some [(1, 1000000, "100.00".toList), (1, 7, "99.00".toList)]) (by
      simp only [opening, OrderBook.new, OrderPool.new_eq]
      decide +kernel)
  obtain ⟨text, hprint, hread⟩ :=
    printed_ladder (opening_fresh 1000) hs (by decide) wholePrice_legible
  rw [hprint] at hf
  exact ⟨s, text, hs, hprint, Option.some.inj (eq_of_beq hf), hread .sell⟩

end Session
end Orderbook
