import Mathlib.Order.RelClasses
import Mathlib.Data.List.Basic
import Mathlib.Tactic

/-! # Sorted maps

    A finite map kept as a list of key/value pairs in strictly increasing
    key order, for an arbitrary strict total order `r` on the keys.  The
    order is a field of the structure, so every map is sorted and two maps
    with the same lookups are equal.

    `find?` is `find`, `insert` is `operator[]` / `insert_or_assign`,
    `tryEmplace` is `try_emplace`, `front?` is `begin`. -/

namespace Orderbook

/-- A map from `K` to `V` whose entries are in strictly increasing `r`-order. -/
structure SortedMap {K : Type} (r : K → K → Prop) (V : Type) where
  entries : List (K × V)
  sorted  : entries.Pairwise fun a b => r a.1 b.1

namespace SortedMap

/-! ### Operations on entry lists -/

section Lists
variable {K V : Type} [DecidableEq K]

/-- The value stored under `k`. -/
def lookup (k : K) : List (K × V) → Option V
  | [] => none
  | e :: es => if k = e.1 then some e.2 else lookup k es

/-- Store `v` under `k`, replacing what was there. -/
def insertEntry (r : K → K → Prop) [DecidableRel r] (k : K) (v : V) :
    List (K × V) → List (K × V)
  | [] => [(k, v)]
  | e :: es =>
    if k = e.1 then (k, v) :: es
    else if r k e.1 then (k, v) :: e :: es
    else e :: insertEntry r k v es

variable {r : K → K → Prop} [DecidableRel r]

theorem mem_insertEntry {k : K} {v : V} {x : K × V} {es : List (K × V)}
    (h : x ∈ insertEntry r k v es) : x = (k, v) ∨ x ∈ es := by
  induction es with
  | nil => simpa [insertEntry] using h
  | cons e es ih =>
    simp only [insertEntry] at h
    split at h
    · rcases List.mem_cons.mp h with rfl | h
      · exact Or.inl rfl
      · exact Or.inr (List.mem_cons_of_mem _ h)
    · split at h
      · rcases List.mem_cons.mp h with rfl | h
        · exact Or.inl rfl
        · exact Or.inr h
      · rcases List.mem_cons.mp h with rfl | h
        · exact Or.inr List.mem_cons_self
        · rcases ih h with rfl | h
          · exact Or.inl rfl
          · exact Or.inr (List.mem_cons_of_mem _ h)

theorem lookup_insertEntry_self (k : K) (v : V) (es : List (K × V)) :
    lookup k (insertEntry r k v es) = some v := by
  induction es with
  | nil => simp [insertEntry, lookup]
  | cons e es ih =>
    simp only [insertEntry]
    split
    · simp [lookup]
    · next hne =>
      split
      · simp [lookup]
      · simp [lookup, hne, ih]

theorem lookup_insertEntry_ne {k k' : K} (h : k' ≠ k) (v : V) (es : List (K × V)) :
    lookup k' (insertEntry r k v es) = lookup k' es := by
  induction es with
  | nil => simp [insertEntry, lookup, h]
  | cons e es ih =>
    simp only [insertEntry]
    split
    · next heq => simp [lookup, h, ← heq]
    · split
      · simp [lookup, h]
      · simp [lookup, ih]

end Lists

/-! ### The map operations -/

section Ops
variable {K V : Type} {r : K → K → Prop} [DecidableEq K] [IsStrictTotalOrder K r]

theorem insertEntry_sorted [DecidableRel r] (k : K) (v : V) {es : List (K × V)}
    (h : es.Pairwise fun a b => r a.1 b.1) :
    (insertEntry r k v es).Pairwise fun a b => r a.1 b.1 := by
  induction es with
  | nil => simp [insertEntry]
  | cons e es ih =>
    have he := (List.pairwise_cons.mp h).1
    have hes := (List.pairwise_cons.mp h).2
    simp only [insertEntry]
    split
    · next heq => exact List.pairwise_cons.mpr ⟨fun b hb => heq ▸ he b hb, hes⟩
    · next hne =>
      split
      · next hlt =>
        refine List.pairwise_cons.mpr ⟨?_, h⟩
        intro b hb
        rcases List.mem_cons.mp hb with rfl | hb
        · exact hlt
        · exact trans_of r hlt (he b hb)
      · next hge =>
        refine List.pairwise_cons.mpr ⟨?_, ih hes⟩
        intro b hb
        rcases mem_insertEntry hb with rfl | hb
        · rcases trichotomous_of r k e.1 with hlt | heq | hgt
          · exact absurd hlt hge
          · exact absurd heq hne
          · exact hgt
        · exact he b hb

/-- The empty map. -/
def empty : SortedMap r V := ⟨[], List.Pairwise.nil⟩

/-- The value stored under `k`, if any. -/
def find? (m : SortedMap r V) (k : K) : Option V := lookup k m.entries

/-- Store `v` under `k`. -/
def insert [DecidableRel r] (m : SortedMap r V) (k : K) (v : V) : SortedMap r V :=
  ⟨insertEntry r k v m.entries, insertEntry_sorted k v m.sorted⟩

/-- Drop the entry of `k`; a map without `k` is unchanged. -/
def erase (m : SortedMap r V) (k : K) : SortedMap r V :=
  ⟨m.entries.filter fun e => e.1 ≠ k, m.sorted.filter _⟩

/-- Insert `v` under `k` unless `k` is present.  Returns the map, the value
    that `k` now has, and whether an insertion took place. -/
def tryEmplace [DecidableRel r] (m : SortedMap r V) (k : K) (v : V) :
    SortedMap r V × V × Bool :=
  match m.find? k with
  | some w => (m, w, false)
  | none => (m.insert k v, v, true)

/-- The first entry in key order. -/
def front? (m : SortedMap r V) : Option (K × V) := m.entries.head?

def size (m : SortedMap r V) : ℕ := m.entries.length

def isEmpty (m : SortedMap r V) : Bool := m.entries.isEmpty

instance [DecidableEq V] : DecidableEq (SortedMap r V) := fun m n =>
  decidable_of_iff (m.entries = n.entries) <| by
    cases m; cases n; simp

/-! ### Lookups -/

omit [IsStrictTotalOrder K r] in
@[simp] theorem find?_empty (k : K) : (empty : SortedMap r V).find? k = none := rfl

@[simp] theorem find?_insert_self [DecidableRel r] (m : SortedMap r V) (k : K) (v : V) :
    (m.insert k v).find? k = some v :=
  lookup_insertEntry_self k v m.entries

theorem find?_insert_ne [DecidableRel r] (m : SortedMap r V) {k k' : K} (h : k' ≠ k) (v : V) :
    (m.insert k v).find? k' = m.find? k' :=
  lookup_insertEntry_ne h v m.entries

theorem find?_insert [DecidableRel r] (m : SortedMap r V) (k k' : K) (v : V) :
    (m.insert k v).find? k' = if k' = k then some v else m.find? k' := by
  split
  · next h => rw [h, find?_insert_self]
  · next h => exact find?_insert_ne m h v

/-- Entries and lookups say the same, since no key occurs twice. -/
theorem mem_entries_iff {m : SortedMap r V} {k : K} {v : V} :
    (k, v) ∈ m.entries ↔ m.find? k = some v := by
  obtain ⟨es, hs⟩ := m
  simp only [find?]
  induction es with
  | nil => simp [lookup]
  | cons e es ih =>
    have he := (List.pairwise_cons.mp hs).1
    have ih := ih (List.pairwise_cons.mp hs).2
    by_cases h : k = e.1
    · have hnot : (k, v) ∉ es := fun hm => irrefl_of r e.1 (by simpa [h] using he _ hm)
      have : (k, v) = e ↔ e.2 = v := by
        rw [h]
        exact ⟨fun h => by rw [← h], fun h => by rw [← h]⟩
      simp [lookup, h, ← this]
      simp [← h, hnot]
    · have : (k, v) ≠ e := fun he => h (by rw [← he])
      simp [lookup, h, this, ih]

theorem find?_erase (m : SortedMap r V) (k k' : K) :
    (m.erase k).find? k' = if k' = k then none else m.find? k' := by
  apply Option.ext
  intro v
  rw [← mem_entries_iff, erase, List.mem_filter]
  split
  · next h => simp [h]
  · next h => simp [h, mem_entries_iff]

@[simp] theorem find?_erase_self (m : SortedMap r V) (k : K) : (m.erase k).find? k = none := by
  simp [find?_erase]

theorem find?_erase_ne (m : SortedMap r V) {k k' : K} (h : k' ≠ k) :
    (m.erase k).find? k' = m.find? k' := by
  simp [find?_erase, h]

omit [DecidableEq K] in
theorem keys_nodup (m : SortedMap r V) : (m.entries.map Prod.fst).Nodup := by
  refine List.pairwise_map.mpr (m.sorted.imp ?_)
  intro a b hab heq
  rw [heq] at hab
  exact irrefl_of r _ hab

theorem mem_keys_iff {m : SortedMap r V} {k : K} :
    k ∈ m.entries.map Prod.fst ↔ ∃ v, m.find? k = some v := by
  rw [List.mem_map]
  constructor
  · rintro ⟨e, he, rfl⟩
    exact ⟨e.2, mem_entries_iff.mp he⟩
  · rintro ⟨v, hv⟩
    exact ⟨(k, v), mem_entries_iff.mpr hv, rfl⟩

/-- In a map of another size than one, every key has company. -/
theorem exists_ne_of_size_ne_one {m : SortedMap r V} {k : K} {v : V} (h : m.find? k = some v)
    (hsize : m.size ≠ 1) : ∃ k' w, k' ≠ k ∧ m.find? k' = some w := by
  by_contra hnone
  push Not at hnone
  have hall : ∀ k' ∈ m.entries.map Prod.fst, k' = k := by
    intro k' hk'
    obtain ⟨w, hw⟩ := mem_keys_iff.mp hk'
    by_contra hne
    exact hnone k' w hne hw
  have hmem := mem_keys_iff.mpr ⟨v, h⟩
  have hkeys : m.entries.map Prod.fst = [k] :=
    List.perm_singleton.mp ((List.perm_ext_iff_of_nodup m.keys_nodup (List.nodup_singleton k)).mpr
      fun k' => ⟨fun hk' => by rw [hall k' hk']; exact List.mem_singleton_self k, fun hk' => by
        rw [List.mem_singleton.mp hk']; exact hmem⟩)
  have := congrArg List.length hkeys
  rw [List.length_map] at this
  exact hsize this

/-- Maps with the same lookups are equal. -/
theorem ext_find? {m n : SortedMap r V} (h : ∀ k, m.find? k = n.find? k) : m = n := by
  have hmem : ∀ e, e ∈ m.entries ↔ e ∈ n.entries := by
    intro e
    rw [mem_entries_iff (k := e.1) (v := e.2), mem_entries_iff (k := e.1) (v := e.2), h]
  have hnd : ∀ l : SortedMap r V, l.entries.Nodup := fun l =>
    l.sorted.imp fun {a b} (hab : r a.1 b.1) (heq : a = b) =>
      irrefl_of r a.1 (by rw [← heq] at hab; exact hab)
  have hperm : m.entries.Perm n.entries := (List.perm_ext_iff_of_nodup (hnd m) (hnd n)).mpr hmem
  have heq : m.entries = n.entries :=
    hperm.eq_of_pairwise (fun a b _ _ hab hba => absurd (trans_of r hab hba) (irrefl_of r a.1))
      m.sorted n.sorted
  cases m; cases n; simpa using heq

theorem insert_insert [DecidableRel r] (m : SortedMap r V) (k : K) (v w : V) :
    (m.insert k v).insert k w = m.insert k w := by
  apply ext_find?
  intro k'
  by_cases h : k' = k <;> simp [find?_insert, h]

theorem erase_insert [DecidableRel r] (m : SortedMap r V) (k : K) (v : V) :
    (m.insert k v).erase k = m.erase k := by
  apply ext_find?
  intro k'
  by_cases h : k' = k <;> simp [find?_erase, find?_insert, h]

/-! ### Splitting at a key -/

theorem lookup_eq_some_split {k : K} {v : V} {es : List (K × V)} (h : lookup k es = some v) :
    ∃ l₁ l₂, es = l₁ ++ (k, v) :: l₂ ∧ ∀ e ∈ l₁, e.1 ≠ k := by
  induction es with
  | nil => simp [lookup] at h
  | cons e es ih =>
    by_cases hk : k = e.1
    · simp only [lookup, hk, if_true, Option.some.injEq] at h
      exact ⟨[], es, by simp [hk, ← h], by simp⟩
    · simp only [lookup, hk, if_false] at h
      obtain ⟨l₁, l₂, rfl, hl⟩ := ih h
      refine ⟨e :: l₁, l₂, rfl, ?_⟩
      intro x hx
      rcases List.mem_cons.mp hx with rfl | hx
      · exact fun h => hk h.symm
      · exact hl x hx

/-- Around a present key: replacing its value and erasing it touch that
    entry only. -/
theorem split_of_find? [DecidableRel r] {m : SortedMap r V} {k : K} {v : V}
    (h : m.find? k = some v) :
    ∃ l₁ l₂, m.entries = l₁ ++ (k, v) :: l₂ ∧
      (∀ e ∈ l₁, r e.1 k) ∧ (∀ e ∈ l₂, r k e.1) ∧
      (∀ w, (m.insert k w).entries = l₁ ++ (k, w) :: l₂) ∧
      (m.erase k).entries = l₁ ++ l₂ := by
  obtain ⟨l₁, l₂, hes, -⟩ := lookup_eq_some_split h
  have hs := m.sorted
  rw [hes, List.pairwise_append] at hs
  obtain ⟨-, h2, h12⟩ := hs
  have hl₁ : ∀ e ∈ l₁, r e.1 k := fun e he => h12 e he (k, v) List.mem_cons_self
  have hl₂ : ∀ e ∈ l₂, r k e.1 := fun e he => (List.pairwise_cons.mp h2).1 e he
  refine ⟨l₁, l₂, hes, hl₁, hl₂, ?_, ?_⟩
  · intro w
    simp only [insert, hes]
    clear hes h12
    induction l₁ with
    | nil => simp [insertEntry]
    | cons e l₁ ih =>
      have he : r e.1 k := hl₁ e List.mem_cons_self
      have hne : k ≠ e.1 := fun heq => irrefl_of r k (by rw [← heq] at he; exact he)
      have hnr : ¬ r k e.1 := fun hlt => irrefl_of r k (trans_of r hlt he)
      simp [insertEntry, hne, hnr, ih fun x hx => hl₁ x (List.mem_cons_of_mem _ hx)]
  · have hne : ∀ e : K × V, r e.1 k ∨ r k e.1 → e.1 ≠ k := by
      intro e he heq
      rcases he with he | he <;> exact irrefl_of r k (by rw [heq] at he; exact he)
    simp only [erase, hes, List.filter_append, List.filter_cons]
    rw [List.filter_eq_self.mpr fun e he => by simpa using hne e (Or.inl (hl₁ e he)),
      List.filter_eq_self.mpr fun e he => by simpa using hne e (Or.inr (hl₂ e he))]
    simp

/-! ### The first entry -/

/-- `front?` is the entry whose key precedes all others. -/
theorem front?_eq_some_iff {m : SortedMap r V} {k : K} {v : V} :
    m.front? = some (k, v) ↔
      m.find? k = some v ∧ ∀ k' w, m.find? k' = some w → k' = k ∨ r k k' := by
  constructor
  · intro h
    obtain ⟨es, hes⟩ : ∃ es, m.entries = (k, v) :: es := by
      rw [front?, List.head?_eq_some_iff] at h
      exact h
    have hs := m.sorted
    rw [hes] at hs
    refine ⟨mem_entries_iff.mp (by simp [hes]), ?_⟩
    intro k' w hw
    have hmem := mem_entries_iff.mpr hw
    rw [hes] at hmem
    rcases List.mem_cons.mp hmem with heq | hmem
    · exact Or.inl (congrArg Prod.fst heq)
    · exact Or.inr ((List.pairwise_cons.mp hs).1 _ hmem)
  · rintro ⟨hk, hmin⟩
    have hmem := mem_entries_iff.mpr hk
    have hs := m.sorted
    rw [front?]
    cases hes : m.entries with
    | nil => simp [hes] at hmem
    | cons e es =>
      rw [hes] at hmem hs
      rcases List.mem_cons.mp hmem with heq | hmem
      · simp [← heq]
      · have hlt := (List.pairwise_cons.mp hs).1 _ hmem
        have he : m.find? e.1 = some e.2 := mem_entries_iff.mp (by simp [hes])
        rcases hmin _ _ he with heq | hgt
        · exact absurd (heq ▸ hlt) (irrefl_of r k)
        · exact absurd (trans_of r hlt hgt) (irrefl_of r _)

theorem front?_eq_none_iff {m : SortedMap r V} : m.front? = none ↔ ∀ k, m.find? k = none := by
  rw [front?, List.head?_eq_none_iff]
  constructor
  · intro h k
    simp [find?, h, lookup]
  · intro h
    cases hes : m.entries with
    | nil => rfl
    | cons e es =>
      have := mem_entries_iff.mp (show (e.1, e.2) ∈ m.entries by simp [hes])
      simp [h] at this

theorem isEmpty_iff {m : SortedMap r V} : m.isEmpty = true ↔ ∀ k, m.find? k = none := by
  rw [← front?_eq_none_iff, front?, isEmpty, List.isEmpty_iff, List.head?_eq_none_iff]

theorem isEmpty_eq_false_iff {m : SortedMap r V} :
    m.isEmpty = false ↔ ∃ k v, m.find? k = some v := by
  rw [Bool.eq_false_iff, ne_eq, isEmpty_iff]
  push Not
  simp only [ne_eq, Option.ne_none_iff_exists']

/-! ### `try_emplace` -/

theorem tryEmplace_of_find? [DecidableRel r] {m : SortedMap r V} {k : K} {w : V}
    (h : m.find? k = some w) (v : V) : m.tryEmplace k v = (m, w, false) := by
  simp [tryEmplace, h]

theorem tryEmplace_of_none [DecidableRel r] {m : SortedMap r V} {k : K} (h : m.find? k = none)
    (v : V) :
    m.tryEmplace k v = (m.insert k v, v, true) := by
  simp [tryEmplace, h]

end Ops
end SortedMap
end Orderbook
