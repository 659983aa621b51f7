import Orderbook.Lib.Path

/-! # Infinite executions and fairness

    An execution makes a step or pauses at every moment, forever.  It is
    weakly fair to a group of labels, the steps of one thread say, if it does
    not refuse them for ever while they are possible.

    The rule below is the rule of helpful threads: a measure that no step
    increases, and in every state short of the goal a thread that is able to
    decrease it and remains the helpful one until it is decreased.  It carries
    over to executions of a finer grain, of whose steps several make one. -/

namespace Orderbook

/-- What happens at every moment; `none` is a pause. -/
structure Execution (S L : Type) where
  state : ℕ → S
  label : ℕ → Option L

namespace Execution
variable {S L T : Type}

/-- The execution consists of steps and pauses. -/
def Of (step : S → L → S → Prop) (e : Execution S L) : Prop :=
  ∀ i, match e.label i with
    | some l => step (e.state i) l (e.state (i + 1))
    | none => e.state (i + 1) = e.state i

/-- Some step with a label of the group `own` is possible. -/
def Enabled (step : S → L → S → Prop) (own : L → Prop) (s : S) : Prop :=
  ∃ l s', own l ∧ step s l s'

/-- **Weak fairness.**  Steps that remain possible are taken at last. -/
def FairTo (step : S → L → S → Prop) (own : L → Prop) (e : Execution S L) : Prop :=
  ∀ i, (∀ j, i ≤ j → Enabled step own (e.state j)) → ∃ j l, i ≤ j ∧ e.label j = some l ∧ own l

/-- The labels up to a moment. -/
def history (e : Execution S L) (i : ℕ) : List L := (List.range i).filterMap e.label

variable {step : S → L → S → Prop} {e : Execution S L}

theorem history_succ (e : Execution S L) (i : ℕ) :
    e.history (i + 1) = e.history i ++ (e.label i).toList := by
  rw [history, List.range_succ, List.filterMap_append]
  cases h : e.label i <;> simp [history, h]

theorem history_grows (e : Execution S L) {i j : ℕ} (hij : i ≤ j) :
    e.history i <+: e.history j := by
  induction j, hij using Nat.le_induction with
  | base => exact List.prefix_rfl
  | succ j _ ih =>
    rw [history_succ]
    exact ih.trans (List.prefix_append _ _)

/-- What happens between two moments is a run. -/
theorem Of.path_between (h : e.Of step) {i j : ℕ} (hij : i ≤ j) :
    ∃ ls, e.history j = e.history i ++ ls ∧ Path step (e.state i) ls (e.state j) := by
  induction j, hij using Nat.le_induction with
  | base => exact ⟨[], (List.append_nil _).symm, .nil _⟩
  | succ j _ ih =>
    obtain ⟨ls, hls, hpath⟩ := ih
    have hj := h j
    rw [history_succ, hls]
    cases hl : e.label j with
    | none =>
      rw [hl] at hj
      rw [Option.toList_none, List.append_nil, show e.state (j + 1) = e.state j from hj]
      exact ⟨ls, rfl, hpath⟩
    | some l =>
      rw [hl] at hj
      exact ⟨ls ++ [l], List.append_assoc _ _ _, hpath.snoc hj⟩

theorem Of.path (h : e.Of step) (i : ℕ) : Path step (e.state 0) (e.history i) (e.state i) := by
  obtain ⟨ls, hls, hpath⟩ := h.path_between (Nat.zero_le i)
  rw [hls]
  exact hpath

/-- The pauses of a state. -/
def paused (s : S) : Execution S L := ⟨fun _ => s, fun _ => none⟩

/-- A step before everything else. -/
def cons (s : S) (l : L) (e : Execution S L) : Execution S L where
  state
    | 0 => s
    | i + 1 => e.state i
  label
    | 0 => some l
    | i + 1 => e.label i

theorem Of.cons {s : S} {l : L} (h : e.Of step) (hl : step s l (e.state 0)) :
    (e.cons s l).Of step := by
  intro i
  cases i with
  | zero => exact hl
  | succ i => exact h i

theorem history_cons (s : S) (l : L) (e : Execution S L) (i : ℕ) :
    (e.cons s l).history (i + 1) = l :: e.history i := by
  have hzero : (e.cons s l).label 0 = some l := rfl
  rw [history, List.range_succ_eq_map, List.filterMap_cons_some hzero, List.filterMap_map]
  rfl

/-- A run that goes before an execution. -/
theorem Of.append {s : S} {ls : List L} (h : e.Of step) (hr : Path step s ls (e.state 0)) :
    ∃ e' : Execution S L, e'.Of step ∧ e'.state 0 = s ∧
      (∀ i, e'.history (ls.length + i) = ls ++ e.history i) ∧
      ∀ i, e'.state (ls.length + i) = e.state i := by
  generalize hs' : e.state 0 = s' at hr
  induction hr with
  | nil s =>
    refine ⟨e, h, hs', ?_, ?_⟩ <;> intro i <;> rw [List.length_nil, Nat.zero_add]
    rfl
  | @cons s s₁ s' l ls hl _ ih =>
    obtain ⟨e', hof, hzero, hhist, hstate⟩ := ih hs'
    refine ⟨e'.cons s l, hof.cons (by rw [hzero]; exact hl), rfl, ?_, ?_⟩
    · intro i
      rw [List.length_cons, Nat.add_right_comm, history_cons, hhist, List.cons_append]
    · intro i
      rw [List.length_cons, Nat.add_right_comm]
      exact hstate i

theorem history_paused (s : S) (i : ℕ) : (paused s : Execution S L).history i = [] :=
  List.filterMap_eq_nil_iff.mpr fun _ _ => rfl

/-- A run and then nothing more. -/
theorem exists_of_path {s s' : S} {ls : List L} (hr : Path step s ls s') :
    ∃ e : Execution S L, e.Of step ∧ e.state 0 = s ∧ (∀ i, e.history (ls.length + i) = ls) ∧
      ∀ i, e.state (ls.length + i) = s' := by
  obtain ⟨e, hof, hzero, hhist, hstate⟩ := Of.append (e := paused s') (fun _ => rfl) hr
  refine ⟨e, hof, hzero, ?_, hstate⟩
  intro i
  rw [hhist, history_paused, List.append_nil]

/-- Where nothing is possible any more, nothing is refused. -/
theorem FairTo.of_disabled {own : L → Prop} {n : ℕ}
    (h : ∀ i, ¬ Enabled step own (e.state (n + i))) : e.FairTo step own := by
  intro i hall
  exact absurd (hall (n + i) (Nat.le_add_left i n)) (h i)

/-! ### Executions with their history -/

/-- A step together with the labels before and after it. -/
def Recorded (step : S → L → S → Prop) (s : List L × S) (l : L) (s' : List L × S) : Prop :=
  step s.2 l s'.2 ∧ s'.1 = s.1 ++ [l]

def recorded (e : Execution S L) : Execution (List L × S) L where
  state i := (e.history i, e.state i)
  label := e.label

theorem Of.recorded (h : e.Of step) : e.recorded.Of (Recorded step) := by
  intro i
  have hi := h i
  show match e.label i with
    | some l => step (e.state i) l (e.state (i + 1)) ∧ e.history (i + 1) = e.history i ++ [l]
    | none => (e.history (i + 1), e.state (i + 1)) = (e.history i, e.state i)
  rw [history_succ]
  cases hl : e.label i with
  | none =>
    rw [hl] at hi
    rw [Option.toList_none, List.append_nil, show e.state (i + 1) = e.state i from hi]
  | some l =>
    rw [hl] at hi
    exact ⟨hi, rfl⟩

theorem Enabled.recorded {own : L → Prop} {s : S} (h : Enabled step own s) (ls : List L) :
    Enabled (Recorded step) own (ls, s) := by
  obtain ⟨l, s', hown, hs⟩ := h
  exact ⟨l, (ls ++ [l], s'), hown, hs, rfl⟩

/-- The history does not disable a step. -/
theorem FairTo.recorded {own : L → Prop} (h : e.FairTo step own) :
    e.recorded.FairTo (Recorded step) own := by
  intro i hall
  apply h i
  intro j hij
  obtain ⟨l, s', hown, hs, -⟩ := hall j hij
  exact ⟨l, s'.2, hown, hs⟩

/-! ### The rule -/

/-- What the rule asks of a measure `μ` and of the choice of the thread that
    helps, in the states that satisfy `I` and are short of the goal. -/
structure Helped (step : S → L → S → Prop) (own : T → L → Prop) (I goal : S → Prop) (μ : S → ℕ)
    (helpful : S → T) : Prop where
  enabled : ∀ s, I s → ¬ goal s → Enabled step (own (helpful s)) s
  decreases : ∀ s l s', I s → ¬ goal s → step s l s' → own (helpful s) l → μ s' < μ s
  stays : ∀ s l s', I s → ¬ goal s → step s l s' →
    μ s' < μ s ∨ (μ s' = μ s ∧ helpful s' = helpful s)

/-- **The rule of helpful threads.** -/
theorem Of.eventually (h : e.Of step) {own : T → L → Prop} (hfair : ∀ t, e.FairTo step (own t))
    {I goal : S → Prop} {μ : S → ℕ} {helpful : S → T} (hh : Helped step own I goal μ helpful)
    {n : ℕ} (hI : ∀ i, n ≤ i → I (e.state i)) : ∃ i, n ≤ i ∧ goal (e.state i) := by
  by_contra hnever
  push Not at hnever
  -- By induction on the measure: from no moment on can it stay what it is.
  have hgen : ∀ m i, n ≤ i → μ (e.state i) ≠ m := by
    intro m
    induction m using Nat.strong_induction_on with
    | _ m ih =>
      intro i hi heq
      have hsame : ∀ j, i ≤ j →
          μ (e.state j) = m ∧ helpful (e.state j) = helpful (e.state i) := by
        intro j hij
        induction j, hij using Nat.le_induction with
        | base => exact ⟨heq, rfl⟩
        | succ j hij ihj =>
          have hnj := hi.trans hij
          have hj := h j
          cases hl : e.label j with
          | none =>
            rw [hl] at hj
            rwa [show e.state (j + 1) = e.state j from hj]
          | some l =>
            rw [hl] at hj
            rcases hh.stays _ l _ (hI j hnj) (hnever j hnj) hj with hlt | ⟨hμ, ht⟩
            · rw [ihj.1] at hlt
              exact absurd rfl (ih _ hlt (j + 1) (by omega))
            · exact ⟨hμ.trans ihj.1, ht.trans ihj.2⟩
      -- So the same thread remains able to decrease it, and is given a turn.
      have henabled : ∀ j, i ≤ j → Enabled step (own (helpful (e.state i))) (e.state j) := by
        intro j hij
        rw [← (hsame j hij).2]
        exact hh.enabled _ (hI j (hi.trans hij)) (hnever j (hi.trans hij))
      obtain ⟨j, l, hij, hl, hown⟩ := hfair _ i henabled
      have hj := h j
      rw [hl] at hj
      rw [← (hsame j hij).2] at hown
      have hlt := hh.decreases _ l _ (hI j (hi.trans hij)) (hnever j (hi.trans hij)) hj hown
      rw [(hsame j hij).1] at hlt
      exact absurd rfl (ih _ hlt (j + 1) (by omega))
  exact hgen _ n (Nat.le_refl n) rfl

/-! ### At a finer grain -/

variable {X : Type} {R : S → X → Prop} {move : X → X → Prop}

/-- The execution with other states beside its own. -/
def beside (e : Execution S L) (x : ℕ → X) : Execution (S × X) L where
  state i := (e.state i, x i)
  label := e.label

/-- A step, and a move of the state beside it that keeps the two related. -/
def Beside (step : S → L → S → Prop) (R : S → X → Prop) (move : X → X → Prop)
    (p : S × X) (l : L) (p' : S × X) : Prop :=
  step p.1 l p'.1 ∧ R p'.1 p'.2 ∧ move p.2 p'.2

/-- Every step can be followed by a move. -/
def Followed (step : S → L → S → Prop) (R : S → X → Prop) (move : X → X → Prop) : Prop :=
  ∀ s l s' x, R s x → step s l s' → ∃ x', R s' x' ∧ move x x'

theorem Of.follow (h : e.Of step) (hsim : Followed step R move) {x₀ : X} (hx₀ : R (e.state 0) x₀) :
    ∃ x : ℕ → X, x 0 = x₀ ∧ (e.beside x).Of (Beside step R move) ∧ ∀ i, R (e.state i) (x i) := by
  have hnext : ∀ i (x : {x // R (e.state i) x}), ∃ x' : {x // R (e.state (i + 1)) x},
      match e.label i with
      | some l => Beside step R move (e.state i, x.1) l (e.state (i + 1), x'.1)
      | none => (e.state (i + 1), x'.1) = (e.state i, x.1) := by
    intro i x
    have hi := h i
    cases hl : e.label i with
    | none =>
      rw [hl] at hi
      have hsame : e.state (i + 1) = e.state i := hi
      have hx : R (e.state (i + 1)) x.1 := by
        rw [hsame]
        exact x.2
      exact ⟨⟨x.1, hx⟩, congrArg (·, x.1) hsame⟩
    | some l =>
      rw [hl] at hi
      obtain ⟨x', hx', hmove⟩ := hsim _ l _ _ x.2 hi
      exact ⟨⟨x', hx'⟩, hi, hx', hmove⟩
  choose next hnext using hnext
  let x : (i : ℕ) → {x // R (e.state i) x} := fun i => Nat.rec ⟨x₀, hx₀⟩ next i
  exact ⟨fun i => (x i).1, rfl, fun i => hnext i (x i), fun i => (x i).2⟩

theorem Of.moved {x : ℕ → X} (h : (e.beside x).Of (Beside step R move)) (hrefl : ∀ x, move x x)
    (htrans : ∀ x x' x'', move x x' → move x' x'' → move x x'') {i j : ℕ} (hij : i ≤ j) :
    move (x i) (x j) := by
  induction j, hij using Nat.le_induction with
  | base => exact hrefl _
  | succ j _ ih =>
    have hj := h j
    cases hl : (e.beside x).label j with
    | none =>
      rw [hl] at hj
      have hsame : x (j + 1) = x j := congrArg Prod.snd hj
      rwa [hsame]
    | some l =>
      rw [hl] at hj
      exact htrans _ _ _ ih hj.2.2

theorem Enabled.beside {own : L → Prop} {s : S} (h : Enabled step own s)
    (hsim : Followed step R move) {x : X} (hx : R s x) :
    Enabled (Beside step R move) own (s, x) := by
  obtain ⟨l, s', hown, hs⟩ := h
  obtain ⟨x', hx', hmove⟩ := hsim s l s' x hx hs
  exact ⟨l, (s', x'), hown, hs, hx', hmove⟩

theorem FairTo.beside {own : L → Prop} (h : e.FairTo step own) (x : ℕ → X) :
    (e.beside x).FairTo (Beside step R move) own := by
  intro i hall
  apply h i
  intro j hij
  obtain ⟨l, p', hown, hs, -⟩ := hall j hij
  exact ⟨l, p'.1, hown, hs⟩

/-- **The rule of helpful threads at a finer grain.**  The measure is one of
    the states beside the execution; while it stays what it is, the helpful
    thread uses up the turns it takes to decrease it, and no other step adds
    to them. -/
theorem Helped.of_beside {own : T → L → Prop} {I goal : S × X → Prop} (μ : X → ℕ)
    (helpful : X → T) (turns : S → T → ℕ) {most : ℕ} (hmost : ∀ s t, turns s t ≤ most)
    (henabled : ∀ p, I p → ¬ goal p → Enabled (Beside step R move) (own (helpful p.2)) p)
    (hstep : ∀ p l p', I p → ¬ goal p → Beside step R move p l p' → μ p'.2 < μ p.2 ∨
      (μ p'.2 = μ p.2 ∧ helpful p'.2 = helpful p.2 ∧
        (own (helpful p.2) l → turns p'.1 (helpful p.2) < turns p.1 (helpful p.2)) ∧
        (¬ own (helpful p.2) l → turns p'.1 (helpful p.2) = turns p.1 (helpful p.2)))) :
    Helped (Beside step R move) own I goal
      (fun p => μ p.2 * (most + 1) + turns p.1 (helpful p.2)) (fun p => helpful p.2) := by
  have hlt : ∀ p p' : S × X, μ p'.2 < μ p.2 →
      μ p'.2 * (most + 1) + turns p'.1 (helpful p'.2) <
        μ p.2 * (most + 1) + turns p.1 (helpful p.2) := by
    intro p p' hμ
    have hmul := Nat.mul_le_mul_right (most + 1) (Nat.succ_le_of_lt hμ)
    have hle := hmost p'.1 (helpful p'.2)
    rw [Nat.succ_mul] at hmul
    omega
  constructor
  case enabled => exact henabled
  case decreases =>
    intro p l p' hI hgoal hs hown
    rcases hstep p l p' hI hgoal hs with hμ | ⟨hμ, hsame, hturns, -⟩
    · exact hlt p p' hμ
    · show μ p'.2 * (most + 1) + turns p'.1 (helpful p'.2) < _
      rw [hμ, hsame]
      exact Nat.add_lt_add_left (hturns hown) _
  case stays =>
    intro p l p' hI hgoal hs
    rcases hstep p l p' hI hgoal hs with hμ | ⟨hμ, hsame, hturns, hother⟩
    · exact Or.inl (hlt p p' hμ)
    · show μ p'.2 * (most + 1) + turns p'.1 (helpful p'.2) < _ ∨ _
      rw [hμ, hsame]
      by_cases hown : own (helpful p.2) l
      · exact Or.inl (Nat.add_lt_add_left (hturns hown) _)
      · exact Or.inr ⟨congrArg _ (hother hown), rfl⟩

end Execution
end Orderbook
