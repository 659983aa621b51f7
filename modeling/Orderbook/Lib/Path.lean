import Mathlib.Data.List.Basic
import Mathlib.Tactic

/-! # Runs of a labelled transition relation

    `Path step s ls s'` is a run from `s` to `s'` whose steps carry the
    labels `ls`.  The rules below are the induction rules the model's results
    over whole runs are assembled from: an invariant, an invariant under a
    condition that every step meets, and a simulation. -/

namespace Orderbook

/-- A run from one state to another along a list of labels. -/
inductive Path {S L : Type} (step : S → L → S → Prop) : S → List L → S → Prop where
  | nil (s : S) : Path step s [] s
  | cons {s s' s'' : S} {l : L} {ls : List L} :
      step s l s' → Path step s' ls s'' → Path step s (l :: ls) s''

/-- The steps of `step` that meet a condition on the state before them. -/
def Guarded {S L : Type} (G : S → L → Prop) (step : S → L → S → Prop) : S → L → S → Prop :=
  fun s l s' => G s l ∧ step s l s'

namespace Path
variable {S L : Type} {step : S → L → S → Prop} {s s' s'' : S} {ls ms : List L}

theorem append (h : Path step s ls s') (h' : Path step s' ms s'') :
    Path step s (ls ++ ms) s'' := by
  induction h with
  | nil _ => exact h'
  | cons hstep _ ih => exact .cons hstep (ih h')

theorem snoc {l : L} (h : Path step s ls s') (hl : step s' l s'') :
    Path step s (ls ++ [l]) s'' :=
  h.append (.cons hl (.nil _))

theorem split (h : Path step s (ls ++ ms) s'') :
    ∃ s', Path step s ls s' ∧ Path step s' ms s'' := by
  induction ls generalizing s with
  | nil => exact ⟨s, .nil s, h⟩
  | cons l ls ih =>
    cases h with
    | cons hstep h =>
      obtain ⟨s', h1, h2⟩ := ih h
      exact ⟨s', .cons hstep h1, h2⟩

/-- **Invariant rule.** -/
theorem invariant {I : S → Prop} (hstep : ∀ s l s', I s → step s l s' → I s')
    (h : Path step s ls s') (hs : I s) : I s' := by
  induction h with
  | nil _ => exact hs
  | cons hl _ ih => exact ih (hstep _ _ _ hs hl)

/-- **History rule.**  An invariant of the state and of the labels so far. -/
theorem history {I : List L → S → Prop}
    (hstep : ∀ ls s l s', I ls s → step s l s' → I (ls ++ [l]) s')
    (h : Path step s ls s') (hs : I [] s) : I ls s' := by
  have hgen : ∀ pre, I pre s → I (pre ++ ls) s' := by
    clear hs
    induction h with
    | nil s =>
      intro pre hpre
      rw [List.append_nil]
      exact hpre
    | @cons s s₁ s' l ls hl _ ih =>
      intro pre hpre
      have hone := ih (pre ++ [l]) (hstep pre s l s₁ hpre hl)
      rwa [List.append_assoc] at hone
  exact hgen [] hs

theorem mono {step' : S → L → S → Prop} (hsub : ∀ s l s', step s l s' → step' s l s')
    (h : Path step s ls s') : Path step' s ls s' := by
  induction h with
  | nil s => exact .nil s
  | cons hl _ ih => exact .cons (hsub _ _ _ hl) ih

/-- The labels of the run may be used to pass to another relation. -/
theorem mono_of_mem {step' : S → L → S → Prop} (h : Path step s ls s')
    (hsub : ∀ l ∈ ls, ∀ s s', step s l s' → step' s l s') : Path step' s ls s' := by
  induction h with
  | nil s => exact .nil s
  | cons hl _ ih =>
    exact .cons (hsub _ List.mem_cons_self _ _ hl)
      (ih fun l hl => hsub l (List.mem_cons_of_mem _ hl))

/-- What is executed one label after the other is a run. -/
theorem of_foldlM {next? : S → L → Option S}
    (hstep : ∀ l ∈ ls, ∀ s s', next? s l = some s' → step s l s')
    (h : ls.foldlM next? s = some s') : Path step s ls s' := by
  induction ls generalizing s with
  | nil =>
    cases h
    exact .nil _
  | cons l ls ih =>
    rw [List.foldlM_cons, Option.bind_eq_bind, Option.bind_eq_some_iff] at h
    obtain ⟨m, hm, h⟩ := h
    exact .cons (hstep l List.mem_cons_self s m hm)
      (ih (fun l hl => hstep l (List.mem_cons_of_mem _ hl)) h)

theorem of_guarded {G : S → L → Prop} (h : Path (Guarded G step) s ls s') :
    Path step s ls s' :=
  h.mono fun _ _ _ hl => hl.2

theorem deterministic (hdet : ∀ s l s₁ s₂, step s l s₁ → step s l s₂ → s₁ = s₂)
    (h : Path step s ls s') (h' : Path step s ls s'') : s' = s'' := by
  induction h generalizing s'' with
  | nil s =>
    cases h'
    rfl
  | cons hl _ ih =>
    cases h' with
    | cons hl' h' =>
      have heq := hdet _ _ _ _ hl hl'
      subst heq
      exact ih h'

/-- A run of deterministic steps that meet each of two conditions. -/
theorem guarded_and {G H : S → L → Prop} (hdet : ∀ s l s₁ s₂, step s l s₁ → step s l s₂ → s₁ = s₂)
    (h : Path (Guarded G step) s ls s') (h' : Path (Guarded H step) s ls s'') :
    Path (Guarded (fun s l => G s l ∧ H s l) step) s ls s' := by
  induction h generalizing s'' with
  | nil s => exact .nil s
  | cons hl _ ih =>
    cases h' with
    | cons hl' h' =>
      have heq := hdet _ _ _ _ hl.2 hl'.2
      subst heq
      exact .cons ⟨⟨hl.1, hl'.1⟩, hl.2⟩ (ih h')

/-- **Simulation rule.**  Every run of the concrete system is matched by a
    run of the abstract one with the corresponding labels. -/
theorem simulation {T M : Type} {step' : T → M → T → Prop} {f : L → M} {R : S → T → Prop}
    (hstep : ∀ s l s' t, R s t → step s l s' → ∃ t', step' t (f l) t' ∧ R s' t')
    (h : Path step s ls s') {t : T} (hR : R s t) :
    ∃ t', Path step' t (ls.map f) t' ∧ R s' t' := by
  induction h generalizing t with
  | nil s => exact ⟨t, .nil t, hR⟩
  | cons hl _ ih =>
    obtain ⟨t', hl', hR'⟩ := hstep _ _ _ _ hR hl
    obtain ⟨t'', h', hR''⟩ := ih hR'
    exact ⟨t'', .cons hl' h', hR''⟩

/-- **Exact condition rule.**  Where the steps are deterministic and, from a
    state that satisfies `I`, lead to one that does exactly when they meet
    `G`, a run stays inside `I` exactly when all its steps meet `G`. -/
theorem forall_prefix_iff_guarded {I : S → Prop} {G : S → L → Prop}
    (hdet : ∀ s l s₁ s₂, step s l s₁ → step s l s₂ → s₁ = s₂)
    (hiff : ∀ s l s', I s → step s l s' → (I s' ↔ G s l))
    (h : Path step s ls s') (hs : I s) :
    (∀ ms x, ms <+: ls → Path step s ms x → I x) ↔ Path (Guarded G step) s ls s' := by
  induction h with
  | nil s =>
    refine ⟨fun _ => .nil s, ?_⟩
    intro _ ms x hms hx
    rw [List.prefix_nil.mp hms] at hx
    cases hx
    exact hs
  | @cons s s₁ s' l ls hl hrest ih =>
    constructor
    · intro hall
      have hs₁ : I s₁ := hall [l] s₁ (by simp) (.cons hl (.nil s₁))
      refine .cons ⟨(hiff s l s₁ hs hl).mp hs₁, hl⟩ ((ih hs₁).mp ?_)
      intro ms x hms hx
      exact hall (l :: ms) x (by simpa using hms) (.cons hl hx)
    · intro hg ms x hms hx
      cases hg with
      | @cons _ s₂ _ _ _ hgl hg' =>
        have heq : s₂ = s₁ := hdet _ _ _ _ hgl.2 hl
        subst heq
        have hs₁ : I s₂ := (hiff s l s₂ hs hl).mpr hgl.1
        cases hx with
        | nil _ => exact hs
        | @cons _ s₃ _ l' ms' hl' hx' =>
          have hms' : l' = l ∧ ms' <+: ls := by simpa using hms
          obtain ⟨rfl, hms'⟩ := hms'
          have heq : s₃ = s₂ := hdet _ _ _ _ hl' hl
          subst heq
          exact (ih hs₁).mpr hg' ms' x hms' hx'

end Path
end Orderbook
