import Mathlib.Tactic

/-! # Programs seen from outside

    A program reads one input after the other and shows something after each
    of them, as long as its behaviour is defined.  A reference is a program
    that always goes on.  The rules below compare what the two show, for
    inputs that meet a condition on the state of the reference in which they
    are read. -/

namespace Orderbook

/-- What a program does with an input: its next state and what it shows, or
    `none` where its behaviour is not defined. -/
abbrev Program (S I O : Type) : Type := S → I → Option (S × O)

namespace Program
variable {S T I O : Type}

/-- What is shown along a list of inputs. -/
def shown (m : Program S I O) (s : S) : List I → Option (List O)
  | [] => some []
  | i :: is => do
    let (s, o) ← m s i
    let os ← m.shown s is
    some (o :: os)

/-- What a reference shows. -/
def outputs (ref : T → I → T × O) (t : T) : List I → List O
  | [] => []
  | i :: is => (ref t i).2 :: outputs ref (ref t i).1 is

/-- Every input meets `G` at the state of the reference in which it is read. -/
def Meets (ref : T → I → T × O) (G : T → I → Prop) (t : T) : List I → Prop
  | [] => True
  | i :: is => G t i ∧ Meets ref G (ref t i).1 is

instance decidableMeets (ref : T → I → T × O) (G : T → I → Prop) [DecidableRel G] :
    (t : T) → (is : List I) → Decidable (Meets ref G t is)
  | _, [] => .isTrue trivial
  | t, i :: is =>
    have := decidableMeets ref G (ref t i).1 is
    inferInstanceAs (Decidable (G t i ∧ Meets ref G (ref t i).1 is))

theorem Meets.true (ref : T → I → T × O) (t : T) (is : List I) :
    Meets ref (fun _ _ => True) t is := by
  induction is generalizing t with
  | nil => trivial
  | cons i is ih => exact ⟨trivial, ih _⟩

section Rules
variable {m : Program S I O} {ref : T → I → T × O} {R : S → T → Prop} {G H : T → I → Prop}

/-- **Exact agreement rule.**  A program that follows the reference on the
    inputs that meet `H`, and is not defined on the others, shows what the
    reference shows exactly when all inputs meet `H`. -/
theorem shown_eq_iff
    (hstep : ∀ s t i, R s t → G t i → H t i →
      ∃ s', m s i = some (s', (ref t i).2) ∧ R s' (ref t i).1)
    (hstuck : ∀ s t i, R s t → G t i → ¬ H t i → m s i = none)
    {s : S} {t : T} (hR : R s t) {is : List I} (hG : Meets ref G t is) :
    m.shown s is = some (outputs ref t is) ↔ Meets ref H t is := by
  induction is generalizing s t with
  | nil => exact iff_of_true rfl trivial
  | cons i is ih =>
    obtain ⟨hi, hrest⟩ := hG
    by_cases hH : H t i
    · obtain ⟨s', hs', hR'⟩ := hstep s t i hR hi hH
      have hrec := ih hR' hrest
      simp only [shown, outputs, Meets, hs', Option.bind_eq_bind, Option.bind_some]
      rw [and_iff_right hH, ← hrec]
      cases m.shown s' is with
      | none => simp
      | some os => simp
    · have hnone := hstuck s t i hR hi hH
      simp [shown, Meets, hnone, hH]

/-- **Agreement rule.** -/
theorem shown_eq
    (hstep : ∀ s t i, R s t → G t i → ∃ s', m s i = some (s', (ref t i).2) ∧ R s' (ref t i).1)
    {s : S} {t : T} (hR : R s t) {is : List I} (hG : Meets ref G t is) :
    m.shown s is = some (outputs ref t is) :=
  (shown_eq_iff (H := fun _ _ => True) (fun s t i hR hi _ => hstep s t i hR hi)
    (fun _ _ _ _ _ hnot => absurd trivial hnot) hR hG).mpr (.true ref t is)

end Rules

end Program
end Orderbook
