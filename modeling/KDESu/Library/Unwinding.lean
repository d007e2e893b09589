/- KDESu/Library/Unwinding
   digest: Runs beside the runs without the events that some observer is not to notice. -/

import KDESu.Library.Histories

set_option autoImplicit false
set_option relaxedAutoImplicit false

namespace KDESu.Library.Unwinding

open KDESu.Library.Histories

variable {σ ε ω τ : Type}

def marks (mark : τ → ε → τ) (t : τ) (es : List ε) : τ := es.foldl mark t

/-- The events that are not hidden, by the marks that those before them leave. -/
def purge (mark : τ → ε → τ) (hidden : τ → ε → Bool) : τ → List ε → List ε
  | _, [] => []
  | t, e :: es =>
      if hidden t e then purge mark hidden (mark t e) es else e :: purge mark hidden (mark t e) es

theorem purge_sublist (mark : τ → ε → τ) (hidden : τ → ε → Bool) (t : τ) (es : List ε) :
    (purge mark hidden t es).Sublist es := by
  induction es generalizing t with
  | nil => exact .slnil
  | cons e es ih =>
    rw [purge]
    split_ifs
    · exact (ih _).cons e
    · exact (ih _).cons_cons e

/-- A run and the run without the hidden events stay related and put out the same, when a hidden
event puts out nothing and leads to nothing new, and every other event does the same to both. -/
theorem purged_run {step : σ → ε → σ × List ω} {C : Moment σ ε → Prop} {R : τ → σ → σ → Prop}
    (mark : τ → ε → τ) (hidden : τ → ε → Bool)
    (silent : ∀ t s s' e, R t s s' → C ⟨s, e⟩ → hidden t e = true →
      R (mark t e) (step s e).1 s' ∧ (step s e).2 = [])
    (seen : ∀ t s s' e, R t s s' → C ⟨s, e⟩ → hidden t e = false →
      R (mark t e) (step s e).1 (step s' e).1 ∧ (step s e).2 = (step s' e).2)
    {t : τ} {s s' : σ} (related : R t s s') (es : List ε) (met : ∀ m ∈ history step s es, C m) :
    R (marks mark t es) (run step s es) (run step s' (purge mark hidden t es)) ∧
      (outputs step s es).flatten = (outputs step s' (purge mark hidden t es)).flatten := by
  induction es generalizing t s s' with
  | nil => exact ⟨related, rfl⟩
  | cons e es ih =>
    obtain ⟨here, later⟩ := List.forall_mem_cons.mp met
    cases visible : hidden t e with
    | true =>
      obtain ⟨states, quiet⟩ := silent t s s' e related here visible
      obtain ⟨final, rest⟩ := ih states later
      have gone : purge mark hidden t (e :: es) = purge mark hidden (mark t e) es :=
        if_pos visible
      rw [gone]
      exact ⟨final, by rw [outputs, List.flatten_cons, quiet, List.nil_append, rest]⟩
    | false =>
      obtain ⟨states, output⟩ := seen t s s' e related here visible
      obtain ⟨final, rest⟩ := ih states later
      have kept : purge mark hidden t (e :: es) = e :: purge mark hidden (mark t e) es :=
        if_neg (by simp [visible])
      rw [kept]
      exact ⟨final, by rw [outputs, outputs, List.flatten_cons, List.flatten_cons, output, rest]⟩

end KDESu.Library.Unwinding
