/- KDESu/Library/Histories
   digest: Runs of deterministic machines, their histories, and the rules for both. -/

import Mathlib.Data.List.Basic
import Mathlib.Data.List.Forall2
import Mathlib.Data.List.Induction

set_option autoImplicit false
set_option relaxedAutoImplicit false

namespace KDESu.Library.Histories

/-- One event of a run, with the state in which it arrived. -/
structure Moment (σ ε : Type) where
  before : σ
  event : ε

variable {σ ε ω μ : Type}

def run (step : σ → ε → σ × ω) (s : σ) : List ε → σ
  | [] => s
  | e :: es => run step (step s e).1 es

def history (step : σ → ε → σ × ω) (s : σ) : List ε → List (Moment σ ε)
  | [] => []
  | e :: es => ⟨s, e⟩ :: history step (step s e).1 es

def outputs (step : σ → ε → σ × ω) (s : σ) : List ε → List ω
  | [] => []
  | e :: es => (step s e).2 :: outputs step (step s e).1 es

theorem run_append (step : σ → ε → σ × ω) (s : σ) (es fs : List ε) :
    run step s (es ++ fs) = run step (run step s es) fs := by
  induction es generalizing s with
  | nil => rfl
  | cons e es ih => exact ih (step s e).1

theorem history_append (step : σ → ε → σ × ω) (s : σ) (es fs : List ε) :
    history step s (es ++ fs) = history step s es ++ history step (run step s es) fs := by
  induction es generalizing s with
  | nil => rfl
  | cons e es ih => exact congrArg (List.cons ⟨s, e⟩) (ih (step s e).1)

theorem outputs_append (step : σ → ε → σ × ω) (s : σ) (es fs : List ε) :
    outputs step s (es ++ fs) = outputs step s es ++ outputs step (run step s es) fs := by
  induction es generalizing s with
  | nil => rfl
  | cons e es ih => exact congrArg (List.cons (step s e).2) (ih (step s e).1)

theorem run_snoc (step : σ → ε → σ × ω) (s : σ) (es : List ε) (e : ε) :
    run step s (es ++ [e]) = (step (run step s es) e).1 := run_append step s es [e]

theorem history_snoc (step : σ → ε → σ × ω) (s : σ) (es : List ε) (e : ε) :
    history step s (es ++ [e]) = history step s es ++ [⟨run step s es, e⟩] :=
  history_append step s es [e]

theorem mem_history {step : σ → ε → σ × ω} {s : σ} {es : List ε} {m : Moment σ ε}
    (member : m ∈ history step s es) :
    ∃ pre e post, es = pre ++ e :: post ∧ m = ⟨run step s pre, e⟩ := by
  induction es generalizing s with
  | nil => cases member
  | cons e es ih =>
    rcases List.mem_cons.mp member with rfl | later
    · exact ⟨[], e, es, rfl, rfl⟩
    · obtain ⟨pre, e', post, rfl, rfl⟩ := ih later
      exact ⟨e :: pre, e', post, rfl, rfl⟩

theorem mem_history_of_front (step : σ → ε → σ × ω) (s : σ) {pre es : List ε} {e : ε}
    (front : pre ++ [e] <+: es) : ⟨run step s pre, e⟩ ∈ history step s es := by
  obtain ⟨post, rfl⟩ := front
  rw [history_append, history_snoc]
  exact List.mem_append_left _ (List.mem_append_right _ (List.mem_singleton.mpr rfl))

/-- What holds of every index of a list holds of every prefix and the element behind it. -/
theorem forall_front_of_get {es : List ε} {P : List ε → ε → Prop}
    (each : ∀ n, (inside : n < es.length) → P (es.take n) es[n]) (pre : List ε) (e : ε)
    (front : pre ++ [e] <+: es) : P pre e := by
  obtain ⟨post, rfl⟩ := front
  simpa using each pre.length (by simp)

/-- Invariants of a state and of the history that led to it, when every moment of the run
meets a condition on it and on its past. -/
theorem run_induction_along {step : σ → ε → σ × ω} {s : σ}
    {C : List (Moment σ ε) → Moment σ ε → Prop} {P : List (Moment σ ε) → σ → Prop}
    (start : P [] s)
    (next : ∀ h t e, P h t → C h ⟨t, e⟩ → P (h ++ [⟨t, e⟩]) (step t e).1) (es : List ε)
    (met : ∀ pre e, pre ++ [e] <+: es → C (history step s pre) ⟨run step s pre, e⟩) :
    P (history step s es) (run step s es) := by
  induction es using List.reverseRecOn with
  | nil => exact start
  | append_singleton es e ih =>
    rw [history_snoc, run_snoc]
    have earlier := ih fun pre f front => met pre f (front.trans (List.prefix_append es [e]))
    exact next _ _ e earlier (met es e (List.prefix_refl _))

/-- The same for a condition on the moment alone. -/
theorem run_induction_under {step : σ → ε → σ × ω} {s : σ} {C : Moment σ ε → Prop}
    {P : List (Moment σ ε) → σ → Prop} (start : P [] s)
    (next : ∀ h t e, P h t → C ⟨t, e⟩ → P (h ++ [⟨t, e⟩]) (step t e).1)
    (es : List ε) (met : ∀ m ∈ history step s es, C m) :
    P (history step s es) (run step s es) :=
  run_induction_along (C := fun _ => C) start next es fun _ _ front =>
    met _ (mem_history_of_front step s front)

theorem run_induction {step : σ → ε → σ × ω} {s : σ} {P : List (Moment σ ε) → σ → Prop}
    (start : P [] s) (next : ∀ h t e, P h t → P (h ++ [⟨t, e⟩]) (step t e).1)
    (es : List ε) : P (history step s es) (run step s es) :=
  run_induction_under (C := fun _ => True) start (fun h t e holds _ => next h t e holds) es
    (fun _ _ => trivial)

theorem invariant_run {step : σ → ε → σ × ω} {s : σ} {I : σ → Prop} (start : I s)
    (next : ∀ t e, I t → I (step t e).1) (es : List ε) : I (run step s es) :=
  run_induction (P := fun _ t => I t) start (fun _ t e holds => next t e holds) es

theorem outputs_induction {step : σ → ε → σ × List ω} {s : σ} {P : List ω → σ → Prop}
    (start : P [] s) (next : ∀ os t e, P os t → P (os ++ (step t e).2) (step t e).1)
    (es : List ε) : P (outputs step s es).flatten (run step s es) := by
  induction es using List.reverseRecOn with
  | nil => exact start
  | append_singleton es e ih =>
    rw [outputs_append, run_snoc, List.flatten_append]
    have last : (outputs step (run step s es) [e]).flatten = (step (run step s es) e).2 :=
      List.append_nil _
    rw [last]
    exact next _ _ e ih

/-- Two runs over related events stay related and put out the same. -/
theorem related_runs {step : σ → ε → σ × ω} {R : σ → σ → Prop} {E : ε → ε → Prop}
    (next : ∀ s t e f, R s t → E e f →
      R (step s e).1 (step t f).1 ∧ (step s e).2 = (step t f).2)
    {s t : σ} (related : R s t) {es fs : List ε} (events : List.Forall₂ E es fs) :
    R (run step s es) (run step t fs) ∧ outputs step s es = outputs step t fs := by
  induction events generalizing s t with
  | nil => exact ⟨related, rfl⟩
  | cons event _ ih =>
    obtain ⟨states, output⟩ := next _ _ _ _ related event
    obtain ⟨final, rest⟩ := ih states
    exact ⟨final, by simp only [outputs, output, rest]⟩

/-- Everything that a run puts out is as it should be exactly if every moment meets a condition,
when this holds of every step from a good state, and a step that meets the condition ends in a
good state. -/
theorem outputs_iff_history {step : σ → ε → σ × List ω} {I : σ → Prop} {P : ω → Prop}
    {C : Moment σ ε → Prop}
    (next : ∀ s e, I s → ((∀ x ∈ (step s e).2, P x) ↔ C ⟨s, e⟩) ∧ (C ⟨s, e⟩ → I (step s e).1))
    {s : σ} (start : I s) (es : List ε) :
    (∀ x ∈ (outputs step s es).flatten, P x) ↔ ∀ m ∈ history step s es, C m := by
  induction es generalizing s with
  | nil => exact iff_of_true (by simp [outputs]) (by simp [history])
  | cons e es ih =>
    obtain ⟨good, kept⟩ := next s e start
    simp only [outputs, history, List.flatten_cons, List.forall_mem_append, List.forall_mem_cons]
    by_cases met : C ⟨s, e⟩
    · exact and_congr good (ih (kept met))
    · exact iff_of_false (fun both => met (good.mp both.1)) fun both => met both.1

/-- Every beginning of a run is as it should be exactly if every moment meets a condition, when
this holds of each step that is taken behind a beginning as it should be. -/
theorem fronts_iff_history {step : σ → ε → σ × ω} {s : σ} {P : List ε → Prop}
    {C : Moment σ ε → Prop} (start : P [])
    (next : ∀ es e, P es → (P (es ++ [e]) ↔ C ⟨run step s es, e⟩)) (es : List ε) :
    (∀ pre, pre <+: es → P pre) ↔ ∀ m ∈ history step s es, C m := by
  induction es using List.reverseRecOn with
  | nil =>
    refine iff_of_true (fun pre front => ?_) (by simp [history])
    exact (List.prefix_nil.mp front) ▸ start
  | append_singleton es e ih =>
    rw [history_snoc, List.forall_mem_append, ← ih, List.forall_mem_singleton]
    constructor
    · intro each
      have earlier : ∀ pre, pre <+: es → P pre :=
        fun pre front => each pre (front.trans (List.prefix_append es [e]))
      exact ⟨earlier, (next es e (earlier es (List.prefix_refl es))).mp
        (each _ (List.prefix_refl _))⟩
    · rintro ⟨earlier, last⟩ pre front
      rcases List.prefix_concat_iff.mp front with rfl | inside
      · exact (next es e (earlier es (List.prefix_refl es))).mpr last
      · exact earlier pre inside

/-- A machine that checks its steps, and fails where a moment does not meet a condition, gets
through a list of events exactly if every moment meets it, and then to where the machine without
the checks gets. -/
theorem checked_run_iff {step : σ → ε → σ × ω} {checked : σ → ε → Option σ} {I : σ → Prop}
    {C : Moment σ ε → Prop}
    (next : ∀ s e, I s →
      (∀ t, checked s e = some t ↔ C ⟨s, e⟩ ∧ (step s e).1 = t) ∧ I (step s e).1)
    {s : σ} (start : I s) (es : List ε) (t : σ) :
    es.foldlM checked s = some t ↔ (∀ m ∈ history step s es, C m) ∧ run step s es = t := by
  induction es generalizing s with
  | nil =>
    rw [List.foldlM_nil]
    simp [history, run]
  | cons e es ih =>
    obtain ⟨stepped, kept⟩ := next s e start
    simp only [List.foldlM_cons, Option.bind_eq_bind, Option.bind_eq_some_iff, stepped, history,
      run, List.forall_mem_cons]
    constructor
    · rintro ⟨_, ⟨met, rfl⟩, rest⟩
      obtain ⟨later, reached⟩ := (ih kept).mp rest
      exact ⟨⟨met, later⟩, reached⟩
    · rintro ⟨⟨met, later⟩, reached⟩
      exact ⟨_, ⟨met, rfl⟩, (ih kept).mpr ⟨later, reached⟩⟩

/-- A machine each of whose steps is a run of another one refines it: every run does what
some run of the other machine does, and puts out the same. -/
theorem refined_runs {τ δ ω : Type} {fine : σ → ε → σ × List ω} {coarse : τ → δ → τ × List ω}
    {R : τ → σ → Prop}
    (next : ∀ t s d, R t s → ∃ es, R (coarse t d).1 (run fine s es) ∧
      (coarse t d).2 = (outputs fine s es).flatten)
    {t : τ} {s : σ} (related : R t s) (ds : List δ) :
    ∃ es, R (run coarse t ds) (run fine s es) ∧
      (outputs coarse t ds).flatten = (outputs fine s es).flatten := by
  induction ds generalizing t s with
  | nil => exact ⟨[], related, rfl⟩
  | cons d ds ih =>
    obtain ⟨es, states, output⟩ := next t s d related
    obtain ⟨fs, final, rest⟩ := ih states
    refine ⟨es ++ fs, ?_, ?_⟩
    · rw [run_append]
      exact final
    · rw [outputs_append, List.flatten_append, ← output, ← rest]
      rfl

/-- Some element satisfies `A`, given what came before it, and none after it satisfies `B`. -/
def SinceAt (A : List μ → μ → Prop) (B : μ → Prop) (h : List μ) : Prop :=
  ∃ pre m post, h = pre ++ m :: post ∧ A pre m ∧ ∀ n ∈ post, ¬B n

/-- Some element satisfies `A`, and no element after it satisfies `B`. -/
def Since (A B : μ → Prop) (h : List μ) : Prop := SinceAt (fun _ => A) B h

@[simp] theorem not_sinceAt_nil (A : List μ → μ → Prop) (B : μ → Prop) : ¬SinceAt A B [] := by
  rintro ⟨pre, m, post, equal, -, -⟩
  exact List.append_ne_nil_of_right_ne_nil pre (List.cons_ne_nil m post) equal.symm

@[simp] theorem not_since_nil (A B : μ → Prop) : ¬Since A B [] := not_sinceAt_nil _ B

/-- The recursion of `SinceAt` along a history that grows at its end. -/
theorem sinceAt_snoc (A : List μ → μ → Prop) (B : μ → Prop) (h : List μ) (m : μ) :
    SinceAt A B (h ++ [m]) ↔ A h m ∨ (SinceAt A B h ∧ ¬B m) := by
  constructor
  · rintro ⟨pre, a, post, equal, holds, quiet⟩
    rcases List.eq_nil_or_concat post with rfl | ⟨post, b, rfl⟩
    · obtain ⟨front, same⟩ := List.append_inj' equal rfl
      obtain rfl := List.singleton_inj.mp same
      exact Or.inl (front ▸ holds)
    · have split : h ++ [m] = (pre ++ a :: post) ++ [b] := by simpa using equal
      obtain ⟨front, same⟩ := List.append_inj' split rfl
      obtain rfl := List.singleton_inj.mp same
      refine Or.inr ⟨⟨pre, a, post, front, holds, ?_⟩, quiet _ (by simp)⟩
      exact fun n member => quiet n (by simp [member])
  · rintro (holds | ⟨⟨pre, a, post, rfl, holds, quiet⟩, last⟩)
    · exact ⟨h, m, [], rfl, holds, by simp⟩
    · refine ⟨pre, a, post ++ [m], by simp, holds, ?_⟩
      intro n member
      rcases List.mem_append.mp member with old | fresh
      · exact quiet n old
      · exact List.mem_singleton.mp fresh ▸ last

theorem since_snoc (A B : μ → Prop) (h : List μ) (m : μ) :
    Since A B (h ++ [m]) ↔ A m ∨ (Since A B h ∧ ¬B m) :=
  sinceAt_snoc (fun _ => A) B h m

theorem Since.exists_mem {A B : μ → Prop} {h : List μ} (since : Since A B h) :
    ∃ m ∈ h, A m := by
  obtain ⟨pre, m, post, rfl, holds, -⟩ := since
  exact ⟨m, by simp, holds⟩

end KDESu.Library.Histories
