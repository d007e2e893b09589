/- KDESu/Library/Framing
   digest: Streams of terminated frames, however they are cut, and servers that can stop. -/

import Mathlib.Data.List.Basic

set_option autoImplicit false
set_option relaxedAutoImplicit false

namespace KDESu.Library.Framing

section Frames

variable {α : Type} [DecidableEq α] {sep : α}

/-- The frames of a stream, each with the separator at its end, and the unfinished rest. -/
def frames (sep : α) : List α → List (List α) × List α
  | [] => ([], [])
  | c :: cs =>
      match frames sep cs with
      | ([], rest) => if c = sep then ([[c]], rest) else ([], c :: rest)
      | (f :: fs, rest) => if c = sep then ([c] :: f :: fs, rest) else ((c :: f) :: fs, rest)

theorem frames_sep (cs : List α) :
    frames sep (sep :: cs) = ([sep] :: (frames sep cs).1, (frames sep cs).2) := by
  rw [frames]
  rcases frames sep cs with ⟨fs, rest⟩
  cases fs <;> simp

theorem frames_cons {c : α} (other : c ≠ sep) (cs : List α) :
    frames sep (c :: cs) =
      match frames sep cs with
      | ([], rest) => ([], c :: rest)
      | (f :: fs, rest) => ((c :: f) :: fs, rest) := by
  rw [frames]
  rcases frames sep cs with ⟨fs, rest⟩
  cases fs <;> simp [other]

theorem frames_append_of_free {p : List α} (free : sep ∉ p) (q : List α) :
    frames sep (p ++ q) =
      match frames sep q with
      | ([], rest) => ([], p ++ rest)
      | (f :: fs, rest) => ((p ++ f) :: fs, rest) := by
  induction p with
  | nil =>
    rw [List.nil_append]
    rcases frames sep q with ⟨fs, rest⟩
    cases fs <;> rfl
  | cons c p ih =>
    have other : c ≠ sep := by
      rintro rfl
      exact free List.mem_cons_self
    have tail := ih (fun member => free (List.mem_cons_of_mem c member))
    rw [List.cons_append, frames_cons other, tail]
    rcases frames sep q with ⟨fs, rest⟩
    cases fs <;> rfl

theorem frames_of_free {p : List α} (free : sep ∉ p) : frames sep p = ([], p) := by
  have appended := frames_append_of_free free []
  rw [List.append_nil] at appended
  simpa [frames] using appended

theorem frames_frame {p : List α} (free : sep ∉ p) (q : List α) :
    frames sep (p ++ sep :: q) = ((p ++ [sep]) :: (frames sep q).1, (frames sep q).2) := by
  rw [frames_append_of_free free, frames_sep]

/-- A stream can be cut anywhere: what is unfinished at the cut goes on behind it. -/
theorem frames_append (xs ys : List α) :
    frames sep (xs ++ ys) =
      ((frames sep xs).1 ++ (frames sep ((frames sep xs).2 ++ ys)).1,
        (frames sep ((frames sep xs).2 ++ ys)).2) := by
  induction xs with
  | nil => rfl
  | cons c xs ih =>
    rw [List.cons_append]
    by_cases ends : c = sep
    · subst ends
      rw [frames_sep, frames_sep, ih]
      rfl
    · rw [frames_cons ends, frames_cons ends]
      rcases cut : frames sep xs with ⟨fs, rest⟩
      rw [cut] at ih
      cases fs with
      | nil =>
        rw [ih, List.nil_append, List.nil_append, List.cons_append, frames_cons ends]
      | cons f fs =>
        rw [ih]
        rfl

theorem frames_flatten (xs : List α) : (frames sep xs).1.flatten ++ (frames sep xs).2 = xs := by
  induction xs with
  | nil => rfl
  | cons c xs ih =>
    by_cases ends : c = sep
    · subst ends
      rw [frames_sep, List.flatten_cons, List.append_assoc, ih]
      rfl
    · rw [frames_cons ends]
      rcases cut : frames sep xs with ⟨fs, rest⟩
      rw [cut] at ih
      cases fs with
      | nil => exact congrArg (c :: ·) ih
      | cons f fs =>
        rw [List.flatten_cons, List.append_assoc] at ih
        rw [List.flatten_cons, List.cons_append, List.cons_append, List.append_assoc, ih]

theorem rest_free (xs : List α) : sep ∉ (frames sep xs).2 := by
  induction xs with
  | nil => exact List.not_mem_nil
  | cons c xs ih =>
    by_cases ends : c = sep
    · subst ends
      rw [frames_sep]
      exact ih
    · rw [frames_cons ends]
      rcases cut : frames sep xs with ⟨fs, rest⟩
      rw [cut] at ih
      cases fs with
      | nil =>
        rw [List.mem_cons, not_or]
        exact ⟨Ne.symm ends, ih⟩
      | cons f fs => exact ih

theorem length_le_of_free {p q : List α} (free : sep ∉ p) {k : Nat}
    (framed : ∀ f ∈ (frames sep (p ++ q)).1, f.length ≤ k)
    (rested : (frames sep (p ++ q)).2.length ≤ k) : p.length ≤ k := by
  rw [frames_append_of_free free] at framed rested
  rcases cut : frames sep q with ⟨fs, rest⟩
  cases fs with
  | nil =>
    simp only [cut, List.length_append] at rested
    omega
  | cons f fs =>
    simp only [cut] at framed
    have first := framed (p ++ f) List.mem_cons_self
    rw [List.length_append] at first
    omega

end Frames

section Serving

variable {σ φ ω : Type} [DecidableEq ω]

structure Served (σ φ ω : Type) where
  done : List φ
  state : σ
  ending : ω

/-- Serve requests in turn, until one is not answered by `go`. -/
def serve (answer : σ → φ → σ × ω) (go : ω) (s : σ) : List φ → Served σ φ ω
  | [] => ⟨[], s, go⟩
  | f :: fs =>
      if (answer s f).2 = go then
        let rest := serve answer go (answer s f).1 fs
        { rest with done := f :: rest.done }
      else ⟨[f], (answer s f).1, (answer s f).2⟩

variable (answer : σ → φ → σ × ω) (go : ω)

theorem serve_append {s : σ} {xs : List φ} (goes : (serve answer go s xs).ending = go)
    (ys : List φ) :
    serve answer go s (xs ++ ys) =
      { serve answer go (serve answer go s xs).state ys with
        done := xs ++ (serve answer go (serve answer go s xs).state ys).done } := by
  induction xs generalizing s with
  | nil => rfl
  | cons x xs ih =>
    simp only [serve] at goes ⊢
    split_ifs at goes with ok
    · simp only [List.cons_append, serve, if_pos ok, ih goes]
    · exact absurd goes ok

theorem serve_append_of_stop {s : σ} {xs : List φ} (stops : (serve answer go s xs).ending ≠ go)
    (ys : List φ) : serve answer go s (xs ++ ys) = serve answer go s xs := by
  induction xs generalizing s with
  | nil => exact absurd rfl stops
  | cons x xs ih =>
    simp only [List.cons_append, serve] at stops ⊢
    split_ifs at stops ⊢
    · rw [ih stops]
    · rfl

theorem done_of_go {s : σ} {xs : List φ} (goes : (serve answer go s xs).ending = go) :
    (serve answer go s xs).done = xs := by
  induction xs generalizing s with
  | nil => rfl
  | cons x xs ih =>
    simp only [serve] at goes ⊢
    split_ifs at goes with ok
    · simp only [if_pos ok, ih goes]
    · exact absurd goes ok

end Serving

end KDESu.Library.Framing
