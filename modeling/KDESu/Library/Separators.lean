/- KDESu/Library/Separators
   digest: Texts joined with a separator determine their fields when no field holds it. -/

import Mathlib.Algebra.GroupWithZero.Nat
import Mathlib.Data.List.Basic
import Mathlib.Data.List.Count
import Mathlib.Data.List.Induction

set_option autoImplicit false
set_option relaxedAutoImplicit false

namespace KDESu.Library.Separators

variable {α : Type}

/-- Fields written one after the other, each behind a separator. -/
def fenced (sep : α) (fields : List (List α)) : List α :=
  fields.flatMap (fun field => sep :: field)

@[simp] theorem fenced_nil (sep : α) : fenced sep [] = [] := rfl

@[simp] theorem fenced_cons (sep : α) (field : List α) (fields : List (List α)) :
    fenced sep (field :: fields) = sep :: (field ++ fenced sep fields) := rfl

theorem field_unique {sep : α} {a a' b b' : List α} (free : sep ∉ a) (free' : sep ∉ a')
    (equal : a ++ sep :: b = a' ++ sep :: b') : a = a' ∧ b = b' := by
  induction a generalizing a' with
  | nil =>
    cases a' with
    | nil => exact ⟨rfl, (List.cons.inj equal).2⟩
    | cons c a' =>
      have head : sep = c := (List.cons.inj equal).1
      exact absurd (head ▸ List.mem_cons_self) free'
  | cons c a ih =>
    cases a' with
    | nil =>
      have head : c = sep := (List.cons.inj equal).1
      exact absurd (head ▸ List.mem_cons_self) free
    | cons c' a' =>
      obtain ⟨rfl, tail⟩ := List.cons.inj equal
      obtain ⟨rfl, rest⟩ := ih (fun member => free (List.mem_cons_of_mem c member))
        (fun member => free' (List.mem_cons_of_mem c member)) tail
      exact ⟨rfl, rest⟩

private theorem last_field_unique {sep : α} {a a' : List α} {fields fields' : List (List α)}
    (free : sep ∉ a) (free' : sep ∉ a')
    (equal : a ++ fenced sep fields = a' ++ fenced sep fields') :
    a = a' ∧ fenced sep fields = fenced sep fields' := by
  cases fields with
  | nil =>
    cases fields' with
    | nil => exact ⟨by simpa using equal, rfl⟩
    | cons f fs =>
      have member : sep ∈ a := by
        have inside : sep ∈ a' ++ fenced sep (f :: fs) := by simp
        rw [← equal] at inside
        simpa using inside
      exact absurd member free
  | cons f fs =>
    cases fields' with
    | nil =>
      have member : sep ∈ a' := by
        have inside : sep ∈ a ++ fenced sep (f :: fs) := by simp
        rw [equal] at inside
        simpa using inside
      exact absurd member free'
    | cons f' fs' =>
      simp only [fenced_cons] at equal ⊢
      obtain ⟨same, rest⟩ := field_unique free free' equal
      exact ⟨same, by rw [rest]⟩

theorem fenced_injective {sep : α} {fields fields' : List (List α)}
    (free : ∀ f ∈ fields, sep ∉ f) (free' : ∀ f ∈ fields', sep ∉ f)
    (equal : fenced sep fields = fenced sep fields') : fields = fields' := by
  induction fields generalizing fields' with
  | nil =>
    cases fields' with
    | nil => rfl
    | cons f' fs' => simp at equal
  | cons f fs ih =>
    cases fields' with
    | nil => simp at equal
    | cons f' fs' =>
      simp only [fenced_cons, List.cons.injEq, true_and] at equal
      obtain ⟨rfl, rest⟩ := last_field_unique (free f List.mem_cons_self)
        (free' f' List.mem_cons_self) equal
      rw [ih (fun g member => free g (List.mem_cons_of_mem f member))
        (fun g member => free' g (List.mem_cons_of_mem f member)) rest]

theorem count_fenced [DecidableEq α] (sep : α) (fields : List (List α)) :
    (fenced sep fields).count sep = fields.length + (fields.map (List.count sep)).sum := by
  induction fields with
  | nil => rfl
  | cons f fs ih =>
    simp only [fenced_cons, List.count_cons_self, List.count_append, ih, List.length_cons,
      List.map_cons, List.sum_cons]
    omega

theorem fenced_injective_of_length [DecidableEq α] {sep : α} {fields fields' : List (List α)}
    (free : ∀ f ∈ fields, sep ∉ f) (same : fields'.length = fields.length)
    (equal : fenced sep fields = fenced sep fields') : fields = fields' := by
  apply fenced_injective free ?_ equal
  have none : (fields.map (List.count sep)).sum = 0 := by
    apply List.sum_eq_zero_iff_forall_eq_nat.mpr
    intro n member
    obtain ⟨f, inside, rfl⟩ := List.mem_map.mp member
    exact List.count_eq_zero.mpr (free f inside)
  have counts := congrArg (List.count sep) equal
  rw [count_fenced, count_fenced, same, none] at counts
  have none' : (fields'.map (List.count sep)).sum = 0 := by omega
  intro f member
  exact List.count_eq_zero.mp
    (List.sum_eq_zero_iff_forall_eq_nat.mp none' _ (List.mem_map.mpr ⟨f, member, rfl⟩))

theorem exists_fields [DecidableEq α] (sep : α) (text : List α) :
    ∃ fields last, text = fields.flatMap (· ++ [sep]) ++ last ∧ (∀ f ∈ fields, sep ∉ f) ∧
      sep ∉ last ∧ text.splitOn sep = fields ++ [last] ∧ text.count sep = fields.length := by
  induction seps : text.count sep generalizing text with
  | zero =>
    have free : sep ∉ text := List.count_eq_zero.mp seps
    exact ⟨[], text, rfl, by simp, free, List.splitOn_eq_singleton free, rfl⟩
  | succ n ih =>
    have member : sep ∈ text := List.count_pos_iff.mp (by omega)
    obtain ⟨field, later, rfl, free⟩ := List.eq_append_cons_of_mem member
    have fewer : later.count sep = n := by
      rw [List.count_append, List.count_cons_self, List.count_eq_zero.mpr free] at seps
      omega
    obtain ⟨fields, last, rfl, frees, free', split, count⟩ := ih later fewer
    refine ⟨field :: fields, last, by simp, ?_, free', ?_, ?_⟩
    · exact List.forall_mem_cons.mpr ⟨free, frees⟩
    · rw [List.splitOn_append_cons_self_of_not_mem free, split]
      rfl
    · rw [count, List.length_cons]

theorem intercalate_concat (sep : List α) {fields : List (List α)} (more : fields ≠ [])
    (field : List α) :
    sep.intercalate (fields ++ [field]) = sep.intercalate fields ++ (sep ++ field) := by
  induction fields with
  | nil => exact absurd rfl more
  | cons f fs ih =>
    by_cases last : fs = []
    · simp [last]
    · rw [List.cons_append, List.intercalate_cons_of_ne_nil (by simp),
        List.intercalate_cons_of_ne_nil last, ih last]
      simp only [List.append_assoc]

theorem mem_intercalate {sep : List α} {fields : List (List α)} {c : α}
    (member : c ∈ sep.intercalate fields) : c ∈ sep ∨ ∃ f ∈ fields, c ∈ f := by
  induction fields using List.reverseRecOn with
  | nil => cases member
  | append_singleton fields f ih =>
    by_cases first : fields = []
    · subst first
      exact Or.inr ⟨f, by simp, by simpa using member⟩
    · rw [intercalate_concat sep first, List.mem_append, List.mem_append] at member
      rcases member with old | between | last
      · refine (ih old).imp_right ?_
        rintro ⟨g, inside, holds⟩
        exact ⟨g, List.mem_append_left _ inside, holds⟩
      · exact Or.inl between
      · exact Or.inr ⟨f, by simp, last⟩

theorem intercalate_ne_nil (sep : List α) {fields : List (List α)} (more : fields ≠ [])
    (filled : ∀ f ∈ fields, f ≠ []) : sep.intercalate fields ≠ [] := by
  cases fields with
  | nil => exact absurd rfl more
  | cons f fs =>
    have first : f ≠ [] := filled f List.mem_cons_self
    by_cases last : fs = []
    · simpa [last] using first
    · rw [List.intercalate_cons_of_ne_nil last]
      simp [first]

private theorem prefix_free {sep : α} {x b : List α} (free : sep ∉ x)
    (first : x <+: sep :: b) : x = [] := by
  cases x with
  | nil => rfl
  | cons c x =>
    obtain rfl : c = sep := (List.cons_prefix_cons.mp first).1
    exact absurd List.mem_cons_self free

theorem infix_separated {sep : α} {x : List α} (free : sep ∉ x) (a b : List α) :
    x <:+: a ++ sep :: b ↔ x <:+: a ∨ x <:+: b := by
  rw [List.infix_append_iff, List.infix_cons_iff]
  constructor
  · rintro (left | (first | right) | ⟨y, z, rfl, ends, first⟩)
    · exact Or.inl left
    · exact Or.inl (prefix_free free first ▸ List.nil_infix)
    · exact Or.inr right
    · have last : z = [] :=
        prefix_free (fun member => free (List.mem_append_right y member)) first
      rw [last, List.append_nil]
      exact Or.inl ends.isInfix
  · rintro (left | right)
    · exact Or.inl left
    · exact Or.inr (Or.inl (Or.inr right))

theorem infix_intercalate {sep : α} {x : List α} (free : sep ∉ x) {fields : List (List α)}
    (more : fields ≠ []) : x <:+: [sep].intercalate fields ↔ ∃ f ∈ fields, x <:+: f := by
  induction fields with
  | nil => exact absurd rfl more
  | cons f fs ih =>
    by_cases last : fs = []
    · simp [last]
    · rw [List.intercalate_cons_of_ne_nil last, List.append_assoc, List.singleton_append,
        infix_separated free, ih last]
      simp

end KDESu.Library.Separators
