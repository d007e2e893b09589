/- KDESu/Library/LineStarts
   digest: Where a text stands at the start of a line of another one. -/

import Mathlib.Data.List.Basic

set_option autoImplicit false
set_option relaxedAutoImplicit false

namespace KDESu.Library.LineStarts

variable {α : Type} {sep : α} {p text : List α}

/-- What stands at the beginning of a text or just behind a separator of it. -/
def OpensLine (sep : α) (p text : List α) : Prop :=
  ∃ front, (front = [] ∨ front.getLast? = some sep) ∧ front ++ p <+: text

theorem opensLine_of_starts (first : p <+: text) : OpensLine sep p text :=
  ⟨[], Or.inl rfl, first⟩

theorem OpensLine.append (opens : OpensLine sep p text) (later : List α) :
    OpensLine sep p (text ++ later) := by
  obtain ⟨front, start, within⟩ := opens
  exact ⟨front, start, within.trans (List.prefix_append text later)⟩

theorem OpensLine.length_le (opens : OpensLine sep p text) : p.length ≤ text.length := by
  obtain ⟨front, -, within⟩ := opens
  have fits := within.length_le
  rw [List.length_append] at fits
  omega

private theorem first_line_prefix {line front rest : List α} (free : sep ∉ line)
    (ends : front.getLast? = some sep) (within : front <+: line ++ sep :: rest) :
    line ++ [sep] <+: front := by
  have whole : line ++ [sep] <+: line ++ sep :: rest := ⟨rest, by simp⟩
  rcases List.prefix_or_prefix_of_prefix within whole with short | long
  · rcases List.prefix_concat_iff.mp short with same | inside
    · exact same ▸ List.prefix_refl _
    · exact absurd (inside.mem (List.mem_of_getLast? ends)) free
  · exact long

theorem opensLine_line {line : List α} (free : sep ∉ line) (rest : List α) :
    OpensLine sep p (line ++ sep :: rest) ↔ p <+: line ++ sep :: rest ∨ OpensLine sep p rest := by
  constructor
  · rintro ⟨front, rfl | ends, within⟩
    · exact Or.inl within
    · obtain ⟨front, rfl⟩ :=
        first_line_prefix free ends ((List.prefix_append front p).trans within)
      refine Or.inr ⟨front, ?_, ?_⟩
      · cases last : front.getLast? with
        | none => exact Or.inl (List.getLast?_eq_none_iff.mp last)
        | some c =>
          rw [List.getLast?_append, last, Option.some_or] at ends
          exact Or.inr ends
      · have aligned : (line ++ [sep]) ++ (front ++ p) <+: (line ++ [sep]) ++ rest := by
          simpa using within
        exact (List.prefix_append_right_inj _).mp aligned
  · rintro (first | ⟨front, start, within⟩)
    · exact opensLine_of_starts first
    · refine ⟨line ++ [sep] ++ front, Or.inr ?_, ?_⟩
      · rcases start with rfl | ends
        · rw [List.append_nil, List.getLast?_concat]
        · rw [List.getLast?_append, ends, Option.some_or]
      · have shifted := (List.prefix_append_right_inj (line ++ [sep])).mpr within
        simpa using shifted

theorem opensLine_of_free (free : sep ∉ text) : OpensLine sep p text ↔ p <+: text := by
  constructor
  · rintro ⟨front, rfl | ends, within⟩
    · exact within
    · have inside := ((List.prefix_append front p).trans within).mem (List.mem_of_getLast? ends)
      exact absurd inside free
  · exact opensLine_of_starts

end KDESu.Library.LineStarts
