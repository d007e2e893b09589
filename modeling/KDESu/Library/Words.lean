/- KDESu/Library/Words
   digest: The words of a text between separators, and texts put together out of words. -/

import Mathlib.Data.List.Basic

set_option autoImplicit false
set_option relaxedAutoImplicit false

namespace KDESu.Library.Words

variable {α : Type*} {space : α → Bool}

/-- The longest runs of a text without a separator. -/
def words (space : α → Bool) (s : List α) : List (List α) :=
  (s.splitOnP space).filter (· ≠ [])

structure IsWord (space : α → Bool) (w : List α) : Prop where
  solid : w ≠ []
  free : ∀ c ∈ w, space c = false

@[simp] theorem words_nil : words space [] = [] := rfl

theorem words_append_cons (s t : List α) {c : α} (separates : space c = true) :
    words space (s ++ c :: t) = words space s ++ words space t := by
  rw [words, List.splitOnP_append_cons s t separates, List.filter_append]
  rfl

theorem words_of_word {w : List α} (word : IsWord space w) : words space w = [w] := by
  rw [words, List.splitOnP_eq_singleton word.free]
  simp [word.solid]

theorem free_of_splitOnP {s w : List α} (member : w ∈ s.splitOnP space) :
    ∀ c ∈ w, space c = false := by
  induction s generalizing w with
  | nil =>
    obtain rfl := List.mem_singleton.mp member
    exact fun c none => absurd none List.not_mem_nil
  | cons d s ih =>
    rw [List.splitOnP_cons_eq_if_modifyHead] at member
    split_ifs at member with separates
    · rcases List.mem_cons.mp member with rfl | later
      · exact fun c none => absurd none List.not_mem_nil
      · exact ih later
    · cases pieces : s.splitOnP space with
      | nil => exact absurd pieces (List.splitOnP_ne_nil space s)
      | cons first rest =>
        rw [pieces, List.modifyHead_cons] at member
        rcases List.mem_cons.mp member with rfl | later
        · intro c inside
          rcases List.mem_cons.mp inside with rfl | rest
          · exact Bool.eq_false_iff.mpr separates
          · exact ih (pieces ▸ List.mem_cons_self) c rest
        · exact ih (pieces ▸ List.mem_cons_of_mem first later)

theorem isWord_of_words {s w : List α} (member : w ∈ words space s) : IsWord space w := by
  obtain ⟨piece, solid⟩ := List.mem_filter.mp member
  exact ⟨by simpa using solid, free_of_splitOnP piece⟩

theorem words_intercalate {c : α} (separates : space c = true) {ws : List (List α)}
    (all : ∀ w ∈ ws, IsWord space w) : words space ([c].intercalate ws) = ws := by
  induction ws with
  | nil => rfl
  | cons w ws ih =>
    have first := words_of_word (all w List.mem_cons_self)
    cases ws with
    | nil => rw [List.intercalate_singleton, first]
    | cons v ws =>
      have rest := ih fun u member => all u (List.mem_cons_of_mem w member)
      rw [List.intercalate_cons_cons, List.append_assoc, List.singleton_append,
        words_append_cons _ _ separates, first, rest, List.singleton_append]

theorem splitOn_intercalate [DecidableEq α] {c : α} (separates : space c = true) {s : List α}
    (some_word : words space s ≠ []) :
    ([c].intercalate (words space s)).splitOn c = words space s := by
  refine List.splitOn_intercalate c (fun w member inside => ?_) some_word
  rw [(isWord_of_words member).free c inside] at separates
  cases separates

end KDESu.Library.Words
