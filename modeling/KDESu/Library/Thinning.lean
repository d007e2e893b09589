/- KDESu/Library/Thinning
   digest: Lists collected item by item, where an item that a collected one covers is left out. -/

import Mathlib.Data.List.Induction
import Mathlib.Data.List.Nodup
import Mathlib.Order.Lattice

set_option autoImplicit false
set_option relaxedAutoImplicit false

namespace KDESu.Library.Thinning

variable {α κ : Type} {covers : α → α → Bool} {xs : List α} {x : α}

/-- One round: an item is put behind the kept ones unless one of these covers it. -/
def keep (covers : α → α → Bool) (kept : List α) (x : α) : List α :=
  if kept.any (covers · x) then kept else kept ++ [x]

def thin (covers : α → α → Bool) (xs : List α) : List α := xs.foldl (keep covers) []

theorem thin_concat (xs : List α) (x : α) :
    thin covers (xs ++ [x]) = keep covers (thin covers xs) x := by
  rw [thin, List.foldl_append]
  rfl

theorem mem_keep {kept : List α} {y : α} (member : y ∈ keep covers kept x) :
    y ∈ kept ∨ y = x := by
  simp only [keep] at member
  split_ifs at member with covered
  · exact Or.inl member
  · simpa using member

theorem mem_keep_of_mem {kept : List α} {y : α} (member : y ∈ kept) (x : α) :
    y ∈ keep covers kept x := by
  simp only [keep]
  split_ifs with covered
  · exact member
  · exact List.mem_append_left _ member

theorem mem_of_mem_thin (member : x ∈ thin covers xs) : x ∈ xs := by
  induction xs using List.reverseRecOn with
  | nil => exact member
  | append_singleton xs y ih =>
    rw [thin_concat] at member
    rcases mem_keep member with old | rfl
    · exact List.mem_append_left _ (ih old)
    · exact List.mem_append_right _ List.mem_cons_self

theorem mem_thin_append (member : x ∈ thin covers xs) (ys : List α) :
    x ∈ thin covers (xs ++ ys) := by
  induction ys using List.reverseRecOn with
  | nil => rwa [List.append_nil]
  | append_singleton ys y ih =>
    rw [← List.append_assoc, thin_concat]
    exact mem_keep_of_mem ih y

theorem not_mem_thin_append {y : α} (absent : x ∉ thin covers xs) (kept : y ∈ thin covers xs)
    (covered : covers y x = true) (ys : List α) : x ∉ thin covers (xs ++ ys) := by
  induction ys using List.reverseRecOn with
  | nil => rwa [List.append_nil]
  | append_singleton ys z ih =>
    rw [← List.append_assoc, thin_concat, keep]
    split_ifs with left_out
    · exact ih
    · intro member
      rcases List.mem_append.mp member with old | last
      · exact ih old
      · obtain rfl := List.mem_singleton.mp last
        exact left_out (List.any_eq_true.mpr ⟨y, mem_thin_append kept ys, covered⟩)

theorem mem_thin_concat (uncovered : ∀ y ∈ xs, covers y x = false) :
    x ∈ thin covers (xs ++ [x]) := by
  have kept : ¬(thin covers xs).any (covers · x) = true := by
    rw [List.any_eq_true]
    rintro ⟨y, member, covered⟩
    exact Bool.false_ne_true ((uncovered y (mem_of_mem_thin member)).symm.trans covered)
  rw [thin_concat, keep, if_neg kept]
  exact List.mem_append_right _ List.mem_cons_self

section

variable (reflexive : ∀ x, covers x x = true)
include reflexive

theorem covered_by_thin (member : x ∈ xs) : ∃ y ∈ thin covers xs, covers y x = true := by
  induction xs using List.reverseRecOn with
  | nil => cases member
  | append_singleton xs z ih =>
    rcases List.mem_append.mp member with old | last
    · obtain ⟨y, kept, covered⟩ := ih old
      exact ⟨y, mem_thin_append kept [z], covered⟩
    · obtain rfl := List.mem_singleton.mp last
      rw [thin_concat, keep]
      split_ifs with covered
      · exact List.any_eq_true.mp covered
      · exact ⟨x, List.mem_append_right _ List.mem_cons_self, reflexive x⟩

theorem thin_nodup (xs : List α) : (thin covers xs).Nodup := by
  induction xs using List.reverseRecOn with
  | nil => exact List.nodup_nil
  | append_singleton xs x ih =>
    rw [thin_concat, keep]
    split_ifs with covered
    · exact ih
    · rw [← List.concat_eq_append]
      refine ih.concat fun kept => covered ?_
      exact List.any_eq_true.mpr ⟨x, kept, reflexive x⟩

theorem mem_thin_of_append {ys : List α} (early : x ∈ xs) (late : x ∈ thin covers (xs ++ ys)) :
    x ∈ thin covers xs := by
  by_contra absent
  obtain ⟨y, kept, covered⟩ := covered_by_thin reflexive early
  exact not_mem_thin_append absent kept covered ys late

end

section

variable [LinearOrder κ]

/-- Every item that another one covers stands before that one, too. -/
def CoveredFirst (covers : α → α → Bool) (item : κ → α) (keys : List κ) : Prop :=
  ∀ k ∈ keys, ∀ k' ∈ keys, item k ≠ item k' → covers (item k') (item k) = true →
    ∃ k'' ∈ keys, item k'' = item k ∧ k'' < k'

variable {item : κ → α} {keys : List κ}

private theorem coveredFirst_of_complete (reflexive : ∀ x, covers x x = true)
    (sorted : keys.Pairwise (· < ·))
    (complete : ∀ k ∈ keys, item k ∈ thin covers (keys.map item)) :
    CoveredFirst covers item keys := by
  intro k member k' member' different covered
  obtain ⟨before, behind, rfl⟩ := List.append_of_mem member'
  have above := (List.pairwise_append.mp sorted).2.2
  have split : (before ++ k' :: behind).map item =
      (before ++ [k']).map item ++ behind.map item := by simp
  rw [split] at complete
  by_contra late
  have absent : item k ∉ (before ++ [k']).map item := by
    rw [List.map_append, List.mem_append, List.mem_map]
    rintro (⟨k'', early, same⟩ | last)
    · exact late ⟨k'', List.mem_append_left _ early, same, above k'' early k' List.mem_cons_self⟩
    · exact different (List.mem_singleton.mp last)
  have kept : item k' ∈ thin covers ((before ++ [k']).map item) :=
    mem_thin_of_append reflexive (by simp) (complete k' member')
  exact not_mem_thin_append (fun inside => absent (mem_of_mem_thin inside)) kept covered _
    (complete k member)

private theorem CoveredFirst.init {m : κ} (first : CoveredFirst covers item (keys ++ [m]))
    (below : ∀ k ∈ keys, k < m) : CoveredFirst covers item keys := by
  intro k member k' member' different covered
  obtain ⟨k'', inside, same, less⟩ := first k (List.mem_append_left _ member) k'
    (List.mem_append_left _ member') different covered
  rcases List.mem_append.mp inside with old | last
  · exact ⟨k'', old, same, less⟩
  · obtain rfl := List.mem_singleton.mp last
    exact absurd less (lt_asymm (below k' member'))

private theorem complete_of_coveredFirst (sorted : keys.Pairwise (· < ·))
    (first : CoveredFirst covers item keys) :
    ∀ k ∈ keys, item k ∈ thin covers (keys.map item) := by
  induction keys using List.reverseRecOn with
  | nil => simp
  | append_singleton keys m ih =>
    obtain ⟨sorted, -, above⟩ := List.pairwise_append.mp sorted
    have below : ∀ k ∈ keys, k < m := fun k member => above k member m List.mem_cons_self
    have complete := ih sorted (first.init below)
    intro k member
    rw [List.map_append, List.map_singleton]
    rcases List.mem_append.mp member with old | last
    · exact mem_thin_append (complete k old) _
    · obtain rfl := List.mem_singleton.mp last
      by_cases early : ∃ k' ∈ keys, item k' = item k
      · obtain ⟨k', inside, same⟩ := early
        exact same ▸ mem_thin_append (complete k' inside) _
      · apply mem_thin_concat
        intro y member_map
        obtain ⟨k', inside, rfl⟩ := List.mem_map.mp member_map
        by_contra covered
        -- a first occurrence of the item before k' would be an earlier one
        obtain ⟨k'', there, same, less⟩ := first k member k' (List.mem_append_left _ inside)
          (fun same => early ⟨k', inside, same.symm⟩) ((Bool.not_eq_false _).mp covered)
        rcases List.mem_append.mp there with old | last
        · exact early ⟨k'', old, same⟩
        · obtain rfl := List.mem_singleton.mp last
          exact absurd less (lt_asymm (below k' inside))

/-- All items are kept exactly if those that others cover come first. -/
theorem thin_complete_iff (reflexive : ∀ x, covers x x = true) (sorted : keys.Pairwise (· < ·)) :
    (∀ k ∈ keys, item k ∈ thin covers (keys.map item)) ↔ CoveredFirst covers item keys :=
  ⟨coveredFirst_of_complete reflexive sorted, complete_of_coveredFirst sorted⟩

end

end KDESu.Library.Thinning
