/- KDESu/Library/DescriptorTables
   digest: Tables of open descriptors under dup2, close and the execution of a program. -/

import Mathlib.Logic.Function.Basic
import Mathlib.Tactic.SplitIfs

set_option autoImplicit false
set_option relaxedAutoImplicit false

namespace KDESu.Library.DescriptorTables

variable {φ : Type}

/-- An open descriptor: its file, and whether the execution of a program closes it. -/
structure Entry (φ : Type) where
  file : φ
  closesOnExec : Bool
  deriving DecidableEq, Repr

abbrev Table (φ : Type) := Nat → Option (Entry φ)

/-- A copy outlives the execution of a program; nothing happens to a descriptor that is its own. -/
def dup2 (old new : Nat) (t : Table φ) : Table φ :=
  match t old with
  | none => t
  | some e => if old = new then t else Function.update t new (some ⟨e.file, false⟩)

def close (fd : Nat) (t : Table φ) : Table φ := Function.update t fd none

def closeFrom (first : Nat) : Nat → Table φ → Table φ
  | 0, t => t
  | n + 1, t => closeFrom (first + 1) n (close first t)

def exec (t : Table φ) : Table φ := fun fd => (t fd).filter (!·.closesOnExec)

theorem dup2_apply {old : Nat} {t : Table φ} {e : Entry φ} (opened : t old = some e)
    (new fd : Nat) :
    dup2 old new t fd = if fd = new ∧ fd ≠ old then some ⟨e.file, false⟩ else t fd := by
  simp only [dup2, opened]
  by_cases own : old = new
  · subst own
    rw [if_pos rfl, if_neg fun both => both.2 both.1]
  · rw [if_neg own, Function.update_apply]
    refine if_congr ⟨fun same => ⟨same, fun back => own (back.symm.trans same)⟩, And.left⟩ rfl rfl

theorem dup2_old {old : Nat} {t : Table φ} {e : Entry φ} (opened : t old = some e) (new : Nat) :
    dup2 old new t old = some e := by
  rw [dup2_apply opened, if_neg fun both => both.2 rfl, opened]

theorem closeFrom_apply (first n : Nat) (t : Table φ) (fd : Nat) :
    closeFrom first n t fd = if first ≤ fd ∧ fd < first + n then none else t fd := by
  induction n generalizing first t with
  | zero => exact (if_neg (by omega)).symm
  | succ n ih =>
    rw [closeFrom, ih, close, Function.update_apply]
    by_cases here : fd = first
    · rw [if_neg (by omega), if_pos here, if_pos (by omega)]
    · rw [if_neg here]
      exact if_congr (by omega) rfl rfl

theorem exec_eq_none_iff (t : Table φ) (fd : Nat) :
    exec t fd = none ↔ ∀ e, t fd = some e → e.closesOnExec = true := by
  simp [exec, Option.filter_eq_none_iff]

end KDESu.Library.DescriptorTables
