/- KDESu/Library/SelfPipe
   digest: A process that a signal and a pipe of its own tell of what has finished. -/

import KDESu.Library.Histories
import Mathlib.Data.List.Perm.Basic

set_option autoImplicit false
set_option relaxedAutoImplicit false

namespace KDESu.Library.SelfPipe

open KDESu.Library.Histories

variable {α : Type}

/-- What has finished and is not collected, whether the signal for it is pending, the bytes that
its handler wrote, and whether the process is collecting. -/
structure Notices (α : Type) where
  waiting : List α
  signal : Bool
  pipe : Nat
  collecting : Bool
  deriving DecidableEq

def Notices.new : Notices α := ⟨[], false, 0, false⟩

/-- Something finishes; the signal is delivered; the process reads up to a number of bytes and
begins to collect, collects one that waits, or finds none that waits. -/
inductive Notice (α : Type)
  | finish (a : α)
  | deliver
  | read (most : Nat)
  | collect (n : Nat)
  | done

inductive Note (α : Type)
  | finished (a : α)
  | collected (a : α)
  deriving DecidableEq

namespace Notices

/-- Signals of one kind do not add up, and a read of an empty pipe blocks. -/
def step (s : Notices α) : Notice α → Notices α × List (Note α)
  | .finish a => ({ s with waiting := s.waiting ++ [a], signal := true }, [.finished a])
  | .deliver => if s.signal then ({ s with signal := false, pipe := s.pipe + 1 }, []) else (s, [])
  | .read most =>
      if 0 < s.pipe then ({ s with pipe := s.pipe - most, collecting := true }, []) else (s, [])
  | .collect n =>
      if s.collecting then
        match s.waiting[n]? with
        | some a => ({ s with waiting := s.waiting.eraseIdx n }, [.collected a])
        | none => (s, [])
      else (s, [])
  | .done =>
      if s.collecting ∧ s.waiting.length = 0 then ({ s with collecting := false }, [])
      else (s, [])

end Notices

def finishedOf (notes : List (Note α)) : List α :=
  notes.filterMap fun
    | .finished a => some a
    | .collected _ => none

def collectedOf (notes : List (Note α)) : List α :=
  notes.filterMap fun
    | .finished _ => none
    | .collected a => some a

@[simp] theorem finishedOf_append (notes notes' : List (Note α)) :
    finishedOf (notes ++ notes') = finishedOf notes ++ finishedOf notes' :=
  List.filterMap_append

@[simp] theorem collectedOf_append (notes notes' : List (Note α)) :
    collectedOf (notes ++ notes') = collectedOf notes ++ collectedOf notes' :=
  List.filterMap_append

/-- What holds between the notices and what was to be seen of them. -/
structure Accounted (notes : List (Note α)) (s : Notices α) : Prop where
  conserved : (finishedOf notes).Perm (collectedOf notes ++ s.waiting)
  awake : s.waiting ≠ [] → s.signal = true ∨ 0 < s.pipe ∨ s.collecting = true
  bytes : s.pipe + s.signal.toNat ≤ (finishedOf notes).length

theorem accounted_new : Accounted [] (Notices.new (α := α)) :=
  ⟨.nil, fun more => absurd rfl more, Nat.le_refl 0⟩

private theorem perm_collected {a : α} {collected waiting : List α} {n : Nat}
    (there : waiting[n]? = some a) :
    (collected ++ waiting).Perm (collected ++ [a] ++ waiting.eraseIdx n) := by
  obtain ⟨inside, rfl⟩ := List.getElem?_eq_some_iff.mp there
  rw [List.append_assoc, List.singleton_append]
  exact List.Perm.append_left collected (List.getElem_cons_eraseIdx_perm inside).symm

theorem Accounted.step {notes : List (Note α)} {s : Notices α} (accounted : Accounted notes s)
    (notice : Notice α) : Accounted (notes ++ (s.step notice).2) (s.step notice).1 := by
  obtain ⟨conserved, awake, bytes⟩ := accounted
  have same : Accounted (notes ++ []) s := by
    rw [List.append_nil]
    exact ⟨conserved, awake, bytes⟩
  cases notice with
  | finish a =>
    refine ⟨?_, fun _ => Or.inl rfl, ?_⟩
    · rw [finishedOf_append, collectedOf_append]
      simpa [Notices.step, finishedOf, collectedOf, List.append_assoc] using
        conserved.append_right [a]
    · rw [finishedOf_append, List.length_append]
      have one : s.pipe + 1 ≤ (finishedOf notes).length + 1 := by omega
      exact one
  | deliver =>
    simp only [Notices.step]
    split_ifs with pending
    · rw [List.append_nil]
      refine ⟨conserved, fun _ => Or.inr (Or.inl (Nat.succ_pos s.pipe)), ?_⟩
      rw [pending] at bytes
      exact bytes
    · exact same
  | read most =>
    simp only [Notices.step]
    split_ifs
    · rw [List.append_nil]
      exact ⟨conserved, fun _ => Or.inr (Or.inr rfl), by simp only; omega⟩
    · exact same
  | collect n =>
    simp only [Notices.step]
    split_ifs with collecting
    · cases there : s.waiting[n]? with
      | none => exact same
      | some a =>
        refine ⟨?_, fun _ => Or.inr (Or.inr collecting), ?_⟩
        · rw [finishedOf_append, collectedOf_append]
          simpa [finishedOf, collectedOf] using conserved.trans (perm_collected there)
        · rw [finishedOf_append]
          simpa [finishedOf] using bytes
    · exact same
  | done =>
    simp only [Notices.step]
    split_ifs with none_left
    · rw [List.append_nil]
      exact ⟨conserved, fun more => absurd (List.length_eq_zero_iff.mp none_left.2) more, bytes⟩
    · exact same

end KDESu.Library.SelfPipe
