/- KDESu/Library/CheckedMemory
   digest: Blocks of memory that refuse an access outside, and the C strings in them. -/

import Mathlib.Data.List.TakeWhile

set_option autoImplicit false
set_option relaxedAutoImplicit false

namespace KDESu.Library.CheckedMemory

variable {α : Type}

def read (m : List α) (i : Int) : Option α := if 0 ≤ i then m[i.toNat]? else none

def write (m : List α) (i : Int) (a : α) : Option (List α) :=
  if 0 ≤ i ∧ i < m.length then some (m.set i.toNat a) else none

theorem read_of_neg {i : Int} (negative : i < 0) (m : List α) : read m i = none :=
  if_neg (Int.not_le.mpr negative)

theorem read_append (front rest : List α) (a : α) :
    read (front ++ a :: rest) front.length = some a := by
  rw [read, if_pos (Int.natCast_nonneg _), Int.toNat_natCast,
    List.getElem?_append_right (Nat.le_refl _), Nat.sub_self, List.getElem?_cons_zero]

theorem write_append (front rest : List α) (a b : α) :
    write (front ++ a :: rest) front.length b = some (front ++ b :: rest) := by
  have inside : (0 : Int) ≤ front.length ∧ (front.length : Int) < (front ++ a :: rest).length := by
    rw [List.length_append, List.length_cons]
    omega
  rw [write, if_pos inside, Int.toNat_natCast, List.set_append_right _ _ (Nat.le_refl _),
    Nat.sub_self, List.set_cons_zero]

section

variable [DecidableEq α] (nul : α)

/-- The index of the terminator from `i` on; no more than `fuel` elements are looked at. -/
def lengthFrom (m : List α) : Nat → Nat → Option Nat
  | 0, _ => none
  | fuel + 1, i =>
      (read m i).bind fun a => if a = nul then some i else lengthFrom m fuel (i + 1)

def strlen (m : List α) : Option Nat := lengthFrom nul m (m.length + 1) 0

/-- The elements from `i` on are copied to the same indexes, and the terminator is the last. -/
def copyFrom (src : List α) : Nat → Nat → List α → Option (List α)
  | 0, _, _ => none
  | fuel + 1, i, dst =>
      (read src i).bind fun a =>
        (write dst i a).bind fun dst =>
          if a = nul then some dst else copyFrom src fuel (i + 1) dst

def strcpy (dst src : List α) : Option (List α) := copyFrom nul src (src.length + 1) 0 dst

/-- The index of an element from `i` on, if it comes before the terminator. -/
def findFrom (m : List α) (a : α) : Nat → Nat → Option (Option Nat)
  | 0, _ => none
  | fuel + 1, i =>
      (read m i).bind fun b =>
        if b = a then some (some i) else if b = nul then some none else findFrom m a fuel (i + 1)

def strchr (m : List α) (i : Nat) (a : α) : Option (Option Nat) :=
  findFrom nul m a (m.length + 1) i

variable {nul} {s : List α}

private theorem lengthFrom_append (front rest : List α) (free : nul ∉ s) {fuel : Nat}
    (enough : s.length < fuel) :
    lengthFrom nul (front ++ (s ++ nul :: rest)) fuel front.length =
      some (front.length + s.length) := by
  induction s generalizing front fuel with
  | nil =>
    obtain ⟨fuel, rfl⟩ := Nat.exists_eq_succ_of_ne_zero (Nat.ne_of_gt enough)
    rw [lengthFrom, List.nil_append, read_append, Option.bind_some, if_pos rfl]
    rfl
  | cons a s ih =>
    obtain ⟨fuel, rfl⟩ := Nat.exists_eq_succ_of_ne_zero (Nat.ne_of_gt (Nat.zero_lt_of_lt enough))
    have other : a ≠ nul := by
      rintro rfl
      exact free List.mem_cons_self
    have later := ih (front ++ [a]) (fun member => free (List.mem_cons_of_mem a member))
      (Nat.lt_of_succ_lt_succ enough)
    rw [List.append_assoc, List.singleton_append, List.length_append,
      List.length_singleton] at later
    rw [lengthFrom, List.cons_append, read_append, Option.bind_some, if_neg other, later,
      List.length_cons]
    congr 1
    omega

theorem strlen_append (free : nul ∉ s) (rest : List α) :
    strlen nul (s ++ nul :: rest) = some s.length := by
  have enough : s.length < (s ++ nul :: rest).length + 1 := by
    rw [List.length_append]
    omega
  rw [strlen]
  exact (lengthFrom_append [] rest free enough).trans (congrArg some (Nat.zero_add _))

private theorem copyFrom_append (front rest : List α) (free : nul ∉ s) {fuel : Nat}
    (enough : s.length < fuel) {front' old : List α} (aligned : front'.length = front.length)
    (room : s.length < old.length) :
    copyFrom nul (front ++ (s ++ nul :: rest)) fuel front.length (front' ++ old) =
      some (front' ++ (s ++ nul :: old.drop (s.length + 1))) := by
  induction s generalizing front front' old fuel with
  | nil =>
    obtain ⟨fuel, rfl⟩ := Nat.exists_eq_succ_of_ne_zero (Nat.ne_of_gt enough)
    obtain ⟨b, old, rfl⟩ := List.exists_cons_of_length_pos room
    rw [copyFrom, List.nil_append, read_append, Option.bind_some, ← aligned, write_append,
      Option.bind_some, if_pos rfl]
    rfl
  | cons a s ih =>
    obtain ⟨fuel, rfl⟩ := Nat.exists_eq_succ_of_ne_zero (Nat.ne_of_gt (Nat.zero_lt_of_lt enough))
    obtain ⟨b, old, rfl⟩ := List.exists_cons_of_length_pos (Nat.zero_lt_of_lt room)
    have other : a ≠ nul := by
      rintro rfl
      exact free List.mem_cons_self
    have aligned' : (front' ++ [a]).length = (front ++ [a]).length := by
      rw [List.length_append, List.length_append, aligned]
    have later := ih (front ++ [a]) (fun member => free (List.mem_cons_of_mem a member))
      (Nat.lt_of_succ_lt_succ enough) aligned' (Nat.lt_of_succ_lt_succ room)
    simp only [List.append_assoc, List.singleton_append, List.length_append,
      List.length_singleton] at later
    rw [copyFrom, List.cons_append, read_append, Option.bind_some, ← aligned, write_append,
      Option.bind_some, if_neg other, aligned, later]
    rfl

theorem strcpy_append (free : nul ∉ s) (rest : List α) {dst : List α}
    (room : s.length < dst.length) :
    strcpy nul dst (s ++ nul :: rest) = some (s ++ nul :: dst.drop (s.length + 1)) := by
  have enough : s.length < (s ++ nul :: rest).length + 1 := by
    rw [List.length_append]
    omega
  exact copyFrom_append [] rest free enough rfl room

private theorem copyFrom_short (front rest : List α) (free : nul ∉ s) (fuel : Nat)
    {front' old : List α} (aligned : front'.length = front.length) (short : old.length ≤ s.length) :
    copyFrom nul (front ++ (s ++ nul :: rest)) fuel front.length (front' ++ old) = none := by
  induction old generalizing s front front' fuel with
  | nil =>
    cases fuel with
    | zero => rfl
    | succ fuel =>
      have outside : ∀ a, write (front' ++ []) (front.length : Int) a = none := by
        intro a
        refine if_neg fun inside => ?_
        rw [List.append_nil, aligned] at inside
        omega
      simp only [copyFrom, outside, Option.bind_none, Option.bind_fun_none]
  | cons b old ih =>
    cases fuel with
    | zero => rfl
    | succ fuel =>
      obtain ⟨a, s, rfl⟩ := List.exists_cons_of_length_pos (Nat.lt_of_lt_of_le (by simp) short)
      obtain ⟨other, free⟩ := not_or.mp (List.mem_cons.not.mp free)
      have aligned' : (front' ++ [a]).length = (front ++ [a]).length := by
        rw [List.length_append, List.length_append, aligned]
      have later := ih (front ++ [a]) free fuel aligned' (Nat.le_of_succ_le_succ short)
      simp only [List.append_assoc, List.singleton_append, List.length_append,
        List.length_singleton] at later
      rw [copyFrom, List.cons_append, read_append, Option.bind_some, ← aligned, write_append,
        Option.bind_some, if_neg (Ne.symm other), aligned, later]

theorem strcpy_short (free : nul ∉ s) (rest : List α) {dst : List α}
    (short : dst.length ≤ s.length) : strcpy nul dst (s ++ nul :: rest) = none :=
  copyFrom_short [] rest free _ rfl short

private theorem findFrom_append (front rest : List α) {a b : α} (absent : a ∉ s) (free : nul ∉ s)
    (ends : b = a ∨ b = nul) {fuel : Nat} (enough : s.length < fuel) :
    findFrom nul (front ++ (s ++ b :: rest)) a fuel front.length =
      some (if b = a then some (front.length + s.length) else none) := by
  induction s generalizing front fuel with
  | nil =>
    obtain ⟨fuel, rfl⟩ := Nat.exists_eq_succ_of_ne_zero (Nat.ne_of_gt enough)
    rw [findFrom, List.nil_append, read_append, Option.bind_some]
    by_cases here : b = a
    · rw [if_pos here, if_pos here]
      rfl
    · rw [if_neg here, if_neg here, if_pos (ends.resolve_left here)]
  | cons c s ih =>
    obtain ⟨fuel, rfl⟩ := Nat.exists_eq_succ_of_ne_zero (Nat.ne_of_gt (Nat.zero_lt_of_lt enough))
    obtain ⟨other, absent⟩ := not_or.mp (List.mem_cons.not.mp absent)
    obtain ⟨inner, free⟩ := not_or.mp (List.mem_cons.not.mp free)
    have later := ih (front ++ [c]) absent free (Nat.lt_of_succ_lt_succ enough)
    rw [List.append_assoc, List.singleton_append, List.length_append,
      List.length_singleton] at later
    rw [findFrom, List.cons_append, read_append, Option.bind_some, if_neg (Ne.symm other),
      if_neg (Ne.symm inner), later, List.length_cons, Nat.add_assoc, Nat.add_comm 1]

theorem strchr_found (front rest : List α) {a : α} (absent : a ∉ s) (free : nul ∉ s) :
    strchr nul (front ++ (s ++ a :: rest)) front.length a =
      some (some (front.length + s.length)) := by
  have enough : s.length < (front ++ (s ++ a :: rest)).length + 1 := by
    rw [List.length_append, List.length_append]
    omega
  rw [strchr, findFrom_append front rest absent free (Or.inl rfl) enough, if_pos rfl]

theorem strchr_missing (front rest : List α) {a : α} (absent : a ∉ s) (free : nul ∉ s)
    (other : nul ≠ a) :
    strchr nul (front ++ (s ++ nul :: rest)) front.length a = some none := by
  have enough : s.length < (front ++ (s ++ nul :: rest)).length + 1 := by
    rw [List.length_append, List.length_append]
    omega
  rw [strchr, findFrom_append front rest absent free (Or.inr rfl) enough, if_neg other]

end

end KDESu.Library.CheckedMemory
