/- KDESu/ByteArrays
   digest: QByteArray values, the character classes of ctype, and decimal numerals. -/

import Mathlib.Data.List.Lex
import Mathlib.Data.List.TakeWhile
import Mathlib.Data.Nat.Digits.Lemmas

set_option autoImplicit false
set_option relaxedAutoImplicit false

namespace KDESu.ByteArrays

/-- The contents of a QByteArray: any bytes, NUL included. -/
abbrev Bytes := List UInt8

/-- A QByteArray where null and empty differ; `none` is the null array. -/
abbrev QByteArray := Option Bytes

def ascii (s : String) : Bytes := s.toList.map (fun c => UInt8.ofNat c.toNat)

/-- QByteArray orders by memcmp, that is by unsigned bytes. -/
instance byteOrder : LinearOrder UInt8 where
  le_refl := UInt8.le_refl
  le_trans _ _ _ := UInt8.le_trans
  le_antisymm _ _ := UInt8.le_antisymm
  le_total := UInt8.le_total
  lt_iff_le_not_ge a b := by
    rw [UInt8.not_le]
    exact ⟨fun h => ⟨UInt8.le_of_lt h, h⟩, fun h => h.2⟩
  toDecidableLE := inferInstance
  toDecidableEq := inferInstance
  toDecidableLT := inferInstance

abbrev newline : UInt8 := 10
abbrev blank : UInt8 := 32
abbrev quote : UInt8 := 34
abbrev asterisk : UInt8 := 42
abbrev minus : UInt8 := 45
abbrev backslash : UInt8 := 92
abbrev caret : UInt8 := 94

def iscntrl (c : UInt8) : Bool := c < 32 || c == 127
def isspace (c : UInt8) : Bool := c == 32 || (9 ≤ c && c ≤ 13)
def isdigit (c : UInt8) : Bool := 48 ≤ c && c ≤ 57

namespace QByteArray

def data (s : QByteArray) : Bytes := s.getD []

def isNull (s : QByteArray) : Bool := s.isNone

/-- `operator==` compares contents, so a null array equals an empty one. -/
def eq (s t : QByteArray) : Bool := s.data == t.data

@[simp] theorem data_none : data none = [] := rfl
@[simp] theorem data_some (s : Bytes) : data (some s) = s := rfl
@[simp] theorem eq_iff (s t : QByteArray) : eq s t = true ↔ s.data = t.data := by simp [eq]

end QByteArray

def indexOf (needle : Bytes) : Bytes → Option Nat
  | [] => if needle = [] then some 0 else none
  | c :: s => if needle <+: c :: s then some 0 else (indexOf needle s).map (· + 1)

def lastIndexOf (needle : Bytes) : Bytes → Option Nat
  | [] => if needle = [] then some 0 else none
  | c :: s =>
      match lastIndexOf needle s with
      | some i => some (i + 1)
      | none => if needle <+: c :: s then some 0 else none

def contains (s needle : Bytes) : Bool := (indexOf needle s).isSome

theorem indexOf_eq_zero (needle s : Bytes) : indexOf needle s = some 0 ↔ needle <+: s := by
  cases s with
  | nil => simp [indexOf]
  | cons c s =>
    simp only [indexOf]
    split_ifs with here
    · simp [here]
    · simp [here]

theorem indexOf_isSome (needle s : Bytes) : (indexOf needle s).isSome ↔ needle <:+: s := by
  induction s with
  | nil => by_cases empty : needle = [] <;> simp [indexOf, empty]
  | cons c s ih =>
    simp only [indexOf]
    split_ifs with here
    · simp [here.isInfix]
    · rw [Option.isSome_map, ih, List.infix_cons_iff]
      simp [here]

theorem contains_iff (s needle : Bytes) : contains s needle = true ↔ needle <:+: s :=
  indexOf_isSome needle s

private theorem lastIndexOf_of_not_mem {c : UInt8} {s : Bytes} (free : c ∉ s) :
    lastIndexOf [c] s = none := by
  induction s with
  | nil => rfl
  | cons d s ih =>
    obtain ⟨other, rest⟩ := not_or.mp (List.mem_cons.not.mp free)
    simp [lastIndexOf, ih rest, other]

theorem lastIndexOf_of_free {c : UInt8} {q : Bytes} (free : c ∉ q) (p : Bytes) :
    lastIndexOf [c] (p ++ c :: q) = some p.length := by
  induction p with
  | nil => simp [lastIndexOf, lastIndexOf_of_not_mem free]
  | cons d p ih => simp [lastIndexOf, ih]

theorem idxOf_of_free {c : UInt8} {p : Bytes} (free : c ∉ p) (q : Bytes) :
    (p ++ c :: q).idxOf? c = some p.length := by
  induction p with
  | nil => simp [List.idxOf?_cons]
  | cons d p ih =>
    have other : d ≠ c := by
      rintro rfl
      exact free List.mem_cons_self
    have tail := ih (fun member => free (List.mem_cons_of_mem d member))
    rw [List.cons_append, List.idxOf?_cons, tail]
    simp [other]

theorem idxOf_newline {p : Bytes} (free : newline ∉ p) (q : Bytes) :
    (p ++ newline :: q).idxOf? newline = some p.length := idxOf_of_free free q

/-- What an int keeps of a number: a sum that overflows wraps. -/
def narrowed (n : Int) : Int := (n + 2 ^ 31) % 2 ^ 32 - 2 ^ 31

theorem narrowed_of_fits {n : Int} (low : -2 ^ 31 ≤ n) (high : n < 2 ^ 31) : narrowed n = n := by
  rw [narrowed, Int.emod_eq_of_lt (by omega) (by omega)]
  omega

theorem narrowed_bounds (n : Int) : -2 ^ 31 ≤ narrowed n ∧ narrowed n < 2 ^ 31 := by
  rw [narrowed]
  omega

/-- `int pos = s.indexOf('\n')`. -/
def newlineAt (s : Bytes) : Int := (s.idxOf? newline).elim (-1) fun pos => narrowed pos

theorem newlineAt_bounds (s : Bytes) : -2 ^ 31 ≤ newlineAt s ∧ newlineAt s < 2 ^ 31 := by
  rw [newlineAt]
  cases s.idxOf? newline with
  | none =>
    rw [Option.elim_none]
    omega
  | some pos =>
    rw [Option.elim_some]
    exact narrowed_bounds pos

theorem newlineAt_of_free {s : Bytes} (free : newline ∉ s) : newlineAt s = -1 := by
  rw [newlineAt, List.idxOf?_eq_none_iff.mpr free, Option.elim_none]

theorem newlineAt_of_line {line : Bytes} (free : newline ∉ line) (later : Bytes) :
    newlineAt (line ++ newline :: later) = narrowed line.length := by
  rw [newlineAt, idxOf_newline free, Option.elim_some]

def decimal (n : Nat) : Bytes :=
  if n = 0 then [48] else (Nat.digits 10 n).reverse.map (fun d => UInt8.ofNat (48 + d))

def setNum (n : Int) : Bytes :=
  if n < 0 then minus :: decimal n.natAbs else decimal n.toNat

def numeral (s : Bytes) : Nat := Nat.ofDigits 10 (s.reverse.map (fun c => c.toNat - 48))

/-- `QByteArray::toInt` on the digit strings the lexer delivers: 0 when an int cannot hold
the number. -/
def toInt (s : Bytes) : Int := if numeral s < 2 ^ 31 then numeral s else 0

private theorem digit_toNat {d : Nat} (small : d < 10) :
    (UInt8.ofNat (48 + d)).toNat = 48 + d := by
  simp only [UInt8.toNat_ofNat']
  omega

private theorem digit_isdigit {d : Nat} (small : d < 10) :
    isdigit (UInt8.ofNat (48 + d)) = true := by
  have value := digit_toNat small
  simp only [isdigit, Bool.and_eq_true, decide_eq_true_eq, UInt8.le_iff_toNat_le, value]
  simp only [UInt8.reduceToNat]
  omega

theorem decimal_isdigit (n : Nat) : ∀ c ∈ decimal n, isdigit c = true := by
  intro c member
  simp only [decimal] at member
  split_ifs at member with zero
  · obtain rfl := List.mem_singleton.mp member
    rfl
  · obtain ⟨d, inside, rfl⟩ := List.mem_map.mp member
    exact digit_isdigit (Nat.digits_lt_base (by omega) (List.mem_reverse.mp inside))

theorem decimal_ne_nil (n : Nat) : decimal n ≠ [] := by
  simp only [decimal]
  split_ifs with zero
  · simp
  · simpa using Nat.digits_ne_nil_iff_ne_zero.mpr zero

theorem numeral_decimal (n : Nat) : numeral (decimal n) = n := by
  simp only [decimal, numeral]
  split_ifs with zero
  · subst zero
    rfl
  · have digits : (Nat.digits 10 n).map (fun d => (UInt8.ofNat (48 + d)).toNat - 48) =
        Nat.digits 10 n := by
      refine (List.map_congr_left ?_).trans (List.map_id _)
      intro d member
      rw [digit_toNat (Nat.digits_lt_base (by omega) member)]
      exact Nat.add_sub_cancel_left 48 d
    simp only [← List.map_reverse, List.reverse_reverse, List.map_map, Function.comp_def]
    rw [digits, Nat.ofDigits_digits]

theorem toInt_decimal {n : Nat} (small : n < 2 ^ 31) : toInt (decimal n) = n := by
  rw [toInt, numeral_decimal, if_pos small]

theorem toInt_nonneg (s : Bytes) : 0 ≤ toInt s := by
  simp only [toInt]
  split_ifs <;> omega

theorem toInt_lt (s : Bytes) : toInt s < 2 ^ 31 := by
  simp only [toInt]
  split_ifs <;> omega

end KDESu.ByteArrays
