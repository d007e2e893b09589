/- KDESu/Stub/Splitting
   source: src/kdesu_stub.c
   digest: xstrsep on its list of pointers, and the strings at which it leaves it. -/

import KDESu.Library.Separators
import KDESu.Stub.Memory

set_option autoImplicit false
set_option relaxedAutoImplicit false

namespace KDESu.Stub.Splitting

open KDESu.ByteArrays
open KDESu.Library.CheckedMemory
open KDESu.Library.Separators
open KDESu.Process.Launching (constData constData_append_nul)
open KDESu.Stub.Memory (Stop)

abbrev comma : UInt8 := 44

/-- An entry of the list: null, or where in `str` its string starts. -/
abbrev Pointer := Option Nat

/-- `malloc` of so many pointers, which can be any at first. -/
structure PointerHeap where
  malloc : Nat → List Pointer
  size : ∀ n, (malloc n).length = n

def sizeofPointer : Nat := 8

def toInt32 (n : Nat) : Int :=
  if n % 2 ^ 32 < 2 ^ 31 then (n % 2 ^ 32 : Nat) else (n % 2 ^ 32 : Nat) - 2 ^ 32

/-- `realloc` of an int number of bytes: a negative one is more than there can be, and then the
program exits. -/
def xrealloc (heap : PointerHeap) (ptr : List Pointer) (size : Int) :
    Except Stop (List Pointer) :=
  if size < 0 then .error .exited
  else
    let n := size.toNat / sizeofPointer
    .ok (ptr.take n ++ (heap.malloc n).drop ptr.length)

structure Loop where
  str : Bytes
  list : List Pointer
  size : Nat
  i : Nat
  ptr : Nat

def inside {α : Type} : Option α → Except Stop α
  | none => .error .outside
  | some a => .ok a

namespace Loop

def grow (heap : PointerHeap) (s : Loop) : Except Stop Loop :=
  if (s.i : Int) > s.size - 2 then
    (xrealloc heap s.list (toInt32 (s.size * 2 * sizeofPointer))).map fun list =>
      { s with list := list, size := s.size * 2 }
  else .ok s

/-- What is done at a comma behind the string that starts at `ptr`. -/
def cut (heap : PointerHeap) (nptr : Nat) (s : Loop) : Except Stop Loop := do
  let s ← s.grow heap
  let str ← inside (write s.str nptr 0)
  let list ← inside (write s.list s.i (some s.ptr))
  return { s with str := str, list := list, i := s.i + 1, ptr := nptr + 1 }

def separate (heap : PointerHeap) : Nat → Loop → Except Stop Loop
  | 0, _ => .error .outside
  | fuel + 1, s =>
      match strchr 0 s.str s.ptr comma with
      | none => .error .outside
      | some none => .ok s
      | some (some nptr) => (s.cut heap nptr).bind (separate heap fuel)

def finish (s : Loop) : Except Stop (Bytes × List Pointer) := do
  let c ← inside (read s.str s.ptr)
  if c ≠ 0 then
    let list ← inside (write s.list s.i (some s.ptr))
    let list ← inside (write list (s.i + 1 : Nat) none)
    return (s.str, list)
  else
    let list ← inside (write s.list s.i none)
    return (s.str, list)

end Loop

/-- `xstrsep`: the string with its commas overwritten, and the list. -/
def xstrsep (heap : PointerHeap) (str : Bytes) : Except Stop (Bytes × List Pointer) :=
  ((⟨str, heap.malloc 10, 10, 0, 0⟩ : Loop).separate heap (str.length + 1)).bind
    Loop.finish

/-- The comma-separated fields, without a last one that is empty. -/
def fields (text : Bytes) : List Bytes :=
  let parts := text.splitOn comma
  if parts.getLast? = some [] then parts.dropLast else parts

def Holds (str : Bytes) (list : List Pointer) (strings : List Bytes) : Prop :=
  ∃ (ptrs : List Nat) (rest : List Pointer), list = ptrs.map some ++ none :: rest ∧
    ptrs.map (fun p => constData (str.drop p)) = strings

def terminated (strings : List Bytes) : Bytes := strings.flatMap (· ++ [0])

def starts : Nat → List Bytes → List Nat
  | _, [] => []
  | here, s :: strings => here :: starts (here + s.length + 1) strings

private theorem length_starts (here : Nat) (strings : List Bytes) :
    (starts here strings).length = strings.length := by
  induction strings generalizing here with
  | nil => rfl
  | cons s strings ih => exact congrArg (· + 1) (ih _)

private theorem starts_concat (here : Nat) (strings : List Bytes) (s : Bytes) :
    starts here (strings ++ [s]) = starts here strings ++ [here + (terminated strings).length] := by
  induction strings generalizing here with
  | nil => rfl
  | cons t strings ih =>
    have next : here + t.length + 1 + (terminated strings).length =
        here + (terminated (t :: strings)).length := by
      simp only [terminated, List.flatMap_cons, List.length_append, List.length_singleton]
      omega
    rw [List.cons_append, starts, ih, next]
    rfl

private theorem read_starts (before behind : Bytes) {strings : List Bytes}
    (free : ∀ s ∈ strings, (0 : UInt8) ∉ s) :
    (starts before.length strings).map
        (fun p => constData ((before ++ (terminated strings ++ behind)).drop p)) = strings := by
  induction strings generalizing before with
  | nil => rfl
  | cons s strings ih =>
    obtain ⟨plain, others⟩ := List.forall_mem_cons.mp free
    have shape : before ++ (terminated (s :: strings) ++ behind) =
        (before ++ (s ++ [0])) ++ (terminated strings ++ behind) := by
      simp only [terminated, List.flatMap_cons, List.append_assoc]
    have length : (before ++ (s ++ [0])).length = before.length + s.length + 1 := by
      simp only [List.length_append, List.length_singleton, Nat.add_assoc]
    have first : constData ((before ++ (terminated (s :: strings) ++ behind)).drop
        before.length) = s := by
      rw [List.drop_left, terminated, List.flatMap_cons, List.append_assoc, List.append_assoc]
      exact constData_append_nul plain _
    rw [starts, List.map_cons, first, shape, ← length, ih _ others]

/-- The sizes that the list goes through: the last entry is free, and after a growth the list is
half full. -/
def Room (size i : Nat) : Prop :=
  ∃ k ≤ 24, size = 10 * 2 ^ k ∧ i < size ∧ (k = 0 ∨ size ≤ 2 * i)

/-- The last size for which the next one is still an int number of bytes when doubled. -/
abbrev lastSize : Nat := 10 * 2 ^ 24

private theorem Room.le {size i : Nat} (room : Room size i) : size ≤ lastSize := by
  obtain ⟨k, small, rfl, -, -⟩ := room
  exact Nat.mul_le_mul_left 10 (Nat.pow_le_pow_right (by omega) small)

private theorem Room.full_iff {size i : Nat} (room : Room size i) :
    i + 1 = size ↔ ∃ k, i + 1 = 10 * 2 ^ k := by
  obtain ⟨k, small, rfl, below, half⟩ := room
  constructor
  · exact fun full => ⟨k, full⟩
  · rintro ⟨m, full⟩
    have upper : m ≤ k := by
      have power : 2 ^ m ≤ 2 ^ k := by omega
      exact (Nat.pow_le_pow_iff_right (by omega)).mp power
    have lower : k ≤ m := by
      rcases half with rfl | half
      · exact Nat.zero_le m
      · have power : 2 ^ k < 2 ^ (m + 1) := by
          rw [Nat.pow_succ]
          omega
        exact Nat.lt_succ_iff.mp ((Nat.pow_lt_pow_iff_right (by omega)).mp power)
    rw [full, Nat.le_antisymm upper lower]

private theorem xrealloc_half (heap : PointerHeap) {list : List Pointer} {k : Nat}
    (small : k < 24) (length : list.length = 10 * 2 ^ k) :
    ∃ new, xrealloc heap list (toInt32 (10 * 2 ^ k * 2 * sizeofPointer)) = .ok (list ++ new) ∧
      (list ++ new).length = 10 * 2 ^ k * 2 := by
  have power : 2 ^ k ≤ 2 ^ 23 := Nat.pow_le_pow_right (by omega) (by omega)
  have fits : toInt32 (10 * 2 ^ k * 2 * sizeofPointer) = (10 * 2 ^ k * 2 * 8 : Nat) := by
    rw [toInt32, sizeofPointer, Nat.mod_eq_of_lt (by omega), if_pos (by omega)]
  have kept : list.take (10 * 2 ^ k * 2) = list := List.take_of_length_le (by omega)
  refine ⟨(heap.malloc (10 * 2 ^ k * 2)).drop list.length, ?_, ?_⟩
  · rw [xrealloc, fits, if_neg (by omega), Int.toNat_natCast, sizeofPointer,
      Nat.mul_div_cancel _ (by omega)]
    simp only [kept]
  · rw [List.length_append, List.length_drop, heap.size]
    omega

private theorem xrealloc_last (heap : PointerHeap) (list : List Pointer) :
    xrealloc heap list (toInt32 (lastSize * 2 * sizeofPointer)) = .error .exited := by
  rw [xrealloc, if_pos (by decide)]

/-- These strings have been cut off, and this text is left. -/
structure Sound (strings : List Bytes) (text behind : Bytes) (s : Loop) : Prop where
  str : s.str = terminated strings ++ (text ++ 0 :: behind)
  ptr : s.ptr = (terminated strings).length
  count : s.i = strings.length
  list : (starts 0 strings).map some <+: s.list
  size : s.list.length = s.size
  room : Room s.size s.i

section

variable {strings : List Bytes} {text behind : Bytes} {s : Loop}

private theorem Sound.front (sound : Sound strings text behind s) :
    ((starts 0 strings).map some : List Pointer).length = s.i := by
  rw [List.length_map, length_starts, sound.count]

private theorem Sound.next (sound : Sound strings text behind s) :
    ∃ slot rest, s.list = (starts 0 strings).map some ++ slot :: rest := by
  obtain ⟨old, list⟩ := sound.list
  obtain ⟨k, -, -, inner, -⟩ := sound.room
  have longer : s.i < s.list.length := sound.size ▸ inner
  rw [← list, List.length_append, sound.front] at longer
  obtain ⟨slot, rest, rfl⟩ := List.exists_cons_of_length_pos (show 0 < old.length by omega)
  exact ⟨slot, rest, list.symm⟩

end

section

variable (heap : PointerHeap) {strings : List Bytes} {text behind : Bytes} {s : Loop}

private theorem grow_room (sound : Sound strings text behind s) (below : s.i + 1 < lastSize) :
    ∃ new size, s.grow heap = .ok { s with list := s.list ++ new, size := size } ∧
      (s.list ++ new).length = size ∧ Room size (s.i + 1) := by
  obtain ⟨k, small, size, inner, half⟩ := sound.room
  by_cases full : s.i + 1 = s.size
  · have smaller : k < 24 := by
      by_contra last
      obtain rfl : k = 24 := by omega
      rw [full, size] at below
      exact lt_irrefl _ below
    obtain ⟨new, grown, length⟩ := xrealloc_half heap smaller (sound.size.trans size)
    refine ⟨new, s.size * 2, ?_, ?_, k + 1, smaller, ?_, by omega, Or.inr (by omega)⟩
    · rw [Loop.grow, if_pos (by omega), size, grown]
      rfl
    · rw [length, size]
    · rw [size, Nat.pow_succ, Nat.mul_assoc]
  · refine ⟨[], s.size, ?_, ?_, k, small, size, by omega, half.imp_right (by omega)⟩
    · rw [Loop.grow, if_neg (by omega), List.append_nil]
    · rw [List.append_nil, sound.size]

private theorem grow_exits (sound : Sound strings text behind s) (last : s.i + 1 = lastSize) :
    s.grow heap = .error .exited := by
  have le := sound.room.le
  obtain ⟨k, small, size, inner, half⟩ := sound.room
  have same : s.size = lastSize := by omega
  rw [Loop.grow, if_pos (by omega), same, xrealloc_last]
  rfl

private theorem cut_sound {f : Bytes} (sound : Sound strings (f ++ comma :: text) behind s)
    (below : s.i + 1 < lastSize) :
    ∃ s', s.cut heap (s.ptr + f.length) = .ok s' ∧ Sound (strings ++ [f]) text behind s' := by
  obtain ⟨new, size, grown, length, room⟩ := grow_room heap sound below
  obtain ⟨slot, rest, entries⟩ := sound.next
  have written : write (s.list ++ new) s.i (some s.ptr) =
      some ((starts 0 strings).map some ++ some s.ptr :: (rest ++ new)) := by
    rw [entries, ← sound.front, List.append_assoc, List.cons_append]
    exact write_append _ _ _ _
  have before : s.ptr + f.length = (terminated strings ++ f).length := by
    rw [sound.ptr, List.length_append]
  have ended : write s.str (s.ptr + f.length : Nat) 0 =
      some ((terminated strings ++ f) ++ 0 :: (text ++ 0 :: behind)) := by
    have shape : s.str = (terminated strings ++ f) ++ comma :: (text ++ 0 :: behind) := by
      rw [sound.str]
      simp only [List.append_assoc, List.cons_append]
    rw [shape, before]
    exact write_append _ _ _ _
  have more : terminated (strings ++ [f]) = terminated strings ++ f ++ [0] := by
    simp only [terminated, List.flatMap_append, List.flatMap_singleton, List.append_assoc]
  refine ⟨_, by simp only [Loop.cut, grown, bind, Except.bind, ended, written, inside]; rfl, ?_⟩
  refine ⟨?_, ?_, ?_, ?_, ?_, room⟩
  · simp only [more, List.append_assoc, List.singleton_append]
  · simp only [more, before, List.length_append, List.length_singleton]
  · simp only [sound.count, List.length_append, List.length_singleton]
  · rw [starts_concat, List.map_append, ← sound.ptr, Nat.zero_add]
    exact ⟨rest ++ new, by simp⟩
  · rw [← length, entries]
    simp only [List.append_assoc, List.length_append, List.length_cons]
    omega

private theorem cut_exits (sound : Sound strings text behind s) (last : s.i + 1 = lastSize)
    (nptr : Nat) : s.cut heap nptr = .error .exited := by
  simp only [Loop.cut, grow_exits heap sound last]
  rfl

/-- The loop cuts off every field with a comma behind it. -/
private theorem separate_sound {fs : List Bytes} {last : Bytes}
    (sound : Sound strings (fs.flatMap (· ++ [comma]) ++ last) behind s)
    (free : ∀ f ∈ fs, comma ∉ f ∧ (0 : UInt8) ∉ f) (free' : comma ∉ last ∧ (0 : UInt8) ∉ last)
    {fuel : Nat} (enough : fs.length < fuel) :
    if strings.length + fs.length < lastSize then
      ∃ s', s.separate heap fuel = .ok s' ∧ Sound (strings ++ fs) last behind s'
    else s.separate heap fuel = .error .exited := by
  induction fs generalizing strings s fuel with
  | nil =>
    obtain ⟨fuel, rfl⟩ := Nat.exists_eq_succ_of_ne_zero (Nat.ne_of_gt enough)
    have below : strings.length < lastSize := by
      have le := sound.room.le
      obtain ⟨k, -, -, inner, -⟩ := sound.room
      have count := sound.count
      omega
    have missing : strchr 0 s.str s.ptr comma = some none := by
      rw [sound.str, sound.ptr]
      exact strchr_missing _ _ free'.1 free'.2 (by decide)
    rw [if_pos (by simpa using below), List.append_nil]
    exact ⟨s, by simp only [Loop.separate, missing], sound⟩
  | cons f fs ih =>
    obtain ⟨fuel, rfl⟩ := Nat.exists_eq_succ_of_ne_zero (Nat.ne_of_gt (Nat.zero_lt_of_lt enough))
    obtain ⟨plain, others⟩ := List.forall_mem_cons.mp free
    have shape : (f :: fs).flatMap (· ++ [comma]) ++ last =
        f ++ comma :: (fs.flatMap (· ++ [comma]) ++ last) := by
      simp
    rw [shape] at sound
    have found : strchr 0 s.str s.ptr comma = some (some (s.ptr + f.length)) := by
      rw [sound.str, sound.ptr, List.append_assoc, List.cons_append]
      exact strchr_found _ _ plain.1 plain.2
    have step : s.separate heap (fuel + 1) =
        (s.cut heap (s.ptr + f.length)).bind (Loop.separate heap fuel) := by
      simp only [Loop.separate, found]
    by_cases below : s.i + 1 < lastSize
    · obtain ⟨s', cut, sound'⟩ := cut_sound heap sound below
      have later := ih sound' others (Nat.lt_of_succ_lt_succ enough)
      have length : (strings ++ [f]).length + fs.length = strings.length + (f :: fs).length := by
        simp only [List.length_append, List.length_cons, List.length_nil]
        omega
      rw [length, List.append_assoc, List.singleton_append] at later
      rw [step, cut]
      exact later
    · have le := sound.room.le
      have last : s.i + 1 = lastSize := by
        obtain ⟨k, -, -, inner, -⟩ := sound.room
        omega
      have count := sound.count
      rw [if_neg (by rw [List.length_cons]; omega), step, cut_exits heap sound last]
      rfl

private theorem finish_empty (sound : Sound strings [] behind s) :
    ∃ rest, s.finish = .ok (s.str, (starts 0 strings).map some ++ none :: rest) := by
  obtain ⟨slot, rest, entries⟩ := sound.next
  have ended : read s.str s.ptr = some 0 := by
    rw [sound.str, sound.ptr]
    exact read_append _ _ _
  have written : write s.list s.i none = some ((starts 0 strings).map some ++ none :: rest) := by
    rw [entries, ← sound.front]
    exact write_append _ _ _ _
  refine ⟨rest, ?_⟩
  simp only [Loop.finish, ended, inside, bind, Except.bind, ne_eq, not_true_eq_false, if_false,
    written]
  rfl

private theorem finish_filled {c : UInt8} (filled : c ≠ 0)
    (sound : Sound strings (c :: text) behind s) :
    (s.i + 1 = s.size → s.finish = .error .outside) ∧ (s.i + 1 ≠ s.size → ∃ rest,
      s.finish = .ok (s.str, (starts 0 strings ++ [s.ptr]).map some ++ none :: rest)) := by
  obtain ⟨slot, rest, entries⟩ := sound.next
  have first : read s.str s.ptr = some c := by
    rw [sound.str, sound.ptr]
    exact read_append _ _ _
  have shape : (starts 0 strings ++ [s.ptr]).map some ++ rest =
      (starts 0 strings).map some ++ some s.ptr :: rest := by
    simp
  have written : write s.list s.i (some s.ptr) =
      some ((starts 0 strings ++ [s.ptr]).map some ++ rest) := by
    rw [entries, ← sound.front, shape]
    exact write_append _ _ _ _
  have front : ((starts 0 strings ++ [s.ptr]).map some : List Pointer).length = s.i + 1 := by
    rw [List.map_append, List.length_append, sound.front]
    rfl
  have size : s.i + 1 + rest.length = s.size := by
    rw [← sound.size, entries, List.length_append, sound.front, List.length_cons]
    omega
  simp only [Loop.finish, first, inside, bind, Except.bind, ne_eq, filled, not_false_eq_true,
    if_true, written]
  constructor
  · intro full
    obtain rfl : rest = [] := List.length_eq_zero_iff.mp (by omega)
    rw [List.append_nil, write, if_neg (by omega)]
  · intro other
    obtain ⟨slot', rest', rfl⟩ := List.exists_cons_of_length_pos (show 0 < rest.length by omega)
    rw [← front, write_append]
    exact ⟨rest', rfl⟩

private theorem finish_holds_iff {last : Bytes} (sound : Sound strings last behind s)
    (free : ∀ f ∈ strings, (0 : UInt8) ∉ f) (free' : (0 : UInt8) ∉ last) :
    (∃ str list, s.finish = .ok (str, list) ∧
        Holds str list (if last = [] then strings else strings ++ [last])) ↔
      last = [] ∨ ∀ k, strings.length + 1 ≠ 10 * 2 ^ k := by
  cases last with
  | nil =>
    obtain ⟨rest, finished⟩ := finish_empty sound
    refine iff_of_true ⟨_, _, finished, _, rest, rfl, ?_⟩ (Or.inl rfl)
    rw [if_pos rfl, sound.str]
    exact read_starts [] _ free
  | cons c l =>
    have filled : c ≠ 0 := fun zero => free' (zero ▸ List.mem_cons_self)
    obtain ⟨full, spare⟩ := finish_filled filled sound
    have doubled : s.i + 1 = s.size ↔ ∃ k, strings.length + 1 = 10 * 2 ^ k := by
      rw [sound.room.full_iff, sound.count]
    rw [if_neg (List.cons_ne_nil c l), or_iff_right (List.cons_ne_nil c l)]
    by_cases last_entry : s.i + 1 = s.size
    · refine iff_of_false ?_ (not_forall_not.mpr (doubled.mp last_entry))
      rintro ⟨str, list, returns, -⟩
      cases (full last_entry).symm.trans returns
    · obtain ⟨rest, finished⟩ := spare last_entry
      refine iff_of_true ⟨_, _, finished, _, rest, rfl, ?_⟩
        (not_exists.mp (mt doubled.mpr last_entry))
      have next : starts 0 strings ++ [s.ptr] = starts 0 (strings ++ [c :: l]) := by
        rw [starts_concat, Nat.zero_add, sound.ptr]
      have str : s.str = terminated (strings ++ [c :: l]) ++ behind := by
        rw [sound.str]
        simp [terminated]
      rw [next, str]
      refine read_starts [] behind ?_
      exact List.forall_mem_append.mpr ⟨free, List.forall_mem_singleton.mpr free'⟩

end

private theorem sound_start (heap : PointerHeap) (text behind : Bytes) :
    Sound [] text behind ⟨text ++ 0 :: behind, heap.malloc 10, 10, 0, 0⟩ where
  str := rfl
  ptr := rfl
  count := rfl
  list := List.nil_prefix
  size := heap.size 10
  room := ⟨0, Nat.zero_le 24, rfl, Nat.succ_pos 9, Or.inl rfl⟩

private theorem fields_of_split {text : Bytes} {fs : List Bytes} {last : Bytes}
    (split : text.splitOn comma = fs ++ [last]) :
    fields text = if last = [] then fs else fs ++ [last] := by
  simp only [fields, split, List.getLast?_concat, Option.some.injEq, List.dropLast_concat]

/-- Every access to the list is inside of it, and it comes to hold the fields, exactly if there
are so few commas that it can grow, and either the last field is empty or the list is not full
up to its last entry. -/
theorem xstrsep_splits_iff (heap : PointerHeap) {text : Bytes} (free : (0 : UInt8) ∉ text)
    (behind : Bytes) :
    (∃ str list, xstrsep heap (text ++ 0 :: behind) = .ok (str, list) ∧
        Holds str list (fields text)) ↔
      text.count comma < 10 * 2 ^ 24 ∧
        ((text.splitOn comma).getLast? = some [] ∨ ∀ k, text.count comma + 1 ≠ 10 * 2 ^ k) := by
  obtain ⟨fs, last, rfl, plain, plain', split, count⟩ := exists_fields comma text
  have frees : ∀ f ∈ fs, comma ∉ f ∧ (0 : UInt8) ∉ f := by
    intro f member
    refine ⟨plain f member, fun nul => free (List.mem_append_left last ?_)⟩
    exact List.mem_flatMap.mpr ⟨f, member, List.mem_append_left [comma] nul⟩
  have free' : comma ∉ last ∧ (0 : UInt8) ∉ last :=
    ⟨plain', fun nul => free (List.mem_append_right _ nul)⟩
  have enough : fs.length < (fs.flatMap (· ++ [comma]) ++ last ++ 0 :: behind).length + 1 := by
    have commas := List.count_le_length (l := fs.flatMap (· ++ [comma]) ++ last) (a := comma)
    rw [List.length_append]
    omega
  have separated := separate_sound heap (sound_start heap _ behind) frees free' enough
  rw [List.length_nil, Nat.zero_add, List.nil_append] at separated
  rw [count, split, List.getLast?_concat, Option.some.injEq, fields_of_split split]
  by_cases below : fs.length < lastSize
  · rw [if_pos below] at separated
    obtain ⟨s, separated, sound⟩ := separated
    rw [and_iff_right below, xstrsep, separated]
    exact finish_holds_iff sound (fun f member => (frees f member).2) free'.2
  · rw [if_neg below] at separated
    refine iff_of_false ?_ fun both => below both.1
    rintro ⟨str, list, returns, -⟩
    rw [xstrsep, separated] at returns
    cases returns

def zeroed : PointerHeap := ⟨fun n => List.replicate n none, fun _ => List.length_replicate⟩

theorem xstrsep_splits_iff_languages :
    ∃ str list, xstrsep zeroed (ascii "de,en," ++ [0]) = .ok (str, list) ∧
      Holds str list [ascii "de", ascii "en"] := by
  have two : fields (ascii "de,en,") = [ascii "de", ascii "en"] := by decide
  rw [← two]
  exact (xstrsep_splits_iff zeroed (by decide) []).mpr ⟨by decide, Or.inl (by decide)⟩

/-- Ten fields fill the first list, and the null is written behind it. -/
theorem ten_fields_overrun : ¬∀ heap text behind, (0 : UInt8) ∉ text →
    ∃ str list, xstrsep heap (text ++ 0 :: behind) = .ok (str, list) ∧
      Holds str list (fields text) := by
  intro splits
  obtain ⟨str, list, returns, -⟩ := splits zeroed (ascii "a,b,c,d,e,f,g,h,i,j") [] (by decide)
  have overrun : xstrsep zeroed (ascii "a,b,c,d,e,f,g,h,i,j" ++ [0]) = .error .outside := by
    rfl
  cases overrun.symm.trans returns

end KDESu.Stub.Splitting
