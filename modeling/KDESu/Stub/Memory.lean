/- KDESu/Stub/Memory
   source: src/kdesu_stub.c
   digest: The buffers of kdesu_stub, and the lines at which it leaves one of them. -/

import KDESu.Library.CheckedMemory
import KDESu.Stub.Environment

set_option autoImplicit false
set_option relaxedAutoImplicit false

namespace KDESu.Stub.Memory

open KDESu.ByteArrays
open KDESu.Library.BoundedLines
open KDESu.Library.CheckedMemory
open KDESu.Process.Launching (constData constData_eq_iff constData_append_nul)
open KDESu.Stub.Parameters (BUFSIZE fgets params)
open KDESu.Stub.Environment (dequoteBuf environLine)

/-- `malloc`, whose blocks hold anything at first. -/
structure Heap where
  malloc : Nat → Bytes
  size : ∀ n, (malloc n).length = n

def xstrdup (heap : Heap) (src : Bytes) : Option Bytes := do
  let len ← strlen 0 src
  let dst ← strcpy 0 (heap.malloc (len + 1)) src
  let last ← read dst ((len : Int) - 1)
  if last = newline then write dst ((len : Int) - 1) 0 else some dst

/-- The loop of `dequote`, its two pointers as indexes; a step for each byte written. -/
def dequoteFrom : Nat → Bytes → Nat → Nat → Option Bytes
  | 0, _, _, _ => none
  | fuel + 1, buf, inp, out => do
      let c ← read buf inp
      if c = 0 then write buf out 0
      else
        let next ← (if c = backslash then read buf (inp + 1 : Nat) else some 0 : Option UInt8)
        if next ≠ 0 then
          let buf ← write buf out (if next = 47 then backslash else next - 64)
          dequoteFrom fuel buf (inp + 2) (out + 1)
        else
          let buf ← write buf out c
          dequoteFrom fuel buf (inp + 1) (out + 1)

def dequote (buf : Bytes) : Option Bytes := dequoteFrom (buf.length + 1) buf 0 0

/-- `fgets(buf, BUFSIZE, stdin)`: the buffer behind the terminator stays as it was. -/
def fgetsInto (buf input : Bytes) : Option (Bytes × Bytes) :=
  (fgets input).map fun (line, left) => (line ++ 0 :: buf.drop (line.length + 1), left)

/-- How `main` ends before its end: by `exit`, or at an access outside. -/
inductive Stop
  | exited | outside
  deriving DecidableEq

/-- The parameter loop: the values, the buffer and what is left of the input. -/
def readParams (heap : Heap) : List Bytes → Bytes → Bytes → Except Stop (List Bytes × Bytes × Bytes)
  | [], buf, input => .ok ([], buf, input)
  | name :: names, buf, input =>
      match fgetsInto buf input with
      | none => .error .exited
      | some (buf, input) =>
          match xstrdup heap buf with
          | none => .error .outside
          | some value =>
              if name = ascii "kdesu_stub" ∧ constData value = ascii "stop" then .error .exited
              else (readParams heap names buf input).map fun (values, rest) =>
                (value :: values, rest)

/-- The environment loop: the buffer at its end. Each line takes a byte of the input at least. -/
def readEnviron (heap : Heap) : Nat → Bytes → Bytes → Except Stop Bytes
  | 0, _, _ => .error .exited
  | fuel + 1, buf, input =>
      match fgetsInto buf input with
      | none => .error .exited
      | some (buf, input) =>
          match (dequote buf).bind fun buf => (xstrdup heap buf).map fun tmp => (buf, tmp) with
          | none => .error .outside
          | some (buf, tmp) =>
              if constData tmp = [] then .ok buf else readEnviron heap fuel buf input

def P_COMMAND : Nat := 3

def childCommand (values : List Bytes) (buf : Bytes) : Option Bytes := do
  let command ← values[P_COMMAND]?
  let buf ← strcpy 0 buf command
  dequote buf

/-- `main` on this input: `forks` says whether it comes to the child. -/
def main (heap : Heap) (forks : Bool) (buf : Vector UInt8 (BUFSIZE + 1)) (input : Bytes) :
    Except Stop Bytes :=
  match readParams heap params buf.toList input with
  | .error stop => .error stop
  | .ok (values, buf, input) =>
      match readEnviron heap (input.length + 1) buf input with
      | .error stop => .error stop
      | .ok buf =>
          if forks then
            match childCommand values buf with
            | none => .error .outside
            | some buf => .ok buf
          else .ok buf

private theorem text {m : Bytes} (ended : (0 : UInt8) ∈ m) :
    ∃ s rest, m = s ++ 0 :: rest ∧ (0 : UInt8) ∉ s ∧ constData m = s := by
  obtain ⟨s, rest, rfl, free⟩ := List.eq_append_cons_of_mem ended
  exact ⟨s, rest, rfl, free, constData_append_nul free rest⟩

private theorem nul_mem (s rest : Bytes) : (0 : UInt8) ∈ s ++ 0 :: rest :=
  List.mem_append_right s List.mem_cons_self

private theorem xstrdup_text (heap : Heap) {s : Bytes} (free : (0 : UInt8) ∉ s) (rest : Bytes) :
    xstrdup heap (s ++ 0 :: rest) = (read (s ++ [0]) ((s.length : Int) - 1)).bind fun last =>
      if last = newline then write (s ++ [0]) ((s.length : Int) - 1) 0 else some (s ++ [0]) := by
  have room : s.length < (heap.malloc (s.length + 1)).length := by
    rw [heap.size]
    exact Nat.lt_succ_self _
  have copied : strcpy 0 (heap.malloc (s.length + 1)) (s ++ 0 :: rest) = some (s ++ [0]) := by
    rw [strcpy_append free rest room, List.drop_eq_nil_of_le (heap.size _).le]
  simp only [xstrdup, Option.bind_eq_bind, strlen_append free rest, Option.bind_some, copied]

theorem xstrdup_empty (heap : Heap) {src : Bytes} (ended : (0 : UInt8) ∈ src)
    (empty : constData src = []) : xstrdup heap src = none := by
  obtain ⟨s, rest, rfl, free, same⟩ := text ended
  obtain rfl : s = [] := same.symm.trans empty
  rw [xstrdup_text heap free]
  exact congrArg (Option.bind · _) (read_of_neg (by decide) _)

theorem xstrdup_filled (heap : Heap) {src : Bytes} (ended : (0 : UInt8) ∈ src)
    (filled : constData src ≠ []) : ∃ dst, xstrdup heap src = some dst ∧ (0 : UInt8) ∈ dst ∧
      constData dst = Parameters.xstrdup src := by
  obtain ⟨s, rest, rfl, free, same⟩ := text ended
  rw [same] at filled
  obtain ⟨front, c, shape⟩ := (List.eq_nil_or_concat s).resolve_left filled
  rw [List.concat_eq_append] at shape
  subst shape
  have index : ((front ++ [c]).length : Int) - 1 = front.length := by simp
  have last : read (front ++ [c] ++ [0]) front.length = some c := by
    simpa using read_append front [0] c
  have stripped : write (front ++ [c] ++ [0]) front.length 0 = some (front ++ 0 :: [0]) := by
    simpa using write_append front [0] c 0
  rw [xstrdup_text heap free, index, last, Option.bind_some]
  simp only [Parameters.xstrdup, same, List.getLast?_concat, Option.some.injEq,
    List.dropLast_concat]
  split_ifs with line
  · refine ⟨_, stripped, nul_mem _ _, constData_append_nul (fun member => ?_) _⟩
    exact free (List.mem_append_left _ member)
  · exact ⟨_, rfl, nul_mem _ _, constData_append_nul free []⟩

private theorem write_gap (front gap more : Bytes) (c b : UInt8) : ∃ gap',
    gap'.length = gap.length ∧ write (front ++ (gap ++ c :: more)) front.length b =
      some (front ++ [b] ++ (gap' ++ more)) := by
  cases gap with
  | nil => exact ⟨[], rfl, by simpa using write_append front more c b⟩
  | cons g gap =>
    exact ⟨gap ++ [c], by simp, by simpa using write_append front (gap ++ c :: more) g b⟩

private theorem read_gap (front gap more : Bytes) (c : UInt8) :
    read (front ++ (gap ++ c :: more)) (front.length + gap.length : Nat) = some c := by
  have found := read_append (front ++ gap) more c
  rwa [List.append_assoc, List.length_append] at found

private theorem dequoteFrom_byte (front gap more : Bytes) {c : UInt8} (solid : c ≠ 0)
    (plain : c = backslash → ∃ rest, more = 0 :: rest) (fuel : Nat) : ∃ gap',
    gap'.length = gap.length ∧
      dequoteFrom (fuel + 1) (front ++ (gap ++ c :: more)) (front.length + gap.length)
          front.length =
        dequoteFrom fuel (front ++ [c] ++ (gap' ++ more))
          (front.length + 1 + gap'.length) (front.length + 1) := by
  obtain ⟨gap', same, written⟩ := write_gap front gap more c c
  have next : (if c = backslash then
      read (front ++ (gap ++ c :: more)) (front.length + gap.length + 1 : Nat) else some 0) =
        some 0 := by
    split_ifs with slash
    · obtain ⟨rest, rfl⟩ := plain slash
      have found := read_gap front (gap ++ [c]) rest 0
      rwa [List.append_assoc, List.singleton_append, List.length_append, List.length_singleton,
        ← Nat.add_assoc] at found
    · rfl
  refine ⟨gap', same, ?_⟩
  have index : front.length + gap.length + 1 = front.length + 1 + gap'.length := by omega
  simp only [dequoteFrom, Option.bind_eq_bind, read_gap, Option.bind_some, solid, if_false, next,
    ne_eq, not_true_eq_false, written]
  rw [index]

private theorem dequoteFrom_escape (front gap more : Bytes) {d : UInt8} (solid : d ≠ 0)
    (fuel : Nat) : ∃ gap', gap'.length = gap.length + 1 ∧
      dequoteFrom (fuel + 1) (front ++ (gap ++ backslash :: d :: more))
          (front.length + gap.length) front.length =
        dequoteFrom fuel (front ++ [if d = 47 then backslash else d - 64] ++ (gap' ++ more))
          (front.length + 1 + gap'.length) (front.length + 1) := by
  obtain ⟨gap', same, written⟩ :=
    write_gap front gap (d :: more) backslash (if d = 47 then backslash else d - 64)
  have next : read (front ++ (gap ++ backslash :: d :: more))
      (front.length + gap.length + 1 : Nat) = some d := by
    have found := read_gap front (gap ++ [backslash]) more d
    rwa [List.append_assoc, List.singleton_append, List.length_append, List.length_singleton,
      ← Nat.add_assoc] at found
  have slash : (backslash : UInt8) ≠ 0 := by decide
  have shape : gap' ++ d :: more = gap' ++ [d] ++ more := by simp
  refine ⟨gap' ++ [d], by simp [same], ?_⟩
  have index : front.length + gap.length + 2 = front.length + 1 + (gap' ++ [d]).length := by
    rw [List.length_append, List.length_singleton]
    omega
  simp only [dequoteFrom, Option.bind_eq_bind, read_gap, Option.bind_some, slash, if_false,
    if_true, next, ne_eq, solid, not_false_eq_true, written, shape, index]

private theorem dequoteFrom_end (front gap rest : Bytes) (fuel : Nat) : ∃ tail,
    dequoteFrom (fuel + 1) (front ++ (gap ++ 0 :: rest)) (front.length + gap.length)
        front.length = some (front ++ 0 :: tail) ∧
      (0 :: tail).length = (gap ++ 0 :: rest).length := by
  obtain ⟨gap', same, written⟩ := write_gap front gap rest 0 0
  refine ⟨gap' ++ rest, ?_, by simp [same]; omega⟩
  simp only [dequoteFrom, Option.bind_eq_bind, read_gap, Option.bind_some, if_true, written,
    List.append_assoc, List.singleton_append]

private def Dequotes (fuel : Nat) (s t : Bytes) : Prop := ∀ front gap rest : Bytes, ∃ tail,
  dequoteFrom fuel (front ++ (gap ++ (s ++ 0 :: rest))) (front.length + gap.length)
      front.length = some (front ++ (t ++ 0 :: tail)) ∧
    (t ++ 0 :: tail).length = (gap ++ (s ++ 0 :: rest)).length

private theorem dequotes_byte {c : UInt8} {s t : Bytes} {fuel : Nat} (solid : c ≠ 0)
    (plain : c = backslash → s = []) (later : Dequotes fuel s t) :
    Dequotes (fuel + 1) (c :: s) (c :: t) := by
  intro front gap rest
  obtain ⟨gap', same, step⟩ := dequoteFrom_byte front gap (s ++ 0 :: rest) solid
    (fun slash => ⟨rest, by rw [plain slash]; rfl⟩) fuel
  obtain ⟨tail, result, lengths⟩ := later (front ++ [c]) gap' rest
  rw [List.length_append, List.length_singleton] at result
  refine ⟨tail, ?_, ?_⟩
  · rw [List.cons_append, step, result, List.append_assoc]
    rfl
  · simp only [List.length_append, List.length_cons] at lengths ⊢
    omega

private theorem dequotes_escape {d : UInt8} {s t : Bytes} {fuel : Nat} (solid : d ≠ 0)
    (later : Dequotes fuel s t) : Dequotes (fuel + 1) (backslash :: d :: s)
      ((if d = 47 then backslash else d - 64) :: t) := by
  intro front gap rest
  obtain ⟨gap', same, step⟩ := dequoteFrom_escape front gap (s ++ 0 :: rest) solid fuel
  obtain ⟨tail, result, lengths⟩ :=
    later (front ++ [if d = 47 then backslash else d - 64]) gap' rest
  rw [List.length_append, List.length_singleton] at result
  refine ⟨tail, ?_, ?_⟩
  · rw [List.cons_append, List.cons_append, step, result, List.append_assoc]
    rfl
  · simp only [List.length_append, List.length_cons] at lengths ⊢
    omega

private theorem dequotes_text {s : Bytes} (free : (0 : UInt8) ∉ s) {fuel : Nat}
    (enough : s.length < fuel) : Dequotes fuel s (Parameters.dequote s) := by
  induction fuel generalizing s with
  | zero => omega
  | succ fuel ih =>
    match s with
    | [] => exact fun front gap rest => dequoteFrom_end front gap rest fuel
    | [c] =>
      have solid : c ≠ 0 := fun zero => free (zero ▸ List.mem_cons_self)
      exact dequotes_byte solid (fun _ => rfl) (ih List.not_mem_nil (Nat.lt_of_succ_lt_succ enough))
    | c :: d :: s =>
      obtain ⟨first, second⟩ := List.ne_and_not_mem_of_not_mem_cons free
      rw [Parameters.dequote]
      by_cases slash : c = backslash
      · rw [if_pos slash]
        obtain ⟨solid, rest⟩ := List.ne_and_not_mem_of_not_mem_cons second
        subst slash
        simp only [List.length_cons] at enough
        exact dequotes_escape solid.symm (ih rest (by omega))
      · rw [if_neg slash]
        exact dequotes_byte first.symm (fun same => absurd same slash)
          (ih second (Nat.lt_of_succ_lt_succ enough))

private theorem constData_append_zero (t tail : Bytes) :
    constData (t ++ 0 :: tail) = constData t := by
  induction t with
  | nil => rfl
  | cons c t ih =>
    by_cases zero : c = 0
    · subst zero
      rfl
    · simp only [constData, List.cons_append, List.takeWhile_cons, decide_eq_true zero,
        ne_eq, if_true] at ih ⊢
      rw [ih]

theorem dequote_text {buf : Bytes} (ended : (0 : UInt8) ∈ buf) : ∃ buf',
    dequote buf = some buf' ∧ buf'.length = buf.length ∧ (0 : UInt8) ∈ buf' ∧
      constData buf' = dequoteBuf buf := by
  obtain ⟨s, rest, rfl, free, same⟩ := text ended
  have enough : s.length < (s ++ 0 :: rest).length + 1 := by
    rw [List.length_append]
    omega
  obtain ⟨tail, result, lengths⟩ := dequotes_text free enough [] [] rest
  refine ⟨_, result, lengths, nul_mem _ _, ?_⟩
  rw [List.nil_append, constData_append_zero, dequoteBuf, same]

def inputLines (input : Bytes) : List Bytes := lines newline (BUFSIZE - 1) input

def InstallCheck (input : Bytes) : Prop :=
  (inputLines input).head?.map Parameters.xstrdup = some (ascii "stop")

instance (input : Bytes) : Decidable (InstallCheck input) :=
  inferInstanceAs (Decidable ((inputLines input).head?.map Parameters.xstrdup = _))

def paramLines (input : Bytes) : List Bytes :=
  (inputLines input).take (if InstallCheck input then 1 else params.length)

def upTo (ends : Bytes → Prop) [DecidablePred ends] : List Bytes → List Bytes
  | [] => []
  | line :: ls => if ends line then [line] else line :: upTo ends ls

/-- The lines that are read as environment strings, the terminator included. -/
def environLines (input : Bytes) : List Bytes :=
  if InstallCheck input then []
  else upTo (environLine · = []) ((inputLines input).drop params.length)

def Blank (line : Bytes) : Prop := line.head? = some 0

/-- A line whose decoded C string is empty: it begins with NUL, or with its escape. -/
def BlankDecoded (line : Bytes) : Prop := Blank line ∨ [backslash, 64] <+: line

private theorem constData_cons {c : UInt8} (solid : c ≠ 0) (s : Bytes) :
    constData (c :: s) = c :: constData s := List.takeWhile_cons_of_pos (decide_eq_true solid)

private theorem constData_cons_eq_nil_iff (c : UInt8) (s : Bytes) :
    constData (c :: s) = [] ↔ c = 0 := by
  by_cases zero : c = 0
  · subst zero
    exact ⟨fun _ => rfl, fun _ => rfl⟩
  · rw [constData_cons zero]
    exact ⟨fun empty => absurd empty (List.cons_ne_nil _ _), fun same => absurd same zero⟩

private theorem constData_eq_nil_iff {line : Bytes} (more : line ≠ []) :
    constData line = [] ↔ Blank line := by
  obtain ⟨c, line, rfl⟩ := List.exists_cons_of_ne_nil more
  rw [constData_cons_eq_nil_iff, Blank, List.head?_cons, Option.some.injEq]

private theorem decoded_eq_zero_iff (d : UInt8) :
    (if d = 47 then backslash else d - 64) = 0 ↔ d = 64 := by
  split_ifs with slash
  · subst slash
    decide
  · constructor
    · intro nul
      have back := congrArg (· + 64) nul
      simpa only [UInt8.sub_add_cancel, UInt8.zero_add] using back
    · rintro rfl
      rfl

private theorem dequoteBuf_eq_nil_iff {line : Bytes} (more : line ≠ []) :
    dequoteBuf line = [] ↔ BlankDecoded line := by
  obtain ⟨c, line, rfl⟩ := List.exists_cons_of_ne_nil more
  by_cases zero : c = 0
  · subst zero
    exact ⟨fun _ => Or.inl rfl, fun _ => rfl⟩
  · have blank : ¬Blank (c :: line) := fun same => zero (Option.some.inj same)
    rw [dequoteBuf, constData_cons zero, BlankDecoded, or_iff_right blank]
    by_cases slash : c = backslash
    · subst slash
      cases line with
      | nil => decide
      | cons d line =>
        by_cases nul : d = 0
        · subst nul
          simp [constData, Parameters.dequote, zero]
        · rw [constData_cons nul, Parameters.dequote, if_pos rfl, constData_cons_eq_nil_iff,
            decoded_eq_zero_iff]
          simp [eq_comm]
    · rw [Parameters.dequote_cons slash, constData_cons_eq_nil_iff]
      simp [zero, Ne.symm slash]

private structure Holds (buf line left input : Bytes) : Prop where
  size : buf.length = BUFSIZE + 1
  ended : (0 : UInt8) ∈ buf
  same : constData buf = constData line
  filled : line ≠ []
  short : line.length < BUFSIZE
  rest : inputLines input = line :: inputLines left
  shorter : left.length < input.length

private theorem fgets_line {buf input : Bytes} (size : buf.length = BUFSIZE + 1)
    (more : input ≠ []) : ∃ line buf' left,
      fgetsInto buf input = some (buf', left) ∧ Holds buf' line left input := by
  have limit : BUFSIZE = 8192 := rfl
  have room : 0 < BUFSIZE - 1 := by omega
  have short : (nextLine newline (BUFSIZE - 1) input).1.length ≤ BUFSIZE - 1 :=
    nextLine_length_le input
  refine ⟨(nextLine newline (BUFSIZE - 1) input).1, _, _,
    by rw [fgetsInto, fgets, if_neg more, Option.map_some], ?_⟩
  exact {
    size := by simp only [List.length_append, List.length_cons, List.length_drop]; omega
    ended := nul_mem _ _
    same := constData_append_zero _ _
    filled := nextLine_ne_nil newline room more
    short := by omega
    rest := lines_of_ne_nil room more
    shorter := nextLine_left_lt newline room more }

private structure Value (value : Bytes) : Prop where
  ended : (0 : UInt8) ∈ value
  short : (constData value).length < BUFSIZE

section

variable {heap : Heap} {buf line left input : Bytes}

private theorem xstrdup_length_le (src : Bytes) :
    (Parameters.xstrdup src).length ≤ (constData src).length := by
  simp only [Parameters.xstrdup]
  split_ifs
  · exact List.length_dropLast.trans_le (Nat.sub_le _ _)
  · exact Nat.le_refl _

private theorem xstrdup_congr {src src' : Bytes} (same : constData src = constData src') :
    Parameters.xstrdup src = Parameters.xstrdup src' := by
  simp only [Parameters.xstrdup, same]

private theorem xstrdup_blank (heap : Heap) (holds : Holds buf line left input)
    (blank : Blank line) : xstrdup heap buf = none :=
  xstrdup_empty heap holds.ended (holds.same.trans ((constData_eq_nil_iff holds.filled).mpr blank))

private theorem xstrdup_value (heap : Heap) (holds : Holds buf line left input)
    (filled : ¬Blank line) : ∃ value, xstrdup heap buf = some value ∧ Value value ∧
      constData value = Parameters.xstrdup line := by
  have text : constData buf ≠ [] := by
    rw [holds.same]
    exact fun empty => filled ((constData_eq_nil_iff holds.filled).mp empty)
  obtain ⟨value, made, ended, same⟩ := xstrdup_filled heap holds.ended text
  rw [xstrdup_congr holds.same] at same
  refine ⟨value, made, ⟨ended, ?_⟩, same⟩
  rw [same]
  exact (xstrdup_length_le line).trans (Parameters.constData_length_le line) |>.trans_lt holds.short

private theorem inputLines_nil : inputLines [] = [] := rfl

private theorem readParams_run (heap : Heap) {names : List Bytes}
    (plain : ∀ name ∈ names, name ≠ ascii "kdesu_stub") (size : buf.length = BUFSIZE + 1)
    (input : Bytes) :
    ((∃ line ∈ (inputLines input).take names.length, Blank line) ∧
      readParams heap names buf input = .error .outside) ∨
    ((∀ line ∈ (inputLines input).take names.length, ¬Blank line) ∧
      ((readParams heap names buf input = .error .exited ∧
        (inputLines input).drop names.length = []) ∨
      ∃ values buf' left, readParams heap names buf input = .ok (values, buf', left) ∧
        buf'.length = BUFSIZE + 1 ∧ values.length = names.length ∧ (∀ v ∈ values, Value v) ∧
        inputLines left = (inputLines input).drop names.length)) := by
  induction names generalizing buf input with
  | nil =>
    refine Or.inr ⟨by simp, Or.inr ⟨[], buf, input, rfl, size, rfl, by simp, rfl⟩⟩
  | cons name names ih =>
    by_cases more : input = []
    · subst more
      exact Or.inr ⟨by simp [inputLines_nil], Or.inl ⟨rfl, rfl⟩⟩
    · obtain ⟨line, buf', left, read, holds⟩ := fgets_line size more
      have other : name ≠ ascii "kdesu_stub" := plain name List.mem_cons_self
      rw [holds.rest, List.length_cons, List.take_succ_cons, List.drop_succ_cons]
      simp only [readParams, read]
      by_cases blank : Blank line
      · rw [xstrdup_blank heap holds blank]
        exact Or.inl ⟨⟨line, List.mem_cons_self, blank⟩, rfl⟩
      · obtain ⟨value, made, sound, -⟩ := xstrdup_value heap holds blank
        have later := ih (fun name member => plain name (List.mem_cons_of_mem _ member)) holds.size
          left
        simp only [made, other, false_and, if_false]
        rcases later with ⟨⟨bad, member, empty⟩, fails⟩ | ⟨clean, ⟨fails, short⟩ | later⟩
        · rw [fails]
          exact Or.inl ⟨⟨bad, List.mem_cons_of_mem _ member, empty⟩, rfl⟩
        · rw [fails]
          exact Or.inr ⟨List.forall_mem_cons.mpr ⟨blank, clean⟩, Or.inl ⟨rfl, short⟩⟩
        · obtain ⟨values, buf'', left', ok, size', count, sounds, rest⟩ := later
          rw [ok]
          exact Or.inr ⟨List.forall_mem_cons.mpr ⟨blank, clean⟩, Or.inr ⟨value :: values, buf'',
            left', rfl, size', congrArg (· + 1) count, List.forall_mem_cons.mpr ⟨sound, sounds⟩,
            rest⟩⟩

private theorem readEnviron_run (heap : Heap) {fuel : Nat} (size : buf.length = BUFSIZE + 1)
    (enough : input.length < fuel) :
    (readEnviron heap fuel buf input = .error .outside ↔
      ∃ line ∈ upTo (environLine · = []) (inputLines input), BlankDecoded line) ∧
    ∀ buf', readEnviron heap fuel buf input = .ok buf' → buf'.length = BUFSIZE + 1 := by
  induction fuel generalizing buf input with
  | zero => omega
  | succ fuel ih =>
    by_cases more : input = []
    · subst more
      refine ⟨?_, ?_⟩
      · simp [readEnviron, fgetsInto, fgets, inputLines_nil, upTo]
      · simp [readEnviron, fgetsInto, fgets]
    · obtain ⟨line, buf', left, read, holds⟩ := fgets_line size more
      obtain ⟨decoded, done, size', ended, text⟩ := dequote_text holds.ended
      have same : dequoteBuf buf' = dequoteBuf line := by
        rw [dequoteBuf, dequoteBuf, holds.same]
      rw [same] at text
      rw [holds.rest, upTo]
      simp only [readEnviron, read, done, Option.bind_some]
      by_cases blank : BlankDecoded line
      · have empty := (dequoteBuf_eq_nil_iff holds.filled).mpr blank
        have here : ∀ rest : List Bytes, ∃ l ∈ line :: rest, BlankDecoded l :=
          fun rest => ⟨line, List.mem_cons_self, blank⟩
        have bad : ∃ l ∈ (if environLine line = [] then [line] else
            line :: upTo (environLine · = []) (inputLines left)), BlankDecoded l := by
          split_ifs <;> exact here _
        rw [xstrdup_empty heap ended (text.trans empty)]
        exact ⟨iff_of_true rfl bad, fun _ ok => by cases ok⟩
      · have filled : constData decoded ≠ [] := by
          rw [text]
          exact fun empty => blank ((dequoteBuf_eq_nil_iff holds.filled).mp empty)
        obtain ⟨tmp, made, -, same'⟩ := xstrdup_filled heap ended filled
        have value : constData tmp = environLine line := by
          rw [same', environLine]
          refine xstrdup_congr (text.trans ((constData_eq_iff _).mpr fun nul => ?_).symm)
          exact absurd (List.mem_takeWhile_imp nul) (by decide)
        rw [made, Option.map_some]
        simp only [value]
        by_cases terminator : environLine line = []
        · simp only [if_pos terminator, List.mem_singleton, exists_eq_left]
          refine ⟨iff_of_false (by simp) blank, ?_⟩
          rintro _ ⟨⟩
          exact size'.trans holds.size
        · have shorter := holds.shorter
          have later := @ih decoded left (size'.trans holds.size) (by omega)
          simp only [if_neg terminator, List.mem_cons, exists_eq_or_imp, blank, false_or]
          exact later

private theorem childCommand_run {values : List Bytes} (size : buf.length = BUFSIZE + 1)
    (count : values.length = params.length) (sounds : ∀ v ∈ values, Value v) :
    ∃ buf', childCommand values buf = some buf' := by
  have index : P_COMMAND < values.length := by
    rw [count]
    decide
  have sound := sounds _ (List.getElem_mem index)
  obtain ⟨s, rest, shape, free, same⟩ := text sound.ended
  have short := sound.short
  rw [same] at short
  have copied : strcpy 0 buf (s ++ 0 :: rest) = some (s ++ 0 :: buf.drop (s.length + 1)) :=
    strcpy_append free rest (by omega)
  obtain ⟨buf', done, -⟩ := dequote_text (nul_mem s (buf.drop (s.length + 1)))
  refine ⟨buf', ?_⟩
  simp only [childCommand, Option.bind_eq_bind, List.getElem?_eq_getElem index, Option.bind_some,
    shape, copied, done]

private theorem main_of_values {heap : Heap} {forks : Bool} {buf : Vector UInt8 (BUFSIZE + 1)}
    {values : List Bytes} {buf' : Bytes}
    (read : readParams heap params buf.toList input = .ok (values, buf', left))
    (size : buf'.length = BUFSIZE + 1) (count : values.length = params.length)
    (sounds : ∀ v ∈ values, Value v) : main heap forks buf input = .error .outside ↔
      ∃ line ∈ upTo (environLine · = []) (inputLines left), BlankDecoded line := by
  obtain ⟨outside, ok⟩ := readEnviron_run heap size (Nat.lt_succ_self left.length)
  rw [← outside]
  simp only [main, read]
  cases ended : readEnviron heap (left.length + 1) buf' left with
  | error stop => simp
  | ok buf'' =>
    obtain ⟨buf₃, done⟩ := childCommand_run (ok buf'' ended) count sounds
    cases forks <;> simp [done]

end

/-- The program stays inside its buffers. -/
def StaysInside (heap : Heap) (forks : Bool) (buf : Vector UInt8 (BUFSIZE + 1))
    (input : Bytes) : Prop := main heap forks buf input ≠ .error .outside

section

variable {heap : Heap} {forks : Bool} {buf : Vector UInt8 (BUFSIZE + 1)} {buf' : Bytes}
  {line left input : Bytes}

private theorem installCheck_iff (holds : Holds buf' line left input) :
    InstallCheck input ↔ Parameters.xstrdup line = ascii "stop" := by
  rw [InstallCheck, holds.rest, List.head?_cons, Option.map_some, Option.some.injEq]

private theorem main_of_blank (read : fgetsInto buf.toList input = some (buf', left))
    (holds : Holds buf' line left input) (blank : Blank line) :
    main heap forks buf input = .error .outside := by
  simp only [main, params, List.map_cons, readParams, read, xstrdup_blank heap holds blank]

private theorem readParams_first (read : fgetsInto buf.toList input = some (buf', left))
    {value : Bytes} (made : xstrdup heap buf' = some value)
    (other : constData value ≠ ascii "stop") :
    readParams heap params buf.toList input =
      (readParams heap params.tail buf' left).map fun (values, rest) =>
        (value :: values, rest) := by
  have first : params = ascii "kdesu_stub" :: params.tail := rfl
  rw [first, readParams, List.tail_cons]
  simp only [read, made, other, and_false, if_false]

private theorem outside_of_value (read : fgetsInto buf.toList input = some (buf', left))
    (holds : Holds buf' line left input) {value : Bytes} (made : xstrdup heap buf' = some value)
    (sound : Value value) (other : constData value ≠ ascii "stop") :
    main heap forks buf input = .error .outside ↔
      (∃ line ∈ (inputLines left).take params.tail.length, Blank line) ∨
        ∃ line ∈ upTo (environLine · = []) ((inputLines left).drop params.tail.length),
          BlankDecoded line := by
  have first := readParams_first read made other
  have plain : ∀ name ∈ params.tail, name ≠ ascii "kdesu_stub" := by decide
  rcases readParams_run heap plain holds.size left with
    ⟨bad, fails⟩ | ⟨clean, ⟨fails, short⟩ | later⟩
  · rw [fails] at first
    have outside : main heap forks buf input = .error .outside := by
      simp only [main, first]
      rfl
    exact iff_of_true outside (Or.inl bad)
  · rw [fails] at first
    have exits : main heap forks buf input = .error .exited := by
      simp only [main, first]
      rfl
    rw [exits, short]
    refine iff_of_false (by simp) ?_
    rintro (⟨bad, member, blank⟩ | ⟨bad, member, -⟩)
    · exact clean bad member blank
    · exact absurd member List.not_mem_nil
  · obtain ⟨values, buf₂, left₂, ok, size, count, sounds, rest⟩ := later
    rw [ok] at first
    rw [main_of_values first size (congrArg (· + 1) count)
      (List.forall_mem_cons.mpr ⟨sound, sounds⟩), rest, or_iff_right]
    rintro ⟨bad, member, blank⟩
    exact clean bad member blank

end

/-- The functions of kdesu_stub stay inside their buffers exactly if no line that is read as a
parameter begins with NUL, and no line that is read as an environment string begins with NUL or
with the escape that decodes to it. -/
theorem stays_inside_iff (heap : Heap) (forks : Bool) (buf : Vector UInt8 (BUFSIZE + 1))
    (input : Bytes) : StaysInside heap forks buf input ↔
      (∀ line ∈ paramLines input, ¬Blank line) ∧
        ∀ line ∈ environLines input, ¬BlankDecoded line := by
  have size : buf.toList.length = BUFSIZE + 1 := Vector.length_toList
  by_cases more : input = []
  · subst more
    have exits : main heap forks buf [] = .error .exited := rfl
    simp [StaysInside, exits, paramLines, environLines, inputLines_nil, upTo]
  · obtain ⟨line, buf', left, read, holds⟩ := fgets_line size more
    have check := installCheck_iff holds
    by_cases blank : Blank line
    · have outside : main heap forks buf input = .error .outside :=
        main_of_blank read holds blank
      have first : line ∈ paramLines input := by
        rw [paramLines, holds.rest]
        split_ifs <;> exact List.mem_cons_self
      exact iff_of_false (fun inside => inside outside) fun clean => clean.1 line first blank
    · obtain ⟨value, made, sound, same⟩ := xstrdup_value heap holds blank
      by_cases stop : Parameters.xstrdup line = ascii "stop"
      · have exits : main heap forks buf input = .error .exited := by
          simp only [main, params, List.map_cons, readParams, read, made, same, stop, and_self,
            if_true]
        simp [StaysInside, exits, paramLines, environLines, holds.rest, check, stop, blank]
      · rw [StaysInside, ne_eq, outside_of_value read holds made sound (same ▸ stop)]
        have count : params.length = params.tail.length + 1 := rfl
        simp only [paramLines, environLines, check, stop, if_false, holds.rest, count,
          List.take_succ_cons, List.drop_succ_cons, List.forall_mem_cons, blank, not_or,
          not_exists, not_and, not_false_eq_true, true_and]

/-- A line that begins with NUL is an empty string, and `xstrdup` looks in front of its copy. -/
theorem nul_line_read_outside : ¬∀ heap forks buf input, StaysInside heap forks buf input := by
  intro inside
  let heap : Heap := ⟨fun n => List.replicate n 0, fun n => List.length_replicate⟩
  let buf : Vector UInt8 (BUFSIZE + 1) := Vector.replicate (BUFSIZE + 1) 0
  have size : buf.toList.length = BUFSIZE + 1 := Vector.length_toList
  obtain ⟨line, buf', left, read, holds⟩ :=
    fgets_line size (by decide : ([0, newline] : Bytes) ≠ [])
  have whole : inputLines [0, newline] = [[0, newline]] := by decide +kernel
  have first : line = [0, newline] := (List.cons.inj (holds.rest.symm.trans whole)).1
  exact inside heap false buf [0, newline] (main_of_blank read holds (first ▸ rfl))

end KDESu.Stub.Memory
