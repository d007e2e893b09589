/- KDESu/Stub/Parameters
   source: src/kdesu_stub.c, src/stubprocess.cpp
   digest: kdesu_stub's parameter loop beside converseStub, and when it reads what was meant. -/

import KDESu.Library.BoundedLines
import KDESu.Process.Conversing

set_option autoImplicit false
set_option relaxedAutoImplicit false

namespace KDESu.Stub.Parameters

open KDESu.ByteArrays
open KDESu.Library.BoundedLines
open KDESu.Process.Launching
open KDESu.Process.Conversing

def BUFSIZE : Nat := 8192

/-- `fgets` into a buffer of this size: the line and what is left; none at the end of the input. -/
def fgets (input : Bytes) : Option (Bytes × Bytes) :=
  if input = [] then none else some (nextLine newline (BUFSIZE - 1) input)

/-- A copy of the C string without a newline at its end. -/
def xstrdup (src : Bytes) : Bytes :=
  let dst := constData src
  if dst.getLast? = some newline then dst.dropLast else dst

def dequote : Bytes → Bytes
  | [] => []
  | [c] => [c]
  | c :: d :: buf =>
      if c = backslash then (if d = 47 then backslash else d - 64) :: dequote buf
      else c :: dequote (d :: buf)

def readParam (input : Bytes) : Option (Bytes × Bytes) :=
  (fgets input).map fun (buf, input) => (xstrdup buf, input)

def params : List Bytes :=
  ["kdesu_stub", "display", "display_auth", "command", "path", "xwindows_only", "user", "priority",
    "scheduler", "app_startup_id"].map ascii

/-- The parameter loop, with the answers of `converseStub(0)` in its input: the values, and what
is left of the input. It ends without them at the end of the input and on `stop`. -/
def paramLoop (around : Surroundings) (p : StubProcess) :
    List Bytes → StubLoop → Bytes → Option (List Bytes × Bytes)
  | [], _, input => some ([], input)
  | name :: names, s, input =>
      match hearStub around p false s (some name) with
      | (.inr _, _) => none
      | (.inl s, written) =>
          (readParam (input ++ written.flatten)).bind fun (value, input) =>
            if name = ascii "kdesu_stub" ∧ value = ascii "stop" then none
            else (paramLoop around p names s input).map fun (values, left) =>
              (value :: values, left)

/-- A value as `main` uses it: the command goes to the shell dequoted, and as a C string. -/
def used (name value : Bytes) : Bytes :=
  if name = ascii "command" then constData (dequote value) else value

/-- The parameters as they are used, when the stub is started with nothing in its input. -/
def received (around : Surroundings) (p : StubProcess) : Option (List Bytes) :=
  (paramLoop around p params .greeting []).map fun (values, _) => List.zipWith used params values

/-- What `converseStub(0)` means to answer for each of them. -/
def meant (around : Surroundings) (p : StubProcess) : List Bytes :=
  [ascii "ok", around.display, around.displayAuth, p.m_command, stubPath around p,
    if p.m_XOnly then ascii "no" else ascii "yes", p.m_user, setNum p.m_priority,
    if p.m_scheduler = SchedRealtime then ascii "realtime" else ascii "normal",
    startupId p.env]

theorem quoteByte_plain (c : UInt8) : ∀ d ∈ quoteByte c, 32 ≤ d := by
  intro d member
  simp only [quoteByte] at member
  split_ifs at member with control escape
  · rcases List.mem_cons.mp member with rfl | member
    · decide
    · obtain rfl := List.mem_singleton.mp member
      rw [UInt8.lt_iff_toNat_lt] at control
      rw [UInt8.le_iff_toNat_le, UInt8.toNat_add]
      simp only [UInt8.reduceToNat] at control ⊢
      omega
  · rcases List.mem_cons.mp member with rfl | member
    · decide
    · obtain rfl := List.mem_singleton.mp member
      decide
  · obtain rfl := List.mem_singleton.mp member
    exact UInt8.not_lt.mp control

theorem quoted_plain (s : Bytes) {d : UInt8} (member : d ∈ s.flatMap quoteByte) : 32 ≤ d := by
  obtain ⟨c, -, inside⟩ := List.mem_flatMap.mp member
  exact quoteByte_plain c d inside

theorem dequote_cons {c : UInt8} (plain : c ≠ backslash) (s : Bytes) :
    dequote (c :: s) = c :: dequote s := by
  cases s with
  | nil => rfl
  | cons d s => exact if_neg plain

theorem dequote_quoteByte (c : UInt8) (s : Bytes) :
    dequote (quoteByte c ++ s) = c :: dequote s := by
  simp only [quoteByte]
  split_ifs with control escape
  · have other : c + 64 ≠ 47 := by
      intro same
      have value := congrArg UInt8.toNat same
      rw [UInt8.lt_iff_toNat_lt] at control
      rw [UInt8.toNat_add] at value
      simp only [UInt8.reduceToNat] at control value
      omega
    simp only [List.cons_append, List.nil_append, dequote, if_true, if_neg other]
    rw [UInt8.add_sub_cancel]
  · simp [dequote, escape]
  · exact dequote_cons escape s

theorem dequote_quoted_append (s later : Bytes) :
    dequote (s.flatMap quoteByte ++ later) = s ++ dequote later := by
  induction s with
  | nil => rfl
  | cons c s ih =>
    rw [List.flatMap_cons, List.append_assoc, dequote_quoteByte, ih, List.cons_append]

theorem dequote_quoted (s : Bytes) : dequote (s.flatMap quoteByte) = s := by
  have quoted := dequote_quoted_append s []
  rwa [List.append_nil, dequote, List.append_nil] at quoted

theorem constData_length_le (s : Bytes) : (constData s).length ≤ s.length :=
  (List.takeWhile_prefix _).length_le

theorem dequote_take_lt {s : Bytes} {n : Nat} (cut : n + 1 < (s.flatMap quoteByte).length) :
    (dequote ((s.flatMap quoteByte).take n)).length < s.length := by
  induction s generalizing n with
  | nil => simp at cut
  | cons c s ih =>
    rw [List.flatMap_cons, List.length_append] at cut
    have short : (quoteByte c).length = 1 ∨ (quoteByte c).length = 2 := by
      simp only [quoteByte]
      split_ifs <;> simp
    by_cases inside : n < (quoteByte c).length
    · -- nothing of the byte is read, or the backslash before it
      have least : n = 0 ∨ n = 1 := by omega
      rcases least with rfl | rfl
      · exact Nat.succ_pos _
      · cases s with
        | nil =>
          have whole : (List.flatMap quoteByte []).length = 0 := rfl
          omega
        | cons d s =>
          cases quoted : quoteByte c with
          | nil => simp [quoted] at short
          | cons b more =>
            rw [List.flatMap_cons, quoted]
            exact Nat.succ_lt_succ (Nat.succ_pos _)
    · rw [List.flatMap_cons, List.take_append, List.take_of_length_le (by omega),
        dequote_quoteByte, List.length_cons, List.length_cons]
      exact Nat.succ_lt_succ (ih (by omega))

structure Fits (limit : Nat) (v : Bytes) : Prop where
  noNul : (0 : UInt8) ∉ v
  noNewline : newline ∉ v
  short : v.length ≤ limit

theorem Fits.mono {limit limit' : Nat} {v : Bytes} (fits : Fits limit v) (le : limit ≤ limit') :
    Fits limit' v := ⟨fits.noNul, fits.noNewline, fits.short.trans le⟩

theorem fits_quoted {limit : Nat} {s : Bytes} (short : (s.flatMap quoteByte).length ≤ limit) :
    Fits limit (s.flatMap quoteByte) :=
  ⟨fun member => absurd (quoted_plain s member) (by decide),
    fun member => absurd (quoted_plain s member) (by decide), short⟩

private theorem xstrdup_plain {v : Bytes} (noNul : (0 : UInt8) ∉ v) (noNewline : newline ∉ v) :
    xstrdup v = v := by
  have whole : constData v = v := (constData_eq_iff v).mpr noNul
  rw [xstrdup, whole]
  refine if_neg fun last => noNewline ?_
  exact List.mem_of_getLast? last

theorem xstrdup_line {v : Bytes} (noNul : (0 : UInt8) ∉ v) :
    xstrdup (v ++ [newline]) = v := by
  have whole : constData (v ++ [newline]) = v ++ [newline] := by
    rw [constData_eq_iff, List.mem_append]
    rintro (member | last)
    · exact noNul member
    · exact absurd (List.mem_singleton.mp last) (by decide)
  rw [xstrdup, whole, if_pos (by simp), List.dropLast_concat]

theorem fgets_of_fits {v : Bytes} (fits : Fits (BUFSIZE - 2) v) (later : Bytes) :
    fgets (v ++ newline :: later) = some (v ++ [newline], later) := by
  have more : v ++ newline :: later ≠ [] := by simp
  have size : BUFSIZE = 8192 := rfl
  have short := fits.short
  rw [fgets, if_neg more, nextLine_of_fits fits.noNewline (by omega)]

theorem readParam_of_fits {v : Bytes} (fits : Fits (BUFSIZE - 2) v) (later : Bytes) :
    readParam (v ++ newline :: later) = some (v, later) := by
  rw [readParam, fgets_of_fits fits]
  exact congrArg (fun value => some (value, later)) (xstrdup_line fits.noNul)

theorem readParam_of_long {v : Bytes} (noNul : (0 : UInt8) ∉ v) (noNewline : newline ∉ v)
    (long : BUFSIZE - 1 ≤ v.length) (later : Bytes) :
    readParam (v ++ later) = some (v.take (BUFSIZE - 1), v.drop (BUFSIZE - 1) ++ later) := by
  have size : BUFSIZE = 8192 := rfl
  have more : v ++ later ≠ [] := by
    intro nothing
    rw [(List.append_eq_nil_iff.mp nothing).1, List.length_nil] at long
    omega
  have same : xstrdup (v.take (BUFSIZE - 1)) = v.take (BUFSIZE - 1) :=
    xstrdup_plain (fun member => noNul (List.mem_of_mem_take member))
      (fun member => noNewline (List.mem_of_mem_take member))
  rw [readParam, fgets, if_neg more, nextLine_of_long noNewline long]
  exact congrArg (fun value => some (value, v.drop (BUFSIZE - 1) ++ later)) same

private theorem newline_last {buf dst : Bytes} (front : dst <+: buf)
    (free : newline ∉ buf.dropLast) :
    newline ∉ dst.dropLast ∧ (newline ∈ dst → dst.getLast? = some newline) := by
  obtain ⟨later, rfl⟩ := front
  have before : newline ∉ dst.dropLast := by
    intro member
    apply free
    cases later with
    | nil => rwa [List.append_nil]
    | cons c later =>
      rw [List.dropLast_append_of_ne_nil (List.cons_ne_nil c later)]
      exact List.mem_append_left _ (List.mem_of_mem_dropLast member)
  refine ⟨before, fun member => ?_⟩
  have more : dst ≠ [] := List.ne_nil_of_mem member
  rw [← List.dropLast_append_getLast more, List.mem_append] at member
  rcases member with early | last
  · exact absurd early before
  · rw [List.getLast?_eq_some_getLast more, ← List.mem_singleton.mp last]

theorem readParam_plain {input value left : Bytes}
    (read : readParam input = some (value, left)) : (0 : UInt8) ∉ value ∧ newline ∉ value := by
  rw [readParam, fgets] at read
  split_ifs at read
  · cases read
  · cases read
    have free : newline ∉ (nextLine newline (BUFSIZE - 1) input).1.dropLast := free_of_nextLine
    generalize (nextLine newline (BUFSIZE - 1) input).1 = buf at free
    have noNul : (0 : UInt8) ∉ constData buf := by
      intro member
      exact absurd (List.mem_takeWhile_imp member) (by decide)
    obtain ⟨before, last⟩ := newline_last (List.takeWhile_prefix (· ≠ 0)) free
    simp only [xstrdup]
    split_ifs with ends
    · exact ⟨fun member => noNul (List.mem_of_mem_dropLast member), before⟩
    · exact ⟨noNul, fun member => ends (last member)⟩

/-- A value that is read right from the start of a line was sent in one that carries it; and
nothing is left, or the newline alone of a line that is one byte too long. -/
theorem line_of_read {v left : Bytes} (read : readParam (v ++ [newline]) = some (v, left)) :
    Fits (BUFSIZE - 1) v ∧ (Fits (BUFSIZE - 2) v ∧ left = [] ∨ left = [newline]) := by
  obtain ⟨noNul, noNewline⟩ := readParam_plain read
  have size : BUFSIZE = 8192 := rfl
  by_cases short : v.length ≤ BUFSIZE - 2
  · have fits : Fits (BUFSIZE - 2) v := ⟨noNul, noNewline, short⟩
    rw [readParam_of_fits fits] at read
    cases read
    exact ⟨fits.mono (by omega), Or.inl ⟨fits, rfl⟩⟩
  · rw [readParam_of_long noNul noNewline (by omega)] at read
    obtain ⟨same, rfl⟩ := Prod.mk.inj (Option.some.inj read)
    have whole : v.length ≤ BUFSIZE - 1 := by
      rw [← same]
      exact List.length_take_le _ _
    refine ⟨⟨noNul, noNewline, whole⟩, Or.inr ?_⟩
    rw [List.drop_eq_nil_of_le whole]
    rfl

theorem line_of_lag {a v left : Bytes} (fits : Fits (BUFSIZE - 2) a)
    (read : readParam (a ++ newline :: (v ++ [newline])) = some (v, left)) :
    v = a ∧ left = a ++ [newline] := by
  rw [readParam_of_fits fits] at read
  cases read
  exact ⟨rfl, rfl⟩

def exchange : List (Bytes × Bytes) → Bytes → Option (List Bytes)
  | [], _ => some []
  | (name, line) :: fields, input =>
      (readParam (input ++ (line ++ [newline]))).bind fun (value, input) =>
        (exchange fields input).map (used name value :: ·)

/-- What is written for each of `params`, with nothing for the newline at its end. -/
def fields (around : Surroundings) (p : StubProcess) : List (Bytes × Bytes) :=
  params.zip [ascii "ok", around.display, around.displayAuth, p.m_command.flatMap quoteByte,
    stubPath around p, if p.m_XOnly then ascii "no" else ascii "yes", p.m_user,
    setNum p.m_priority, if p.m_scheduler = SchedRealtime then ascii "realtime" else ascii "normal",
    startupId p.env]

theorem writeLine_flatten (line : Bytes) : (writeLine line).flatten = line ++ [newline] := by
  simp only [writeLine]
  split_ifs with empty
  · simp [empty]
  · simp

private theorem answer_of_field (around : Surroundings) (p : StubProcess) {f : Bytes × Bytes}
    (member : f ∈ (fields around p).tail) :
    f.1 ≠ ascii "kdesu_stub" ∧ answer around p f.1 = some (writeLine f.2) := by
  simp only [fields, params, List.map_cons, List.map_nil, List.zip_cons_cons, List.zip_nil_left,
    List.tail_cons, List.mem_cons, List.not_mem_nil, or_false] at member
  rcases member with rfl | rfl | rfl | rfl | rfl | rfl | rfl | rfl | rfl
  all_goals
    refine ⟨?_, rfl⟩
    dsimp only
    decide

private theorem paramLoop_eq_exchange (around : Surroundings) (p : StubProcess)
    {fields : List (Bytes × Bytes)} (known : ∀ f ∈ fields, f.1 ≠ ascii "kdesu_stub" ∧
      answer around p f.1 = some (writeLine f.2)) (input : Bytes) :
    (paramLoop around p (fields.map Prod.fst) .serving input).map
        (fun (values, _) => List.zipWith used (fields.map Prod.fst) values) =
      exchange fields input := by
  induction fields generalizing input with
  | nil => rfl
  | cons f fields ih =>
    obtain ⟨other, answered⟩ := known f List.mem_cons_self
    have later := ih fun g member => known g (List.mem_cons_of_mem f member)
    simp only [List.map_cons, paramLoop, hearStub, answered, writeLine_flatten, other, false_and,
      if_false, exchange]
    cases readParam (input ++ (f.2 ++ [newline])) with
    | none => rfl
    | some r =>
      simp only [Option.bind_some, ← later r.2, Option.map_map]
      rfl

theorem received_eq (around : Surroundings) (p : StubProcess) :
    received around p = exchange (fields around p) [] := by
  have first : readParam (ascii "ok" ++ [newline]) = some (ascii "ok", []) := by decide +kernel
  have later := paramLoop_eq_exchange around p (fun f => answer_of_field around p (f := f)) []
  have names : (fields around p).tail.map Prod.fst = params.tail := rfl
  rw [names] at later
  have heard : hearStub around p false .greeting (some (ascii "kdesu_stub")) =
      (.inl .serving, writeLine (ascii "ok")) := rfl
  have known : params = ascii "kdesu_stub" :: params.tail := rfl
  have fields_eq : fields around p =
      (ascii "kdesu_stub", ascii "ok") :: (fields around p).tail := rfl
  rw [received, fields_eq, exchange, known, paramLoop, heard]
  simp only [writeLine_flatten, List.nil_append, first, Option.bind_some, ← later]
  rw [if_neg (by decide), Option.map_map, Option.map_map]
  rfl

private theorem exchange_of_read {name line input raw left : Bytes}
    (first : readParam (input ++ (line ++ [newline])) = some (raw, left))
    (rest : List (Bytes × Bytes)) :
    exchange ((name, line) :: rest) input = (exchange rest left).map (used name raw :: ·) := by
  rw [exchange, first]
  rfl

private theorem exchange_eq_some {name line input value : Bytes} {fields : List (Bytes × Bytes)}
    {values : List Bytes} (read : exchange ((name, line) :: fields) input =
      some (value :: values)) :
    ∃ raw left, readParam (input ++ (line ++ [newline])) = some (raw, left) ∧
      used name raw = value ∧ exchange fields left = some values := by
  rw [exchange, Option.bind_eq_some_iff] at read
  obtain ⟨⟨raw, left⟩, first, read⟩ := read
  obtain ⟨values', later, same⟩ := Option.map_eq_some_iff.mp read
  obtain ⟨rfl, rfl⟩ := List.cons.inj same
  exact ⟨raw, left, first, rfl, later⟩

section

variable {name v : Bytes} {rest : List (Bytes × Bytes)} {values : List Bytes}
    (raw : name ≠ ascii "command")

include raw

theorem used_raw (value : Bytes) : used name value = value := if_neg raw

theorem raw_lag {a : Bytes} (fits : Fits (BUFSIZE - 2) a)
    (read : exchange ((name, v) :: rest) (a ++ [newline]) = some (v :: values)) :
    v = a ∧ exchange rest (a ++ [newline]) = some values := by
  obtain ⟨value, left, first, same, later⟩ := exchange_eq_some read
  rw [used_raw raw] at same
  subst same
  rw [List.append_assoc, List.singleton_append] at first
  obtain ⟨equal, rfl⟩ := line_of_lag fits first
  exact ⟨equal, later⟩

theorem raw_of_fits (fits : Fits (BUFSIZE - 2) v) :
    exchange ((name, v) :: rest) [] = some (v :: values) ↔ exchange rest [] = some values := by
  rw [exchange_of_read (readParam_of_fits fits []), used_raw raw]
  simp

/-- A value that is sent as it is: it fits, when what comes behind it cannot be read one line
late. -/
theorem raw_iff (noLag : exchange rest [newline] ≠ some values) :
    exchange ((name, v) :: rest) [] = some (v :: values) ↔
      Fits (BUFSIZE - 2) v ∧ exchange rest [] = some values := by
  constructor
  · intro read
    obtain ⟨value, left, first, same, later⟩ := exchange_eq_some read
    rw [used_raw raw] at same
    subst same
    rcases (line_of_read first).2 with ⟨fits, rfl⟩ | rfl
    · exact ⟨fits, later⟩
    · exact absurd later noLag
  · rintro ⟨fits, later⟩
    exact (raw_of_fits raw fits).mpr later

theorem last_iff : exchange [(name, v)] [] = some [v] ↔ Fits (BUFSIZE - 1) v := by
  constructor
  · intro read
    obtain ⟨value, left, first, same, -⟩ := exchange_eq_some read
    rw [used_raw raw] at same
    subst same
    exact (line_of_read first).1
  · intro fits
    have size : BUFSIZE = 8192 := rfl
    by_cases short : v.length ≤ BUFSIZE - 2
    · exact (raw_of_fits raw ⟨fits.noNul, fits.noNewline, short⟩).mpr rfl
    · have whole := fits.short
      have first := readParam_of_long fits.noNul fits.noNewline (by omega) [newline]
      rw [exchange_of_read first, List.take_of_length_le whole, used_raw raw]
      rfl

end

section

variable {command : Bytes} {rest : List (Bytes × Bytes)} {values : List Bytes}
    (noLag : ∀ a, Fits (BUFSIZE - 2) a → exchange rest (a ++ [newline]) ≠ some values)

include noLag

theorem command_iff :
    exchange ((ascii "command", command.flatMap quoteByte) :: rest) [] =
        some (command :: values) ↔
      ((0 : UInt8) ∉ command ∧ (command.flatMap quoteByte).length ≤ BUFSIZE - 2) ∧
        exchange rest [] = some values := by
  have size : BUFSIZE = 8192 := rfl
  constructor
  · intro read
    obtain ⟨value, left, first, same, later⟩ := exchange_eq_some read
    rw [used, if_pos rfl] at same
    rw [List.nil_append] at first
    by_cases short : (command.flatMap quoteByte).length ≤ BUFSIZE - 2
    · rw [readParam_of_fits (fits_quoted short)] at first
      cases first
      rw [dequote_quoted, constData_eq_iff] at same
      exact ⟨⟨same, short⟩, later⟩
    · -- at most one byte is left of the command, and the next value is read late
      have noNul := (fits_quoted (s := command) le_rfl).noNul
      have noNewline := (fits_quoted (s := command) le_rfl).noNewline
      rw [readParam_of_long noNul noNewline (by omega)] at first
      obtain ⟨rfl, rfl⟩ := Prod.mk.inj (Option.some.inj first)
      refine absurd later (noLag _ ⟨?_, ?_, ?_⟩)
      · exact fun member => noNul (List.mem_of_mem_drop member)
      · exact fun member => noNewline (List.mem_of_mem_drop member)
      · have most : (command.flatMap quoteByte).length ≤ BUFSIZE - 1 + 1 := by
          by_contra more
          have lost := dequote_take_lt (s := command) (n := BUFSIZE - 1) (by omega)
          have cut := constData_length_le
            (dequote ((command.flatMap quoteByte).take (BUFSIZE - 1)))
          rw [same] at cut
          omega
        rw [List.length_drop]
        omega
  · rintro ⟨⟨plain, short⟩, later⟩
    rw [exchange_of_read (readParam_of_fits (fits_quoted short) []), later, used, if_pos rfl,
      dequote_quoted, (constData_eq_iff command).mpr plain]
    rfl

theorem command_noLag :
    exchange ((ascii "command", command.flatMap quoteByte) :: rest) [newline] ≠
      some (command :: values) := by
  intro read
  have empty : Fits (BUFSIZE - 2) [] := ⟨by simp, by simp, Nat.zero_le _⟩
  obtain ⟨value, left, first, same, later⟩ := exchange_eq_some read
  have taken := readParam_of_fits empty (command.flatMap quoteByte ++ [newline])
  obtain ⟨rfl, rfl⟩ := Prod.mk.inj (Option.some.inj (taken.symm.trans first))
  obtain rfl : [] = command := same
  exact noLag [] empty later

end

/-- What reaches the stub whole: a line holds no NUL and fits into the buffer, and the command
alone, which is quoted, may hold newlines. -/
structure Sendable (around : Surroundings) (p : StubProcess) : Prop where
  display : Fits (BUFSIZE - 2) around.display
  displayAuth : Fits (BUFSIZE - 2) around.displayAuth
  command : (0 : UInt8) ∉ p.m_command ∧ (p.m_command.flatMap quoteByte).length ≤ BUFSIZE - 2
  path : Fits (BUFSIZE - 2) (stubPath around p)
  user : Fits (BUFSIZE - 2) p.m_user
  startupId : Fits (BUFSIZE - 1) (startupId p.env)

def PriorityKept (p : StubProcess) : Prop := 0 ≤ p.m_priority ∧ p.m_priority ≤ 100

theorem priorityKept_new : PriorityKept .new := ⟨by decide, by decide⟩

theorem priorityKept_setPriority (p : StubProcess) (prio : Int) :
    PriorityKept (p.setPriority prio) := by
  simp only [PriorityKept, StubProcess.setPriority]
  split_ifs <;> omega

theorem fits_priority {n : Int} (kept : 0 ≤ n ∧ n ≤ 100) :
    Fits (BUFSIZE - 2) (setNum n) := by
  have digits : setNum n = decimal n.toNat := if_neg (by omega)
  have small : ∀ k < 101, (decimal k).length ≤ BUFSIZE - 2 := by decide +kernel
  rw [digits]
  refine ⟨fun member => ?_, fun member => ?_, small _ (by omega)⟩
  · exact absurd (decimal_isdigit _ _ member) (by decide)
  · exact absurd (decimal_isdigit _ _ member) (by decide)

private theorem xwindows_differs (only : Bool) {n : Int} (kept : 0 ≤ n ∧ n ≤ 100) :
    (if only then ascii "no" else ascii "yes") ≠ setNum n := by
  have digits : setNum n = decimal n.toNat := if_neg (by omega)
  intro same
  rw [digits] at same
  have all := decimal_isdigit n.toNat
  rw [← same] at all
  cases only
  · exact absurd (all 121 (by decide)) (by decide)
  · exact absurd (all 110 (by decide)) (by decide)

private theorem fits_nil : Fits (BUFSIZE - 2) [] := ⟨by simp, by simp, Nat.zero_le _⟩

theorem fits_xwindows (only : Bool) :
    Fits (BUFSIZE - 2) (if only then ascii "no" else ascii "yes") := by
  cases only <;> exact ⟨by decide, by decide, by decide⟩

theorem fits_scheduler (scheduler : Int) :
    Fits (BUFSIZE - 2)
      (if scheduler = SchedRealtime then ascii "realtime" else ascii "normal") := by
  split_ifs <;> exact ⟨by decide, by decide, by decide⟩

section

variable {rest : List (Bytes × Bytes)} {values : List Bytes}

private theorem priority_noLag {n : Int} (kept : 0 ≤ n ∧ n ≤ 100) :
    exchange ((ascii "priority", setNum n) :: rest) [newline] ≠ some (setNum n :: values) := by
  intro read
  have nothing := (raw_lag (by decide) fits_nil read).1
  have digits : setNum n = decimal n.toNat := if_neg (by omega)
  exact decimal_ne_nil _ (digits.symm.trans nothing)

private theorem xwindows_noLag (only : Bool) :
    exchange ((ascii "xwindows_only", if only then ascii "no" else ascii "yes") :: rest)
      [newline] ≠ some ((if only then ascii "no" else ascii "yes") :: values) := by
  intro read
  have nothing := (raw_lag (by decide) fits_nil read).1
  cases only <;> cases nothing

private theorem path_noLag {path user : Bytes} {only : Bool} {n : Int} (kept : 0 ≤ n ∧ n ≤ 100)
    (a : Bytes) (fits : Fits (BUFSIZE - 2) a) :
    exchange ((ascii "path", path) ::
        (ascii "xwindows_only", if only then ascii "no" else ascii "yes") ::
        (ascii "user", user) :: (ascii "priority", setNum n) :: rest) (a ++ [newline]) ≠
      some (path :: (if only then ascii "no" else ascii "yes") :: user :: setNum n :: values) := by
  intro read
  have later := (raw_lag (by decide) fits read).2
  obtain ⟨first, later⟩ := raw_lag (by decide) fits later
  have later := (raw_lag (by decide) fits later).2
  obtain ⟨last, -⟩ := raw_lag (by decide) fits later
  exact xwindows_differs only kept (first.trans last.symm)

end

/-- The stub uses every parameter as it was meant exactly if all of them are sendable. -/
theorem parameters_received_iff (around : Surroundings) {p : StubProcess}
    (kept : PriorityKept p) : received around p = some (meant around p) ↔ Sendable around p := by
  rw [received_eq]
  simp only [fields, params, meant, List.map_cons, List.map_nil, List.zip_cons_cons,
    List.zip_nil_left]
  rw [raw_of_fits (by decide) ⟨by decide, by decide, by decide⟩,
    raw_iff (by decide) fun read =>
      command_noLag (path_noLag kept) (raw_lag (by decide) fits_nil read).2,
    raw_iff (by decide) (command_noLag (path_noLag kept)),
    command_iff (path_noLag kept),
    raw_iff (by decide) (xwindows_noLag p.m_XOnly),
    raw_of_fits (by decide) (fits_xwindows p.m_XOnly),
    raw_iff (by decide) (priority_noLag kept),
    raw_of_fits (by decide) (fits_priority kept),
    raw_of_fits (by decide) (fits_scheduler p.m_scheduler),
    last_iff (by decide)]
  constructor
  · rintro ⟨display, displayAuth, command, path, user, startup⟩
    exact ⟨display, displayAuth, command, path, user, startup⟩
  · rintro ⟨display, displayAuth, command, path, user, startup⟩
    exact ⟨display, displayAuth, command, path, user, startup⟩

theorem parameters_received_iff_listing :
    received surroundings listing = some (meant surroundings listing) := by
  have kept : PriorityKept listing := priorityKept_new
  refine (parameters_received_iff surroundings kept).mpr ?_
  constructor
  case command => exact ⟨by decide +kernel, by decide +kernel⟩
  all_goals exact ⟨by decide +kernel, by decide +kernel, by decide +kernel⟩

/-- A user with newlines in it gives the priority and the scheduler. -/
theorem user_read_as_priority : ¬∀ around p, PriorityKept p →
    received around p = some (meant around p) := by
  intro always
  have read := always surroundings (listing.setUser (ascii "bob\n90\nrealtime")) priorityKept_new
  exact absurd read (by decide +kernel)

end KDESu.Stub.Parameters
