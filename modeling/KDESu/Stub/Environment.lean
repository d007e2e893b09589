/- KDESu/Stub/Environment
   source: src/kdesu_stub.c, src/stubprocess.cpp
   digest: Quoted lines on both paths of the stub, and the list of the environment. -/

import KDESu.Stub.Parameters

set_option autoImplicit false
set_option relaxedAutoImplicit false

namespace KDESu.Stub.Environment

open KDESu.ByteArrays
open KDESu.Process.Launching
open KDESu.Process.Conversing
open KDESu.Stub.Parameters

/-- `dequote` on a buffer: it stops at the NUL of the C string, and leaves a C string. -/
def dequoteBuf (buf : Bytes) : Bytes := constData (dequote (constData buf))

def environLine (buf : Bytes) : Bytes := xstrdup (dequoteBuf buf)

/-- The environment loop of `main`: the strings that are given to `putenv`, and what is left of
the input behind the terminator; none at the end of the input. The fuel bounds the lines. -/
def environLoop : Nat → Bytes → Option (List Bytes × Bytes)
  | 0, _ => none
  | fuel + 1, input =>
      (fgets input).bind fun (buf, input) =>
        let tmp := environLine buf
        if tmp = [] then some ([], input)
        else (environLoop fuel input).map fun (vars, left) => (tmp :: vars, left)

def environment (around : Surroundings) (p : StubProcess) : Option (List Bytes × Bytes) :=
  (answer around p (ascii "environment")).bind fun written =>
    environLoop (written.flatten.length + 1) written.flatten

/-- A string that a line carries to the stub. -/
structure Carriable (s : Bytes) : Prop where
  noNul : (0 : UInt8) ∉ s
  fits : (s.flatMap quoteByte).length + 1 ≤ BUFSIZE - 1

theorem Carriable.fits_quoted {s : Bytes} (carriable : Carriable s) :
    Fits (BUFSIZE - 2) (s.flatMap quoteByte) := by
  have fits := carriable.fits
  have size : BUFSIZE = 8192 := rfl
  exact Parameters.fits_quoted (by omega)

theorem writeString_flatten (s : Bytes) :
    (writeString s).flatten = s.flatMap quoteByte ++ [newline] := writeLine_flatten _

section

variable {s : Bytes} (carriable : Carriable s)

include carriable

theorem fgets_writeString (later : Bytes) :
    fgets ((writeString s).flatten ++ later) = some (s.flatMap quoteByte ++ [newline], later) := by
  rw [writeString_flatten, List.append_assoc, List.singleton_append]
  exact fgets_of_fits carriable.fits_quoted later

theorem dequote_xstrdup_line : dequoteBuf (xstrdup (s.flatMap quoteByte ++ [newline])) = s := by
  have plain := carriable.fits_quoted.noNul
  rw [xstrdup_line plain, dequoteBuf, (constData_eq_iff _).mpr plain, dequote_quoted]
  exact (constData_eq_iff s).mpr carriable.noNul

theorem environLine_quoted : environLine (s.flatMap quoteByte ++ [newline]) = s := by
  have ended {v : Bytes} (plain : (0 : UInt8) ∉ v) :
      constData (v ++ [newline]) = v ++ [newline] := by
    rw [constData_eq_iff, List.mem_append, List.mem_singleton]
    rintro (member | last)
    · exact plain member
    · exact absurd last (by decide)
  rw [environLine, dequoteBuf, ended carriable.fits_quoted.noNul, dequote_quoted_append]
  exact (congrArg xstrdup (ended carriable.noNul)).trans (xstrdup_line carriable.noNul)

end

/-- The line of a string without NUL that fits holds no control character before its newline,
`fgets` reads it whole, and the stub turns it back into the string on both of its paths. -/
theorem dequote_undoes_writeString {s : Bytes} (noNul : (0 : UInt8) ∉ s)
    (fits : (s.flatMap quoteByte).length + 1 ≤ BUFSIZE - 1) :
    let line := (writeString s).flatten
    line.getLast? = some newline ∧ (∀ c ∈ line.dropLast, 32 ≤ c) ∧
      (∀ later, fgets (line ++ later) = some (line, later)) ∧
      dequoteBuf (xstrdup line) = s ∧ xstrdup (dequoteBuf line) = s := by
  have carriable : Carriable s := ⟨noNul, fits⟩
  simp only [writeString_flatten, List.getLast?_concat, List.dropLast_concat]
  refine ⟨trivial, fun c => quoted_plain s, fun later => ?_, dequote_xstrdup_line carriable,
    environLine_quoted carriable⟩
  rw [← writeString_flatten, fgets_writeString carriable, writeString_flatten]

def awkward : Bytes := [92, 28, 92, 92, 47, 10, 255, 64, 28, 10]

theorem dequote_undoes_writeString_awkward :
    dequoteBuf (xstrdup (writeString awkward).flatten) = awkward ∧
      xstrdup (dequoteBuf (writeString awkward).flatten) = awkward :=
  (dequote_undoes_writeString (s := awkward) (by decide) (by decide)).2.2.2

def listing (vars : List Bytes) : Bytes := (vars.flatMap writeString).flatten ++ [newline]

theorem listing_cons (s : Bytes) (vars : List Bytes) :
    listing (s :: vars) = (writeString s).flatten ++ listing vars := by
  simp [listing]

theorem answer_environment (around : Surroundings) (p : StubProcess) :
    ∃ written, answer around p (ascii "environment") = some written ∧
      written.flatten = listing p.env := by
  refine ⟨p.env.flatMap writeString ++ writeLine [], rfl, ?_⟩
  rw [List.flatten_append, writeLine_flatten]
  rfl

theorem length_lt_listing (vars : List Bytes) : vars.length < (listing vars).length := by
  induction vars with
  | nil => exact Nat.one_pos
  | cons s vars ih =>
    rw [listing_cons, writeString_flatten, List.length_append, List.length_append,
      List.length_singleton, List.length_cons]
    omega

theorem environLoop_listing {vars : List Bytes} (carriable : ∀ s ∈ vars, Carriable s)
    {fuel : Nat} (enough : vars.length < fuel) :
    ∃ left, environLoop fuel (listing vars) = some (vars.takeWhile (· ≠ []), left) ∧
      ([] ∉ vars → left = []) := by
  induction vars generalizing fuel with
  | nil =>
    obtain ⟨fuel, rfl⟩ := Nat.exists_eq_succ_of_ne_zero (Nat.ne_of_gt enough)
    exact ⟨[], rfl, fun _ => rfl⟩
  | cons s vars ih =>
    obtain ⟨fuel, rfl⟩ := Nat.exists_eq_succ_of_ne_zero (Nat.ne_of_gt (Nat.zero_lt_of_lt enough))
    have first := carriable s List.mem_cons_self
    rw [environLoop, listing_cons, fgets_writeString first, Option.bind_some]
    simp only [environLine_quoted first]
    by_cases empty : s = []
    · subst empty
      exact ⟨listing vars, by simp, fun absent => absurd List.mem_cons_self absent⟩
    · obtain ⟨left, loop, rest⟩ :=
        ih (fun t member => carriable t (List.mem_cons_of_mem s member))
          (Nat.lt_of_succ_lt_succ enough)
      refine ⟨left, ?_, fun absent => rest fun member => absent (List.mem_cons_of_mem s member)⟩
      rw [if_neg empty, loop, List.takeWhile_cons_of_pos (by simpa using empty), Option.map_some]

/-- The stub gives exactly the list to `putenv` and leaves nothing of it in its input if and
only if no string of the list is empty. -/
theorem environment_received_iff (around : Surroundings) {p : StubProcess}
    (noNul : ∀ var ∈ p.env, (0 : UInt8) ∉ var)
    (fits : ∀ var ∈ p.env, (var.flatMap quoteByte).length + 1 ≤ BUFSIZE - 1) :
    environment around p = some (p.env, []) ↔ [] ∉ p.env := by
  obtain ⟨written, answered, flat⟩ := answer_environment around p
  have enough : p.env.length < (listing p.env).length + 1 :=
    (length_lt_listing p.env).trans (Nat.lt_succ_self _)
  obtain ⟨left, loop, rest⟩ :=
    environLoop_listing (fun var member => ⟨noNul var member, fits var member⟩) enough
  rw [environment, answered, Option.bind_some, flat, loop, Option.some.injEq, Prod.mk.injEq,
    List.takeWhile_eq_self_iff]
  constructor
  · rintro ⟨filled, -⟩ member
    exact absurd (filled [] member) (by decide)
  · intro absent
    refine ⟨fun var member => ?_, rest absent⟩
    have filled : var ≠ [] := fun empty => absent (empty ▸ member)
    exact decide_eq_true filled

def withEnv (vars : List Bytes) : StubProcess := { StubProcess.new with env := vars }

theorem environment_received_iff_two :
    environment surroundings (withEnv [ascii "A=1", [10, 66, 61, 92, 10]]) =
      some ([ascii "A=1", [10, 66, 61, 92, 10]], []) :=
  (environment_received_iff surroundings (p := withEnv [ascii "A=1", [10, 66, 61, 92, 10]])
    (by decide) (by decide)).mpr (by decide)

/-- An empty string is read as the terminator: what comes behind it is not put into the
environment, and stays in the input. -/
theorem empty_variable_ends_environment : ¬∀ around (p : StubProcess),
    (∀ var ∈ p.env, (0 : UInt8) ∉ var) →
    (∀ var ∈ p.env, (var.flatMap quoteByte).length + 1 ≤ BUFSIZE - 1) →
    environment around p = some (p.env, []) := by
  intro always
  have received := always surroundings (withEnv [ascii "A=1", [], ascii "B=2"]) (by decide)
    (by decide)
  exact absurd received (by decide +kernel)

end KDESu.Stub.Environment
