/- KDESu/Process/Reading
   source: src/ptyprocess.cpp
   digest: readAll, readLine and unreadLine over the pieces that the reads of the pty give. -/

import KDESu.ByteArrays
import KDESu.Library.Separators
import Mathlib.Logic.Relation

set_option autoImplicit false
set_option relaxedAutoImplicit false

namespace KDESu.Process.Reading

open KDESu.ByteArrays
open KDESu.Library.Separators

/-- What a PtyProcess has to read: its buffer, and the pieces that its next reads give. An empty
piece is a read that finds nothing yet; behind the last piece the child has closed the pty. -/
structure Pty where
  inputBuffer : Bytes
  reads : List Bytes
  deriving DecidableEq, Repr

/-- `read` on the pty. A blocking one waits until there is something. -/
def read (block : Bool) : List Bytes → Bytes × List Bytes
  | [] => ([], [])
  | [] :: reads => if block then read block reads else ([], reads)
  | piece :: reads => (piece, reads)

namespace Pty

def new (reads : List Bytes) : Pty := ⟨[], reads⟩

/-- `readAll`, which does not block while there is something in the buffer. -/
def readAll (block : Bool) (p : Pty) : Bytes × Pty :=
  let block := block && p.inputBuffer.isEmpty
  let (output, reads) := read block p.reads
  (p.inputBuffer ++ output, ⟨[], reads⟩)

/-- The line that `readLine` takes out of the buffer: null when it is empty, and without a newline
all there is. `pos` is an int, and `left` and `remove` take a negative number for 0. -/
def cutLine (inputBuffer : Bytes) : QByteArray × Bytes :=
  if inputBuffer = [] then (none, [])
  else
    let pos := newlineAt inputBuffer
    if pos = -1 then (some inputBuffer, [])
    else (some (inputBuffer.take pos.toNat), inputBuffer.drop (narrowed (pos + 1)).toNat)

def readLine (block : Bool) (p : Pty) : QByteArray × Pty :=
  let (inputBuffer, p) := p.readAll block
  let (ret, inputBuffer) := cutLine inputBuffer
  (ret, { p with inputBuffer := inputBuffer })

def unreadLine (line : Bytes) (p : Pty) : Pty :=
  { p with inputBuffer := line ++ newline :: p.inputBuffer }

def rest (p : Pty) : Bytes := p.inputBuffer ++ p.reads.flatten

end Pty

theorem read_flatten (block : Bool) (reads : List Bytes) :
    (read block reads).1 ++ (read block reads).2.flatten = reads.flatten := by
  induction reads with
  | nil => rfl
  | cons piece reads ih =>
    cases piece with
    | nil =>
      simp only [read]
      split_ifs
      · exact ih
      · rfl
    | cons c piece => rfl

theorem read_eq_nil {reads : List Bytes} (nothing : (read true reads).1 = []) :
    reads.flatten = [] := by
  induction reads with
  | nil => rfl
  | cons piece reads ih =>
    cases piece with
    | nil => exact ih nothing
    | cons c piece => cases nothing

theorem cutLine_of_free {inputBuffer : Bytes} (free : newline ∉ inputBuffer)
    (more : inputBuffer ≠ []) : Pty.cutLine inputBuffer = (some inputBuffer, []) := by
  simp only [Pty.cutLine, if_neg more, newlineAt_of_free free, if_true]

theorem cutLine_of_line {line : Bytes} (free : newline ∉ line) (short : line.length + 1 < 2 ^ 31)
    (later : Bytes) : Pty.cutLine (line ++ newline :: later) = (some line, later) := by
  have more : line ++ newline :: later ≠ [] := List.append_ne_nil_of_right_ne_nil _ (by simp)
  have dropped : (line ++ newline :: later).drop (line.length + 1) = later := by
    rw [List.append_cons]
    exact List.drop_left' (by simp)
  have pos : newlineAt (line ++ newline :: later) = line.length := by
    rw [newlineAt_of_line free, narrowed_of_fits (by omega) (by omega)]
  have behind : narrowed ((line.length : Int) + 1) = (line.length + 1 : Nat) := by
    rw [narrowed_of_fits (by omega) (by omega), Int.natCast_succ]
  rw [Pty.cutLine, if_neg more, pos, if_neg (by omega), behind, Int.toNat_natCast,
    Int.toNat_natCast, dropped, List.take_left' rfl]

/-- `readLine` finds a newline where an int goes wrong, and leaves the buffer as it is. -/
def Stuck (inputBuffer : Bytes) : Prop :=
  newlineAt inputBuffer < -1 ∨ newlineAt inputBuffer = 2 ^ 31 - 1

instance stuckDecidable (inputBuffer : Bytes) : Decidable (Stuck inputBuffer) :=
  inferInstanceAs (Decidable (_ ∨ _))

theorem Stuck.append {inputBuffer : Bytes} (stuck : Stuck inputBuffer) (later : Bytes) :
    Stuck (inputBuffer ++ later) := by
  have same : newlineAt (inputBuffer ++ later) = newlineAt inputBuffer := by
    by_cases member : newline ∈ inputBuffer
    · obtain ⟨line, rest, rfl, free⟩ := List.eq_append_cons_of_mem member
      rw [List.append_assoc, List.cons_append, newlineAt_of_line free, newlineAt_of_line free]
    · rw [Stuck, newlineAt_of_free member] at stuck
      omega
  rwa [Stuck, same]

theorem cutLine_of_stuck {inputBuffer : Bytes} (stuck : Stuck inputBuffer) :
    Pty.cutLine inputBuffer =
      (some (inputBuffer.take (newlineAt inputBuffer).toNat), inputBuffer) := by
  have bounds := newlineAt_bounds inputBuffer
  have more : inputBuffer ≠ [] := by
    rintro rfl
    exact absurd stuck (by decide)
  have none_removed : (narrowed (newlineAt inputBuffer + 1)).toNat = 0 := by
    rw [Stuck] at stuck
    rw [narrowed]
    omega
  have found : newlineAt inputBuffer ≠ -1 := by
    rw [Stuck] at stuck
    omega
  rw [Pty.cutLine, if_neg more]
  simp only [found, none_removed, if_false, List.drop_zero]

theorem stuck_free_of_short {inputBuffer : Bytes} (short : inputBuffer.length < 2 ^ 31) :
    ¬Stuck inputBuffer := by
  rw [Stuck]
  by_cases member : newline ∈ inputBuffer
  · obtain ⟨line, later, rfl, free⟩ := List.eq_append_cons_of_mem member
    rw [List.length_append, List.length_cons] at short
    rw [newlineAt_of_line free, narrowed_of_fits (by omega) (by omega)]
    omega
  · rw [newlineAt_of_free member]
    omega

theorem cutLine_parts {inputBuffer line left : Bytes}
    (cut : Pty.cutLine inputBuffer = (some line, left)) :
    line <+: inputBuffer ∧ left <:+ inputBuffer ∧
      (¬Stuck inputBuffer → left.length < inputBuffer.length) := by
  by_cases empty : inputBuffer = []
  · rw [Pty.cutLine, if_pos empty] at cut
    cases cut
  · have more := List.length_pos_iff.mpr empty
    simp only [Pty.cutLine, if_neg empty] at cut
    split_ifs at cut with whole
    · cases cut
      exact ⟨List.prefix_refl _, List.nil_suffix, fun _ => more⟩
    · cases cut
      refine ⟨List.take_prefix _ _, List.drop_suffix _ _, fun free => ?_⟩
      have bounds := newlineAt_bounds inputBuffer
      rw [Stuck] at free
      rw [List.length_drop, narrowed_of_fits (by omega) (by omega)]
      omega

theorem readAll_rest (p : Pty) :
    ∃ got reads, p.readAll true = (got, ⟨[], reads⟩) ∧ p.rest = got ++ reads.flatten :=
  ⟨_, _, rfl, by rw [List.append_assoc, read_flatten, Pty.rest]⟩

def Takes (p q : Pty) : Prop := ∃ line, p.readLine true = (some line, q)

/-- No call of `readLine` is stuck, from this pty on. -/
def NeverStuck (p : Pty) : Prop :=
  ∀ q, Relation.ReflTransGen Takes p q → ¬Stuck (q.readAll true).1

section

variable {p p' : Pty} {line : Bytes}

theorem readLine_eq {got : Bytes} {reads : List Bytes} (gives : p.readAll true = (got, ⟨[], reads⟩))
    (taken : p.readLine true = (some line, p')) :
    ∃ left, Pty.cutLine got = (some line, left) ∧ p' = ⟨left, reads⟩ := by
  simp only [Pty.readLine, gives, Prod.mk.injEq] at taken
  exact ⟨(Pty.cutLine got).2, Prod.ext taken.1 rfl, taken.2.symm⟩

variable (taken : p.readLine true = (some line, p'))

include taken

theorem rest_lt_of_taken (free : ¬Stuck (p.readAll true).1) : p'.rest.length < p.rest.length := by
  obtain ⟨got, reads, gives, all⟩ := readAll_rest p
  obtain ⟨left, cut, rfl⟩ := readLine_eq gives taken
  rw [gives] at free
  have shorter := (cutLine_parts cut).2.2 free
  rw [all, Pty.rest, List.length_append, List.length_append]
  exact Nat.add_lt_add_right shorter _

theorem line_infix_of_taken : line <:+: p.rest := by
  obtain ⟨got, reads, gives, all⟩ := readAll_rest p
  obtain ⟨left, cut, rfl⟩ := readLine_eq gives taken
  rw [all]
  exact ((cutLine_parts cut).1.trans (List.prefix_append got _)).isInfix

theorem rest_suffix_of_taken : p'.rest <:+ p.rest := by
  obtain ⟨got, reads, gives, all⟩ := readAll_rest p
  obtain ⟨left, cut, rfl⟩ := readLine_eq gives taken
  obtain ⟨front, rfl⟩ := (cutLine_parts cut).2.1
  exact ⟨front, by rw [all, Pty.rest, List.append_assoc]⟩

theorem NeverStuck.next (free : NeverStuck p) : NeverStuck p' :=
  fun q reached => free q (reached.head ⟨line, taken⟩)

end

theorem NeverStuck.here {p : Pty} (free : NeverStuck p) : ¬Stuck (p.readAll true).1 :=
  free p .refl

theorem neverStuck_of_short {p : Pty} (short : p.rest.length < 2 ^ 31) : NeverStuck p := by
  intro q reached
  have less : q.rest.length ≤ p.rest.length := by
    induction reached with
    | refl => exact Nat.le_refl _
    | tail _ takes ih =>
      obtain ⟨line, taken⟩ := takes
      exact (rest_suffix_of_taken taken).length_le.trans ih
  obtain ⟨got, reads, gives, all⟩ := readAll_rest q
  rw [all, List.length_append] at less
  rw [gives]
  exact stuck_free_of_short (Nat.lt_of_le_of_lt ((Nat.le_add_right _ _).trans less) short)

/-- The lines that readLine gives until there is nothing left. The fuel bounds their number. -/
def linesUpTo : Nat → Pty → List Bytes
  | 0, _ => []
  | fuel + 1, p =>
      match p.readLine true with
      | (none, _) => []
      | (some line, p) => line :: linesUpTo fuel p

def Pty.lines (p : Pty) : List Bytes := linesUpTo (p.rest.length + 1) p

section

variable {σ ρ : Type} (hear : σ → QByteArray → (σ ⊕ ρ) × List Bytes)

/-- A loop that calls `readLine` and does one thing for each line: it goes on in a new state, or
it returns. With its result come the pieces it has written and what is left of the pty. -/
def listenTo : Nat → σ → Pty → Option (ρ × List Bytes × Pty)
  | 0, _, _ => none
  | fuel + 1, s, p =>
      let (line, p) := p.readLine true
      match hear s line with
      | (.inr ret, written) => some (ret, written, p)
      | (.inl s, written) =>
          (listenTo fuel s p).map fun (ret, later, p) => (ret, written ++ later, p)

def follow (s : σ) : List Bytes → Option (ρ × List Bytes)
  | [] =>
      match hear s none with
      | (.inr ret, written) => some (ret, written)
      | (.inl _, _) => none
  | line :: lines =>
      match hear s (some line) with
      | (.inr ret, written) => some (ret, written)
      | (.inl s, written) => (follow s lines).map fun (ret, later) => (ret, written ++ later)

def followUpTo : Nat → σ → List Bytes → Option (ρ × List Bytes)
  | 0, _, _ => none
  | _ + 1, s, [] =>
      match hear s none with
      | (.inr ret, written) => some (ret, written)
      | (.inl _, _) => none
  | fuel + 1, s, line :: lines =>
      match hear s (some line) with
      | (.inr ret, written) => some (ret, written)
      | (.inl s, written) =>
          (followUpTo fuel s lines).map fun (ret, later) => (ret, written ++ later)

variable {hear}

/-- A listener that returns when nothing is left returns, unless `readLine` gets stuck. -/
theorem listenTo_isSome (ends : ∀ s, (hear s none).1.isRight) {fuel : Nat} {p : Pty}
    (free : NeverStuck p) (enough : p.rest.length < fuel) (s : σ) :
    (listenTo hear fuel s p).isSome := by
  induction fuel generalizing s p with
  | zero => omega
  | succ fuel ih =>
    rcases taken : p.readLine true with ⟨line, p'⟩
    rcases heard : hear s line with ⟨s' | ret, written⟩
    · cases line with
      | none =>
        have spent := ends s
        rw [heard] at spent
        cases spent
      | some line =>
        have shorter := rest_lt_of_taken taken free.here
        simp only [listenTo, taken, heard, Option.isSome_map]
        exact ih (free.next taken) (by omega) s'
    · simp only [listenTo, taken, heard, Option.isSome_some]

theorem listenTo_eq_followUpTo (ends : ∀ s, (hear s none).1.isRight) (fuel : Nat) (p : Pty)
    (s : σ) :
    (listenTo hear fuel s p).map (fun r => (r.1, r.2.1)) =
      followUpTo hear fuel s (linesUpTo fuel p) := by
  induction fuel generalizing s p with
  | zero => rfl
  | succ fuel ih =>
    rcases taken : p.readLine true with ⟨line, p'⟩
    cases line with
    | none =>
      rcases heard : hear s none with ⟨s' | ret, written⟩
      · have spent := ends s
        rw [heard] at spent
        cases spent
      · simp only [listenTo, linesUpTo, followUpTo, taken, heard, Option.map_some]
    | some line =>
      rcases heard : hear s (some line) with ⟨s' | ret, written⟩
      · simp only [listenTo, linesUpTo, followUpTo, taken, heard]
        rw [← ih p' s', Option.map_map, Option.map_map]
        rfl
      · simp only [listenTo, linesUpTo, followUpTo, taken, heard, Option.map_some]

theorem follow_of_followUpTo {fuel : Nat} {s : σ} {lines : List Bytes} {r : ρ × List Bytes}
    (followed : followUpTo hear fuel s lines = some r) : follow hear s lines = some r := by
  induction fuel generalizing s lines r with
  | zero => cases followed
  | succ fuel ih =>
    cases lines with
    | nil =>
      rcases heard : hear s none with ⟨s' | ret, written⟩
      · simp only [followUpTo, heard] at followed
        cases followed
      · simpa only [followUpTo, follow, heard] using followed
    | cons line lines =>
      rcases heard : hear s (some line) with ⟨s' | ret, written⟩
      · simp only [followUpTo, heard, Option.map_eq_some_iff] at followed
        obtain ⟨later, rest, equal⟩ := followed
        simp only [follow, heard, ih rest, Option.map_some, equal]
      · simpa only [followUpTo, follow, heard] using followed

theorem follow_of_listenTo (ends : ∀ s, (hear s none).1.isRight) {s : σ} {p left : Pty} {ret : ρ}
    {written : List Bytes}
    (returns : listenTo hear (p.rest.length + 1) s p = some (ret, written, left)) :
    follow hear s p.lines = some (ret, written) := by
  have followed := listenTo_eq_followUpTo ends (p.rest.length + 1) p s
  rw [returns] at followed
  exact follow_of_followUpTo followed.symm

end

def Ended (b : Bytes) : Prop := ∀ c ∈ b.getLast?, c = newline

instance endedDecidable (b : Bytes) : Decidable (Ended b) :=
  inferInstanceAs (Decidable (∀ c ∈ b.getLast?, c = newline))

theorem ended_nil : Ended [] := fun c last => by cases last

theorem Ended.append {b c : Bytes} (left : Ended b) (right : Ended c) : Ended (b ++ c) := by
  intro d last
  rw [List.getLast?_append] at last
  cases ends : c.getLast? with
  | none =>
    rw [ends, Option.none_or] at last
    exact left d last
  | some e =>
    rw [ends, Option.some_or] at last
    exact right d (ends ▸ last)

theorem Ended.of_suffix {b c : Bytes} (ended : Ended (b ++ c)) : Ended c := by
  intro d last
  apply ended d
  rw [List.getLast?_append, last, Option.some_or]
  rfl

theorem Ended.newline_mem {b : Bytes} (ended : Ended b) (more : b ≠ []) : newline ∈ b := by
  have last := List.getLast?_eq_some_getLast more
  have here := ended _ last
  exact here ▸ List.getLast_mem more

structure Pty.AtLineEnds (p : Pty) : Prop where
  buffer : Ended p.inputBuffer
  pieces : ∀ piece ∈ p.reads, Ended piece

private theorem read_ended (block : Bool) {reads : List Bytes}
    (pieces : ∀ piece ∈ reads, Ended piece) :
    Ended (read block reads).1 ∧ ∀ piece ∈ (read block reads).2, Ended piece := by
  induction reads with
  | nil => exact ⟨ended_nil, pieces⟩
  | cons piece reads ih =>
    have later := fun piece member => pieces piece (List.mem_cons_of_mem _ member)
    cases piece with
    | nil =>
      simp only [read]
      split_ifs
      · exact ih later
      · exact ⟨ended_nil, later⟩
    | cons c piece => exact ⟨pieces _ List.mem_cons_self, later⟩

theorem readLine_of_atLineEnds {p : Pty} (ends : p.AtLineEnds) (short : p.rest.length < 2 ^ 31) :
    (p.readLine true).2.AtLineEnds ∧
      (p.rest = [] ∧ (p.readLine true).1 = none ∨
        ∃ line, (p.readLine true).1 = some line ∧ newline ∉ line ∧
          p.rest = line ++ newline :: (p.readLine true).2.rest) := by
  obtain ⟨got, reads, gives, all, ended, pieces⟩ : ∃ got reads,
      p.readAll true = (got, ⟨[], reads⟩) ∧ p.rest = got ++ reads.flatten ∧ Ended got ∧
        ∀ piece ∈ reads, Ended piece := by
    obtain ⟨piece, later⟩ := read_ended (true && p.inputBuffer.isEmpty) ends.pieces
    refine ⟨_, _, rfl, ?_, ends.buffer.append piece, later⟩
    rw [List.append_assoc, read_flatten, Pty.rest]
  by_cases empty : got = []
  · subst empty
    have nothing : p.readLine true = (none, ⟨[], reads⟩) := by
      simp only [Pty.readLine, gives, Pty.cutLine, if_true]
    obtain ⟨bare, none_read⟩ := List.append_eq_nil_iff.mp (congrArg Prod.fst gives)
    rw [bare] at none_read
    have spent : p.rest = [] := by
      rw [Pty.rest, bare, read_eq_nil none_read]
      rfl
    rw [nothing]
    exact ⟨⟨ended, pieces⟩, Or.inl ⟨spent, rfl⟩⟩
  · obtain ⟨line, later, rfl, free⟩ := List.eq_append_cons_of_mem (ended.newline_mem empty)
    have fits : line.length + 1 < 2 ^ 31 := by
      rw [all, List.length_append, List.length_append, List.length_cons] at short
      omega
    have taken : p.readLine true = (some line, ⟨later, reads⟩) := by
      simp only [Pty.readLine, gives, cutLine_of_line free fits]
    rw [taken]
    have suffix : Ended later := by
      rw [List.append_cons] at ended
      exact ended.of_suffix
    refine ⟨⟨suffix, pieces⟩, Or.inr ⟨line, rfl, free, ?_⟩⟩
    rw [all, List.append_assoc]
    rfl

theorem Pty.rest_unreadLine (line : Bytes) (p : Pty) :
    (p.unreadLine line).rest = line ++ newline :: p.rest := by
  simp [Pty.unreadLine, Pty.rest]

theorem Pty.AtLineEnds.unreadLine {p : Pty} (ends : p.AtLineEnds) (line : Bytes) :
    (p.unreadLine line).AtLineEnds where
  buffer := by
    have closed : Ended (line ++ [newline]) := by
      intro c last
      rw [List.getLast?_concat] at last
      exact (Option.some.inj last).symm
    have put_back : (p.unreadLine line).inputBuffer = (line ++ [newline]) ++ p.inputBuffer := by
      simp [Pty.unreadLine]
    rw [put_back]
    exact closed.append ends.buffer
  pieces := ends.pieces

theorem readLine_alike {p q : Pty} (ends : p.AtLineEnds) (ends' : q.AtLineEnds)
    (short : p.rest.length < 2 ^ 31) (same : p.rest = q.rest) :
    (p.readLine true).1 = (q.readLine true).1 ∧
      ((p.readLine true).1 ≠ none → (p.readLine true).2.rest = (q.readLine true).2.rest) := by
  have short' : q.rest.length < 2 ^ 31 := same ▸ short
  obtain ⟨-, ⟨spent, taken⟩ | ⟨line, taken, free, split⟩⟩ := readLine_of_atLineEnds ends short
  · obtain ⟨-, ⟨-, taken'⟩ | ⟨line', -, -, split'⟩⟩ := readLine_of_atLineEnds ends' short'
    · rw [taken, taken']
      exact ⟨rfl, fun some => absurd rfl some⟩
    · rw [← same, spent] at split'
      exact absurd split'.symm (by simp)
  · obtain ⟨-, ⟨spent', -⟩ | ⟨line', taken', free', split'⟩⟩ := readLine_of_atLineEnds ends' short'
    · rw [← same, split] at spent'
      exact absurd spent' (by simp)
    · obtain ⟨rfl, rest⟩ := field_unique free free' (split.symm.trans (same.trans split'))
      rw [taken, taken']
      exact ⟨rfl, fun _ => rest⟩

theorem readLine_step_alike {p q : Pty} (ends : p.AtLineEnds) (ends' : q.AtLineEnds)
    (short : p.rest.length < 2 ^ 31) (same : p.rest = q.rest) :
    ∃ l p' q', p.readLine true = (l, p') ∧ q.readLine true = (l, q') ∧
      p'.AtLineEnds ∧ q'.AtLineEnds ∧
        ∀ line, l = some line → newline ∉ line ∧ p.rest = line ++ newline :: p'.rest ∧
          p'.rest = q'.rest := by
  obtain ⟨line, rest⟩ := readLine_alike ends ends' short same
  obtain ⟨later, taken⟩ := readLine_of_atLineEnds ends short
  refine ⟨(p.readLine true).1, (p.readLine true).2, (q.readLine true).2, rfl,
    Prod.ext line.symm rfl, later, (readLine_of_atLineEnds ends' (same ▸ short)).1, ?_⟩
  intro l here
  rcases taken with ⟨-, nothing⟩ | ⟨l', there, free, split⟩
  · rw [nothing] at here
    cases here
  · obtain rfl := Option.some.inj (here.symm.trans there)
    exact ⟨free, split, rest (by simp [here])⟩

end KDESu.Process.Reading
