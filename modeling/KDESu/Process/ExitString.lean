/- KDESu/Process/ExitString
   source: src/ptyprocess.cpp
   digest: The exit string in the output of a child, however the reads cut it. -/

import KDESu.Library.LineStarts
import KDESu.Process.Waiting

set_option autoImplicit false
set_option relaxedAutoImplicit false

namespace KDESu.Process.ExitString

open KDESu.ByteArrays
open KDESu.Library.Histories
open KDESu.Library.LineStarts
open KDESu.Process.Waiting

/-- What a move gives to the reading loop of `waitForChild`. -/
def chunk (m : Moment Watch Move) : Bytes :=
  if m.before.phase = .draining then
    match m.event with
    | .read amount => m.before.inputBuffer ++ m.before.pending.take (Watch.taken amount)
    | .readFails => m.before.inputBuffer
    | _ => []
  else []

abbrev chunks (settings : Settings) (inputBuffer : Bytes) (ms : List Move) : Bytes :=
  (past settings inputBuffer ms).flatMap chunk

/-- The scan of a text comes to a line that an int cannot count with its newline, and so far no
line opens with the exit string. -/
def Overlong (exit text : Bytes) : Prop :=
  ∃ front line later, text = front ++ (line ++ newline :: later) ∧
    (front = [] ∨ front.getLast? = some newline) ∧ newline ∉ line ∧ 2 ^ 31 ≤ line.length + 1 ∧
    exit.length ≤ (line ++ newline :: later).length ∧
    ¬OpensLine newline exit (front ++ (line ++ newline :: later).take exit.length)

/-- What a move makes `waitForChild` scan has no line that an int cannot count, as long as it has
not found the exit string. -/
def Fits (settings : Settings) (m : Moment Watch Move) : Prop :=
  m.before.sigterms = 0 → ¬Overlong settings.m_exitString (m.before.remainder ++ chunk m)

section

variable {exit seen : Bytes}

/-- The remainder stands for all that was seen: no line start of it matches, and what comes behind
it matches where it would match behind the whole. -/
structure Remains (exit seen remainder : Bytes) : Prop where
  unmatched : ¬OpensLine newline exit remainder
  later : ∀ more, OpensLine newline exit (seen ++ more) ↔ OpensLine newline exit (remainder ++ more)

theorem Remains.not_seen {remainder : Bytes} (remains : Remains exit seen remainder) :
    ¬OpensLine newline exit seen := by
  have same := remains.later []
  rw [List.append_nil, List.append_nil] at same
  exact fun opens => remains.unmatched (same.mp opens)

theorem not_overlong_of_short {text : Bytes} (short : text.length < 2 ^ 31) :
    ¬Overlong exit text := by
  rintro ⟨front, line, later, rfl, -, -, long, -⟩
  rw [List.length_append, List.length_append, List.length_cons] at short
  omega

section

variable {line : Bytes} (free : newline ∉ line)

include free

private theorem counted_of_first {rest : Bytes} (first : ¬exit <+: line ++ newline :: rest)
    (long : exit.length ≤ (line ++ newline :: rest).length)
    (fits : ¬Overlong exit (line ++ newline :: rest)) : line.length + 1 < 2 ^ 31 := by
  by_contra beyond
  refine fits ⟨[], line, rest, rfl, Or.inl rfl, free, Nat.not_lt.mp beyond, long, fun opens => ?_⟩
  obtain ⟨front, start, within⟩ := opens
  have whole : (front ++ exit).length ≤ exit.length := by
    refine within.length_le.trans ?_
    rw [List.nil_append, List.length_take]
    exact Nat.min_le_left _ _
  have empty : front = [] := by
    rw [List.length_append] at whole
    exact List.length_eq_zero_iff.mp (by omega)
  rw [empty, List.nil_append, List.nil_append] at within
  exact first (within.trans (List.take_prefix _ _))

private theorem fits_behind {rest : Bytes} (first : ¬exit <+: line ++ newline :: rest)
    (fits : ¬Overlong exit (line ++ newline :: rest)) : ¬Overlong exit rest := by
  rintro ⟨front, long, later, rfl, start, free', beyond, enough, unopened⟩
  refine fits ⟨line ++ newline :: front, long, later, by simp, Or.inr ?_, free', beyond, enough, ?_⟩
  · rcases start with rfl | ends
    · exact List.getLast?_concat
    · rw [List.getLast?_append, List.getLast?_cons, ends]
      rfl
  · rw [List.append_assoc, List.cons_append, opensLine_line free]
    rintro (opens | opens)
    · refine first (opens.trans ?_)
      rw [List.prefix_append_right_inj, List.cons_prefix_cons, List.prefix_append_right_inj]
      exact ⟨rfl, List.take_prefix _ _⟩
    · exact unopened opens

/-- The scan goes on behind a line that can be counted and does not open with the exit string. -/
private theorem matchExit_line {rest : Bytes} (first : ¬exit <+: line ++ newline :: rest)
    (long : exit.length ≤ (line ++ newline :: rest).length) (counted : line.length + 1 < 2 ^ 31)
    (fuel : Nat) :
    matchExit exit (fuel + 1) (line ++ newline :: rest) = matchExit exit fuel rest := by
  have off : newlineAt (line ++ newline :: rest) = line.length := by
    rw [newlineAt_of_line free, narrowed_of_fits (by omega) (by omega)]
  have behind : (narrowed ((line.length : Int) + 1)).toNat = line.length + 1 := by
    rw [narrowed_of_fits (by omega) (by omega)]
    omega
  have dropped : (line ++ newline :: rest).drop (line.length + 1) = rest := by
    rw [List.append_cons]
    exact List.drop_left' (by simp)
  have some_off : ¬((line.length : Int) < 0) := by omega
  simp only [matchExit, if_pos long, if_neg first, off, if_neg some_off, behind, dropped,
    Nat.zero_add]

/-- What remains of the lines behind it remains of the whole: enough of the line is there to rule
it out for good. -/
private theorem Remains.of_line {rest remainder : Bytes}
    (first : ¬exit <+: line ++ newline :: rest)
    (long : exit.length ≤ (line ++ newline :: rest).length)
    (remains : Remains exit rest remainder) :
    Remains exit (line ++ newline :: rest) remainder := by
  refine ⟨remains.unmatched, fun more => ?_⟩
  have ruled_out : ¬exit <+: line ++ newline :: (rest ++ more) := by
    intro matches_later
    have whole : line ++ newline :: rest <+: line ++ newline :: (rest ++ more) :=
      ⟨more, by simp⟩
    exact first (List.prefix_of_prefix_length_le matches_later whole long)
  rw [List.append_assoc, List.cons_append, opensLine_line free, ← remains.later more]
  exact or_iff_right ruled_out

end

/-- Where its lines can be counted, the scan kills where the exit string opens a line, or leaves a
remainder. -/
private theorem matchExit_spec (exit : Bytes) {fuel : Nat} {text : Bytes}
    (enough : text.length < fuel) (fits : ¬Overlong exit text) :
    (0 < (matchExit exit fuel text).1 → OpensLine newline exit text) ∧
      ((matchExit exit fuel text).1 = 0 → Remains exit text (matchExit exit fuel text).2) := by
  induction fuel generalizing text with
  | zero => cases enough
  | succ fuel ih =>
    by_cases long : exit.length ≤ text.length
    · by_cases first : exit <+: text
      · refine ⟨fun _ => opensLine_of_starts first, fun none_killed => ?_⟩
        simp only [matchExit, if_pos long, if_pos first] at none_killed
        split_ifs at none_killed
        exact absurd none_killed (by omega)
      · by_cases member : newline ∈ text
        · obtain ⟨line, rest, rfl, free⟩ := List.eq_append_cons_of_mem member
          have shorter : rest.length < fuel := by
            rw [List.length_append, List.length_cons] at enough
            omega
          obtain ⟨found, missed⟩ := ih shorter (fits_behind free first fits)
          rw [matchExit_line free first long (counted_of_first free first long fits)]
          refine ⟨fun kills => ?_, fun spared => (missed spared).of_line free first long⟩
          exact (opensLine_line free rest).mpr (Or.inr (found kills))
        · have none_off : newlineAt text < 0 := by
            rw [newlineAt_of_free member]
            omega
          simp only [matchExit, if_pos long, if_neg first, if_pos none_off]
          refine ⟨fun kills => absurd kills (Nat.lt_irrefl 0), fun _ => ⟨?_, fun _ => Iff.rfl⟩⟩
          rw [opensLine_of_free member]
          exact first
    · simp only [matchExit, if_neg long]
      refine ⟨fun kills => absurd kills (Nat.lt_irrefl 0), fun _ => ⟨?_, fun _ => Iff.rfl⟩⟩
      exact fun opens => long opens.length_le

/-- Until it kills, `waitForChild` has a remainder of all that it has seen. -/
structure Watching (exit seen : Bytes) (w : Watch) : Prop where
  killed : 0 < w.sigterms → OpensLine newline exit seen
  alive : w.sigterms = 0 → Remains exit seen w.remainder

theorem Watching.killed_iff {w : Watch} (watching : Watching exit seen w) :
    0 < w.sigterms ↔ OpensLine newline exit seen := by
  refine ⟨watching.killed, fun opens => ?_⟩
  by_contra spared
  exact (watching.alive (Nat.eq_zero_of_not_pos spared)).not_seen opens

variable {settings : Settings} {w : Watch}

private theorem watching_of_idle (watching : Watching exit seen w) {w' : Watch}
    (remainder : w'.remainder = w.remainder) (sigterms : w'.sigterms = w.sigterms) :
    Watching exit (seen ++ []) w' := by
  rw [List.append_nil]
  exact ⟨by rw [sigterms]; exact watching.killed,
    by rw [sigterms, remainder]; exact watching.alive⟩

private theorem copy_scan (some_exit : settings.m_exitString ≠ []) {output : Bytes}
    (more : output ≠ []) :
    ∃ fuel, (w.remainder ++ output).length < fuel ∧
      (w.copy settings output).sigterms =
        w.sigterms + (matchExit settings.m_exitString fuel (w.remainder ++ output)).1 ∧
      (w.copy settings output).remainder =
        (matchExit settings.m_exitString fuel (w.remainder ++ output)).2 := by
  refine ⟨_, Nat.lt_succ_self _, ?_⟩
  simp only [Watch.copy, if_neg more, if_neg some_exit]
  split_ifs
  · exact ⟨rfl, rfl⟩
  · exact ⟨rfl, rfl⟩

private theorem watching_copy (some_exit : settings.m_exitString ≠ [])
    (watching : Watching settings.m_exitString seen w) (output : Bytes)
    (fits : w.sigterms = 0 → ¬Overlong settings.m_exitString (w.remainder ++ output)) :
    Watching settings.m_exitString (seen ++ output) (w.copy settings output) := by
  by_cases nothing : output = []
  · subst nothing
    exact watching_of_idle watching (by simp [Watch.copy]) (by simp [Watch.copy])
  · obtain ⟨fuel, enough, sigterms, remainder⟩ := copy_scan (w := w) some_exit nothing
    constructor
    case killed =>
      intro kills
      by_cases before : w.sigterms = 0
      · obtain ⟨found, -⟩ := matchExit_spec settings.m_exitString enough (fits before)
        rw [sigterms, before, Nat.zero_add] at kills
        exact ((watching.alive before).later output).mpr (found kills)
      · exact (watching.killed (Nat.pos_of_ne_zero before)).append output
    case alive =>
      intro spared
      rw [sigterms, Nat.add_eq_zero_iff] at spared
      obtain ⟨-, missed⟩ := matchExit_spec settings.m_exitString enough (fits spared.1)
      have remains := missed spared.2
      rw [remainder]
      refine ⟨remains.unmatched, fun more => ?_⟩
      rw [List.append_assoc, (watching.alive spared.1).later, ← List.append_assoc, remains.later]

private theorem chunk_of_idle {m : Move} (out : ¬Turn w m) : chunk ⟨w, m⟩ = [] := by
  cases m with
  | read | readFails => exact if_neg out
  | write | finish | select | wait => exact ite_self _

private theorem watching_step (some_exit : settings.m_exitString ≠ [])
    (watching : Watching settings.m_exitString seen w) (m : Move) (fits : Fits settings ⟨w, m⟩) :
    Watching settings.m_exitString (seen ++ chunk ⟨w, m⟩) (w.step settings m).1 := by
  have moved := moved_step settings w m
  generalize (w.step settings m).1 = w' at moved ⊢
  cases moved with
  | idle out =>
    rw [chunk_of_idle out]
    exact watching_of_idle watching rfl rfl
  | write | finish | ready | timeout | interrupted | failed | runs | reaped | lost =>
    simp only [chunk, ite_self]
    exact watching_of_idle watching rfl rfl
  | read here amount =>
    have left : Watching settings.m_exitString seen
        { w with pending := w.pending.drop (Watch.taken amount) } :=
      ⟨watching.killed, watching.alive⟩
    simp only [Fits, chunk, if_pos here] at fits ⊢
    exact watching_copy some_exit left _ fits
  | readFails here =>
    simp only [Fits, chunk, if_pos here] at fits ⊢
    exact watching_copy some_exit watching _ fits

end

/-- After any moves of a run that fits, a SIGTERM has been sent if and only if the exit string
opens a line of all the chunks so far. -/
theorem exit_string_detected {settings : Settings} (some_exit : settings.m_exitString ≠ [])
    (inputBuffer : Bytes) (ms : List Move)
    (fits : ∀ m ∈ past settings inputBuffer ms, Fits settings m) :
    0 < (after settings inputBuffer ms).sigterms ↔
      OpensLine newline settings.m_exitString (chunks settings inputBuffer ms) := by
  have watching : Watching settings.m_exitString (chunks settings inputBuffer ms)
      (after settings inputBuffer ms) := by
    refine run_induction_under
      (P := fun past w => Watching settings.m_exitString (past.flatMap chunk) w) ?_ ?_ ms fits
    · refine ⟨fun kills => absurd kills (Nat.lt_irrefl 0), fun _ => ⟨?_, fun _ => Iff.rfl⟩⟩
      exact fun opens => some_exit (List.length_eq_zero_iff.mp (Nat.le_zero.mp opens.length_le))
    · intro past w m watching fits
      rw [List.flatMap_append, List.flatMap_singleton]
      exact watching_step some_exit watching m fits
  exact watching.killed_iff

def untilBye : Settings := ⟨false, ascii "bye\nx"⟩

def byeInPieces : List Move :=
  [.write (ascii "goodbye\nx\nbye\nxy"), .select .ready, .read 4, .read 7, .read 2, .read 9]

theorem exit_string_detected_byeInPieces :
    0 < (after untilBye [] byeInPieces).sigterms ∧
      chunks untilBye [] byeInPieces = ascii "goodbye\nx\nbye\nxy" := by
  have some_exit : untilBye.m_exitString ≠ [] := by decide
  have short : ∀ m ∈ past untilBye [] byeInPieces, (m.before.remainder ++ chunk m).length < 32 := by
    decide +kernel
  have fits : ∀ m ∈ past untilBye [] byeInPieces, Fits untilBye m := fun m member _ =>
    not_overlong_of_short (Nat.lt_of_lt_of_le (short m member) (by omega))
  exact ⟨(exit_string_detected some_exit [] byeInPieces fits).mpr
    ⟨ascii "goodbye\nx\n", by decide +kernel, by decide +kernel⟩, by decide +kernel⟩

def bufferOnly : List Move := [.select .ready, .readFails]

private theorem sigterms_bufferOnly {exit inputBuffer : Bytes} (some_exit : exit ≠ [])
    (more : inputBuffer ≠ []) :
    (after ⟨false, exit⟩ inputBuffer bufferOnly).sigterms =
        (matchExit exit (inputBuffer.length + 1) inputBuffer).1 ∧
      chunks ⟨false, exit⟩ inputBuffer bufferOnly = inputBuffer := by
  constructor
  · simp [after, bufferOnly, run, Watch.step, Watch.selected, Watch.start, Watch.copy, some_exit,
      more]
  · simp [chunks, past, bufferOnly, history, chunk, Watch.step, Watch.selected, Watch.start]

private theorem matchExit_stops {exit line later : Bytes} (free : newline ∉ line)
    (first : ¬exit <+: line ++ newline :: later) (high : 2 ^ 31 ≤ line.length % 2 ^ 32)
    (fuel : Nat) : (matchExit exit fuel (line ++ newline :: later)).1 = 0 := by
  have none_off : newlineAt (line ++ newline :: later) < 0 := by
    rw [newlineAt_of_line free, narrowed]
    omega
  cases fuel with
  | zero => rfl
  | succ fuel =>
    simp only [matchExit, if_neg first, if_pos none_off]
    split_ifs
    · rfl
    · rfl

/-- Behind a line of 2^31 bytes the exit string is missed. -/
theorem exit_string_missed : ¬∀ settings inputBuffer ms, settings.m_exitString ≠ [] →
    (0 < (after settings inputBuffer ms).sigterms ↔
      OpensLine newline settings.m_exitString (chunks settings inputBuffer ms)) := by
  intro always
  have some_exit : ascii "bye" ≠ [] := by decide
  obtain ⟨line, long, free, other⟩ : ∃ line : Bytes, line.length = 2 ^ 31 ∧ newline ∉ line ∧
      ¬ascii "bye" <+: line ++ newline :: ascii "bye" := by
    refine ⟨120 :: List.replicate (2 ^ 31 - 1) 120, ?_, fun member => ?_, fun first => ?_⟩
    · rw [List.length_cons, List.length_replicate]
      omega
    · rw [← List.replicate_succ] at member
      exact absurd (List.eq_of_mem_replicate member) (by decide)
    · rw [List.cons_append] at first
      exact absurd (List.cons_prefix_cons.mp first).1 (by decide)
  have found := always ⟨false, ascii "bye"⟩ (line ++ newline :: ascii "bye") bufferOnly some_exit
  obtain ⟨sigterms, seen⟩ := sigterms_bufferOnly some_exit
    (List.append_ne_nil_of_right_ne_nil line (List.cons_ne_nil newline (ascii "bye")))
  rw [sigterms, seen, matchExit_stops free other (by omega)] at found
  have opened : OpensLine newline (ascii "bye") (line ++ newline :: ascii "bye") :=
    (opensLine_line free _).mpr (Or.inr (opensLine_of_starts (List.prefix_refl _)))
  exact absurd (found.mpr opened) (Nat.lt_irrefl 0)

end KDESu.Process.ExitString
