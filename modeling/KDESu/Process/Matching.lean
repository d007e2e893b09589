/- KDESu/Process/Matching
   source: src/suprocess.cpp, src/sshprocess.cpp
   digest: The pattern of a prompt, and the lines that both conversations match with it. -/

import KDESu.Process.Prompting
import KDESu.Process.Remote

set_option autoImplicit false
set_option relaxedAutoImplicit false

namespace KDESu.Process.Matching

open KDESu.ByteArrays
open KDESu.Library.Separators (field_unique)
open KDESu.Process.Conversing
open KDESu.Process.Prompting
open KDESu.Process.Remote

/-- Both loops accept a line exactly if it is a prompt, and read it inside. An accepted line makes
`converseSU`, with no more output waiting, return `killme` or answer, and it makes `converseSsh`
return `SshNeedsPassword` or answer. -/
structure Matched (line : Bytes) : Prop where
  su : ∀ waits calls, waits.waitMS calls ≤ 0 →
    ((hearSU waits none ⟨.WaitForPrompt, calls⟩ (some line)).1 = .inr .killme ↔ Prompt line)
  suAnswers : ∀ waits calls secret, waits.waitMS calls ≤ 0 → waits.waitSlave = 0 →
    ((hearSU waits (some secret) ⟨.WaitForPrompt, calls⟩ (some line)).2 ≠ [] ↔ Prompt line)
  ssh : ∀ terminal waitSlave password texts,
    (∃ texts', (hearSsh terminal waitSlave password 2 ⟨0, texts⟩ (some line)).1 =
      .inr (.needsPassword, texts')) ↔ Prompt line
  sshAnswers : ∀ terminal password check texts, check ≠ 2 →
    ((hearSsh terminal 0 password check ⟨0, texts⟩ (some line)).2 ≠ [] ↔ Prompt line)
  inside : (scanPrompt 0 (scanned line) 0 0).2 = 1 →
    (scanPrompt 0 (scanned line) 0 0).1 < line.length

private theorem stub_not_prompt : isPrompt (ascii "kdesu_stub") = false := by decide +kernel

theorem hearSU_killme_iff {waits : Waits} {calls : Nat} (quiet : waits.waitMS calls ≤ 0)
    (line : Bytes) : (hearSU waits none ⟨.WaitForPrompt, calls⟩ (some line)).1 = .inr .killme ↔
      isPrompt line = true := by
  by_cases stub : line = ascii "kdesu_stub"
  · simp [hearSU, stub, stub_not_prompt]
  · by_cases prompt : isPrompt line = true
    · simp [hearSU, stub, Int.not_lt.mpr quiet, prompt]
    · simp [hearSU, stub, Int.not_lt.mpr quiet, prompt]

theorem hearSU_writes_iff {waits : Waits} {calls : Nat} (quiet : waits.waitMS calls ≤ 0)
    (ready : waits.waitSlave = 0) (secret line : Bytes) :
    (hearSU waits (some secret) ⟨.WaitForPrompt, calls⟩ (some line)).2 ≠ [] ↔
      isPrompt line = true := by
  by_cases stub : line = ascii "kdesu_stub"
  · simp [hearSU, stub, stub_not_prompt]
  · by_cases prompt : isPrompt line = true
    · simp [hearSU, stub, Int.not_lt.mpr quiet, prompt, ready]
    · simp [hearSU, stub, Int.not_lt.mpr quiet, prompt]

theorem hearSsh_needs_iff (terminal : Bool) (waitSlave : Int) (password : Bytes)
    (texts : SshTexts) (line : Bytes) :
    (∃ texts', (hearSsh terminal waitSlave password 2 ⟨0, texts⟩ (some line)).1 =
      .inr (.needsPassword, texts')) ↔ isPrompt line = true := by
  by_cases stub : line = ascii "kdesu_stub"
  · simp [hearSsh, stub, stub_not_prompt]
  · by_cases prompt : isPrompt line = true
    · simp [hearSsh, stub, prompt]
    · simp [hearSsh, stub, prompt]

theorem hearSsh_writes_iff (terminal : Bool) (password : Bytes) {check : Int} (answers : check ≠ 2)
    (texts : SshTexts) (line : Bytes) :
    (hearSsh terminal 0 password check ⟨0, texts⟩ (some line)).2 ≠ [] ↔ isPrompt line = true := by
  by_cases stub : line = ascii "kdesu_stub"
  · simp [hearSsh, stub, stub_not_prompt]
  · by_cases prompt : isPrompt line = true
    · simp [hearSsh, stub, prompt, answers]
    · simp [hearSsh, stub, prompt]

private theorem matched_iff_isPrompt (line : Bytes) :
    Matched line ↔ (isPrompt line = true ↔ Prompt line) := by
  constructor
  · intro matched
    have quiet : (⟨fun _ => 0, 0⟩ : Waits).waitMS 0 ≤ 0 := Int.le_refl 0
    exact (hearSU_killme_iff quiet line).symm.trans (matched.su _ 0 quiet)
  · intro same
    constructor
    case su => exact fun waits calls quiet => (hearSU_killme_iff quiet line).trans same
    case suAnswers =>
      exact fun waits calls secret quiet ready =>
        (hearSU_writes_iff quiet ready secret line).trans same
    case ssh =>
      exact fun terminal waitSlave password texts =>
        (hearSsh_needs_iff terminal waitSlave password texts line).trans same
    case sshAnswers =>
      exact fun terminal password check texts answers =>
        (hearSsh_writes_iff terminal password answers texts line).trans same
    case inside =>
      exact fun single => Nat.lt_of_lt_of_le (scanPrompt_inside single) (List.length_take_le' _ _)

private theorem scanned_prompt_iff (line : Bytes) : (Prompt (scanned line) ↔ Prompt line) ↔
    (Prompt (scanned line) → ∀ c ∈ unscanned line, isspace c = true) ∧
      ((58 : UInt8) ∉ scanned line → ¬Prompt (unscanned line)) := by
  have whole := scanned_append_unscanned line
  constructor
  · intro same
    refine ⟨fun front => (prompt_iff_of_scanned front).mp (same.mp front), ?_⟩
    rintro free ⟨before, after, split, free', blanks⟩
    have prompt : Prompt line := by
      refine ⟨scanned line ++ before, after, ?_, ?_, blanks⟩
      · rw [List.append_assoc, ← split, whole]
      · exact fun member => (List.mem_append.mp member).elim free free'
    obtain ⟨before', after', front, -, -⟩ := same.mpr prompt
    exact free (front ▸ List.mem_append_right _ List.mem_cons_self)
  · rintro ⟨white, absent⟩
    refine ⟨fun front => (prompt_iff_of_scanned front).mpr (white front), ?_⟩
    rintro ⟨before, after, split, free, blanks⟩
    by_cases front : (58 : UInt8) ∈ scanned line
    · obtain ⟨before', after', inner, free'⟩ := List.eq_append_cons_of_mem front
      have same : before ++ 58 :: after = before' ++ 58 :: (after' ++ unscanned line) := by
        rw [← split, ← List.cons_append, ← List.append_assoc, ← inner, whole]
      obtain ⟨rfl, rfl⟩ := field_unique free free' same
      exact ⟨before, after', inner, free, fun c member => blanks c (List.mem_append_left _ member)⟩
    · have behind : (58 : UInt8) ∈ unscanned line := by
        have member : (58 : UInt8) ∈ scanned line ++ unscanned line := by
          rw [whole, split]
          exact List.mem_append_right _ List.mem_cons_self
        exact (List.mem_append.mp member).resolve_left front
      obtain ⟨before', after', inner, free'⟩ := List.eq_append_cons_of_mem behind
      have same : before ++ 58 :: after = (scanned line ++ before') ++ 58 :: after' := by
        rw [← split, List.append_assoc, ← inner, whole]
      obtain ⟨rfl, rfl⟩ := field_unique free
        (fun member => (List.mem_append.mp member).elim front free') same
      exact absurd ⟨before', after, inner, free', blanks⟩ (absent front)

/-- A line is matched exactly if what is not looked at makes no difference: it is white space
behind a prompt, and no prompt behind a front without a colon. -/
theorem prompt_matched_iff (line : Bytes) :
    Matched line ↔ (Prompt (scanned line) → ∀ c ∈ unscanned line, isspace c = true) ∧
      ((58 : UInt8) ∉ scanned line → ¬Prompt (unscanned line)) := by
  rw [matched_iff_isPrompt, isPrompt_iff, scanned_prompt_iff]

theorem matched_of_short {line : Bytes} (short : line.length < 2 ^ 32) : Matched line := by
  have all : scanned line = line := by
    have whole := scanned_append_unscanned line
    rwa [unscanned_of_short short, List.append_nil] at whole
  rw [matched_iff_isPrompt, isPrompt_iff, all]

/-- A prompt with 2^32 asterisks behind it is accepted. -/
theorem overlong_line_matched : ¬∀ line, Matched line := by
  intro matched
  obtain ⟨front, visible⟩ := overlong_front
  have same := (matched_iff_isPrompt _).mp (matched (overlong (ascii "Password: ") asterisk))
  exact visible ((prompt_iff_of_scanned front).mp (same.mp ((isPrompt_iff _).mpr front)))

end KDESu.Process.Matching
