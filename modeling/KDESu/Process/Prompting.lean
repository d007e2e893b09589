/- KDESu/Process/Prompting
   source: src/suprocess.cpp, src/ptyprocess.cpp
   digest: When converseSU writes the password, over everything that the child may say. -/

import KDESu.Library.Histories
import KDESu.Library.Separators
import KDESu.Process.Conversing

set_option autoImplicit false
set_option relaxedAutoImplicit false

namespace KDESu.Process.Prompting

open KDESu.ByteArrays
open KDESu.Library.Histories
open KDESu.Library.Separators (field_unique)
open KDESu.Process.Launching (constData)
open KDESu.Process.Reading
open KDESu.Process.Conversing

/-- The line has exactly one colon, and only white space behind it. -/
def Prompt (line : Bytes) : Prop :=
  ∃ before after, line = before ++ 58 :: after ∧ (58 : UInt8) ∉ before ∧
    ∀ c ∈ after, isspace c = true

private theorem scanPrompt_append (before after : Bytes) (i j colon : Nat) :
    scanPrompt i (before ++ after) j colon =
      scanPrompt (i + before.length) after (scanPrompt i before j colon).1
        (scanPrompt i before j colon).2 := by
  induction before generalizing i j colon with
  | nil => rfl
  | cons c before ih =>
    have length : i + (c :: before).length = i + 1 + before.length := by
      rw [List.length_cons]
      omega
    rw [length, List.cons_append]
    simp only [scanPrompt]
    split_ifs
    · exact ih _ _ _
    · exact ih _ _ _
    · exact ih _ _ _

private theorem scanPrompt_of_free {line : Bytes} (free : (58 : UInt8) ∉ line) (i j colon : Nat) :
    scanPrompt i line j colon = (j + line.countP (!isspace ·), colon) := by
  induction line generalizing i j with
  | nil => rfl
  | cons c line ih =>
    have other : c ≠ 58 := fun same => free (same ▸ List.mem_cons_self)
    have later := fun j => ih (fun member => free (List.mem_cons_of_mem c member)) (i + 1) j
    simp only [scanPrompt, if_neg other, List.countP_cons]
    split_ifs with visible
    · rw [later]
      exact congrArg (·, colon) (by omega)
    · rw [later]
      rfl

private theorem scanPrompt_colons (line : Bytes) (i j colon : Nat) :
    (scanPrompt i line j colon).2 = colon + line.count 58 := by
  induction line generalizing i j colon with
  | nil => rfl
  | cons c line ih =>
    simp only [scanPrompt]
    split_ifs with here
    · rw [ih, here, List.count_cons_self]
      omega
    · rw [ih, List.count_cons_of_ne here]
    · rw [ih, List.count_cons_of_ne here]

private theorem scanPrompt_le (line : Bytes) {i j : Nat} (behind : j ≤ i) (colon : Nat) :
    (scanPrompt i line j colon).1 ≤ i + line.length := by
  induction line generalizing i j colon with
  | nil => exact behind
  | cons c line ih =>
    have length : i + (c :: line).length = i + 1 + line.length := by
      rw [List.length_cons]
      omega
    rw [length]
    simp only [scanPrompt]
    split_ifs
    · exact ih (Nat.le_succ i) _
    · exact ih (Nat.succ_le_succ behind) _
    · exact ih (Nat.le_succ_of_le behind) _

theorem scanPrompt_fits (line : Bytes) : (scanPrompt 0 (scanned line) 0 0).1 < 2 ^ 32 ∧
    (scanPrompt 0 (scanned line) 0 0).2 < 2 ^ 32 := by
  have size : (scanned line).length < 2 ^ 32 :=
    Nat.lt_of_le_of_lt (List.length_take_le _ _) (Nat.mod_lt _ (by decide))
  have index := scanPrompt_le (scanned line) (Nat.le_refl 0) 0
  have colons : (scanned line).count 58 ≤ (scanned line).length := List.count_le_length
  rw [scanPrompt_colons]
  omega

private theorem scanPrompt_of_one {before after : Bytes} (free : (58 : UInt8) ∉ before)
    (free' : (58 : UInt8) ∉ after) :
    scanPrompt 0 (before ++ 58 :: after) 0 0 = (before.length + after.countP (!isspace ·), 1) := by
  rw [scanPrompt_append, scanPrompt_of_free free, scanPrompt, if_pos rfl, scanPrompt_of_free free',
    Nat.zero_add]

private theorem space_ne_colon {c : UInt8} (space : isspace c = true) : c ≠ 58 := by
  rintro rfl
  cases space

private theorem exists_of_one_colon {line : Bytes} (single : (scanPrompt 0 line 0 0).2 = 1) :
    ∃ before after, line = before ++ 58 :: after ∧ (58 : UInt8) ∉ before ∧
      (58 : UInt8) ∉ after := by
  rw [scanPrompt_colons, Nat.zero_add] at single
  have member : (58 : UInt8) ∈ line := List.count_pos_iff.mp (by omega)
  obtain ⟨before, after, rfl, free⟩ := List.eq_append_cons_of_mem member
  refine ⟨before, after, rfl, free, ?_⟩
  rw [List.count_append, List.count_cons_self, List.count_eq_zero.mpr free] at single
  exact List.count_eq_zero.mp (by omega)

theorem scanPrompt_inside {line : Bytes} (single : (scanPrompt 0 line 0 0).2 = 1) :
    (scanPrompt 0 line 0 0).1 < line.length := by
  obtain ⟨before, after, rfl, free, free'⟩ := exists_of_one_colon single
  have most : after.countP (!isspace ·) ≤ after.length := List.countP_le_length
  rw [scanPrompt_of_one free free', List.length_append, List.length_cons]
  omega

private theorem scanPrompt_matches_iff (seen rest : Bytes) :
    (scanPrompt 0 seen 0 0).2 = 1 ∧ (seen ++ rest)[(scanPrompt 0 seen 0 0).1]? = some 58 ↔
      Prompt seen := by
  constructor
  · rintro ⟨single, found⟩
    obtain ⟨before, after, rfl, free, free'⟩ := exists_of_one_colon single
    refine ⟨before, after, rfl, free, ?_⟩
    rw [scanPrompt_of_one free free', List.append_assoc, List.cons_append,
      List.getElem?_append_right (Nat.le_add_right _ _), Nat.add_sub_cancel_left] at found
    have most : after.countP (!isspace ·) ≤ after.length := List.countP_le_length
    cases visible : after.countP (!isspace ·) with
    | zero =>
      intro c inside
      simpa using List.countP_eq_zero.mp visible c inside
    | succ n =>
      rw [visible] at most
      rw [visible, List.getElem?_cons_succ, List.getElem?_append_left most] at found
      exact absurd (List.mem_of_getElem? found) free'
  · rintro ⟨before, after, rfl, free, blanks⟩
    have free' : (58 : UInt8) ∉ after := fun member => space_ne_colon (blanks _ member) rfl
    have none_visible : after.countP (!isspace ·) = 0 := by
      rw [List.countP_eq_zero]
      exact fun c member => by simp [blanks c member]
    simp [scanPrompt_of_one free free', none_visible]

def unscanned (line : Bytes) : Bytes := line.drop (line.length % 2 ^ 32)

theorem scanned_append_unscanned (line : Bytes) : scanned line ++ unscanned line = line :=
  List.take_append_drop _ line

def overlong (front : Bytes) (c : UInt8) : Bytes := front ++ List.replicate (2 ^ 32) c

theorem scanned_overlong {front : Bytes} (short : front.length < 2 ^ 32) (c : UInt8) :
    scanned (overlong front c) = front ∧
      unscanned (overlong front c) = List.replicate (2 ^ 32) c := by
  have length : (overlong front c).length % 2 ^ 32 = front.length := by
    rw [overlong, List.length_append, List.length_replicate, Nat.add_mod_right,
      Nat.mod_eq_of_lt short]
  exact ⟨by rw [scanned, length, overlong, List.take_left],
    by rw [unscanned, length, overlong, List.drop_left]⟩

theorem unscanned_of_short {line : Bytes} (short : line.length < 2 ^ 32) : unscanned line = [] := by
  rw [unscanned, Nat.mod_eq_of_lt short, List.drop_length]

theorem prompt_iff_of_scanned {line : Bytes} (front : Prompt (scanned line)) :
    Prompt line ↔ ∀ c ∈ unscanned line, isspace c = true := by
  obtain ⟨before, after, split, free, blanks⟩ := front
  have whole : line = before ++ 58 :: (after ++ unscanned line) := by
    rw [← List.cons_append, ← List.append_assoc, ← split, scanned_append_unscanned]
  constructor
  · rintro ⟨before', after', split', free', blanks'⟩
    obtain ⟨-, rfl⟩ := field_unique free free' (whole.symm.trans split')
    exact fun c member => blanks' c (List.mem_append_right _ member)
  · intro rest
    refine ⟨before, _, whole, free, fun c member => ?_⟩
    rcases List.mem_append.mp member with inside | behind
    · exact blanks c inside
    · exact rest c behind

theorem isPrompt_iff (line : Bytes) : isPrompt line = true ↔ Prompt (scanned line) := by
  have whole := scanPrompt_matches_iff (scanned line) (unscanned line)
  rw [scanned_append_unscanned] at whole
  simpa only [isPrompt, Bool.and_eq_true, beq_iff_eq] using whole

theorem overlong_front : Prompt (scanned (overlong (ascii "Password: ") asterisk)) ∧
    ¬∀ c ∈ unscanned (overlong (ascii "Password: ") asterisk), isspace c = true := by
  have short : (ascii "Password: ").length < 2 ^ 32 := by decide
  obtain ⟨front, rest⟩ := scanned_overlong short asterisk
  rw [front, rest]
  have blanks : ∀ c ∈ [(32 : UInt8)], isspace c = true :=
    List.forall_mem_singleton.mpr (by decide)
  refine ⟨⟨ascii "Password", [32], by decide, by decide, blanks⟩, fun white => ?_⟩
  have some_behind : (2 : Nat) ^ 32 ≠ 0 := Nat.ne_of_gt (Nat.two_pow_pos 32)
  exact absurd (white asterisk (List.mem_replicate.mpr ⟨some_behind, rfl⟩)) (by decide)

def suStep (waits : Waits) (password : QByteArray) :
    SuLoop ⊕ SuErrors → QByteArray → (SuLoop ⊕ SuErrors) × List Bytes
  | .inl s, line => hearSU waits password s line
  | .inr ret, _ => (.inr ret, [])

def suStart : SuLoop ⊕ SuErrors := .inl ⟨.WaitForPrompt, 0⟩

section

variable {waits : Waits} {password : QByteArray}

abbrev written (waits : Waits) (password : QByteArray)
    (m : Moment (SuLoop ⊕ SuErrors) QByteArray) : List Bytes :=
  (suStep waits password m.before m.event).2

/-- A turn that hands out the password, as it may: the loop waits for a prompt and has just read
one, no more output waits, `waitSlave` has succeeded, and there is a password. -/
structure HandsOut (waits : Waits) (password : QByteArray)
    (m : Moment (SuLoop ⊕ SuErrors) QByteArray) : Prop where
  prompted : ∃ calls line, m.before = .inl ⟨.WaitForPrompt, calls⟩ ∧ m.event = some line ∧
    Prompt line ∧ waits.waitMS calls ≤ 0
  ready : waits.waitSlave = 0
  bytes : ∃ secret, password = some secret ∧
    written waits password m = [constData secret, [newline]]

/-- A turn that would answer a prompt does not mistake its line: where the front that is looked at
is a prompt, there is only white space behind it. -/
def Unmistaken (waits : Waits) (password : QByteArray)
    (m : Moment (SuLoop ⊕ SuErrors) QByteArray) : Prop :=
  ∀ calls line, m.before = .inl ⟨.WaitForPrompt, calls⟩ → m.event = some line →
    waits.waitMS calls ≤ 0 → waits.waitSlave = 0 → password ≠ none → Prompt (scanned line) →
      ∀ c ∈ unscanned line, isspace c = true

private inductive Turn (waits : Waits) (password : QByteArray) (s : SuLoop) (line : QByteArray) :
    (SuLoop ⊕ SuErrors) × List Bytes → Prop
  | waiting (before : s.state = .WaitForPrompt) (calls : Nat) :
      Turn waits password s line (.inl ⟨.WaitForPrompt, calls⟩, [])
  | writing (before : s.state = .WaitForPrompt) (text secret : Bytes) (heard : line = some text)
      (prompt : isPrompt text = true) (quiet : waits.waitMS s.calls ≤ 0)
      (ready : waits.waitSlave = 0) (given : password = some secret) (calls : Nat) :
      Turn waits password s line (.inl ⟨.CheckStar, calls⟩, [constData secret, [newline]])
  | behind (before : s.state ≠ .WaitForPrompt) (s' : SuLoop) (after : s'.state ≠ .WaitForPrompt) :
      Turn waits password s line (.inl s', [])
  | returning (ret : SuErrors) (late : ret = .notauthorized → s.state ≠ .WaitForPrompt) :
      Turn waits password s line (.inr ret, [])

private theorem turn (waits : Waits) (password : QByteArray) (s : SuLoop)
    (line : QByteArray) :
    Turn waits password s line (hearSU waits password s line) := by
  obtain ⟨state, calls⟩ := s
  have early (ret : SuErrors) (known : ret ≠ .notauthorized) :
      Turn waits password ⟨state, calls⟩ line (.inr ret, []) :=
    .returning ret fun same => absurd same known
  have gone : Turn waits password ⟨state, calls⟩ line
      (.inr (if state = .HandleStub then .notauthorized else .error), []) := by
    split_ifs with handles
    · exact .returning _ fun _ => by simp [handles]
    · exact early _ (by decide)
  cases line with
  | none => exact gone
  | some text =>
    simp only [hearSU]
    by_cases second : contains text [58] = true ∧ state ≠ .WaitForPrompt
    · rw [if_pos second]
      exact gone
    rw [if_neg second]
    by_cases stub : text = ascii "kdesu_stub"
    · rw [if_pos stub]
      exact early _ (by decide)
    rw [if_neg stub]
    cases state with
    | WaitForPrompt =>
      by_cases more : waits.waitMS calls > 0
      · simp only [if_pos more]
        exact .waiting rfl _
      by_cases prompt : isPrompt text = true
      · simp only [if_neg more, if_pos prompt]
        cases password with
        | none => exact early _ (by decide)
        | some secret =>
          by_cases ready : waits.waitSlave = 0
          · simp only [ready, ne_eq, not_true_eq_false, if_false]
            exact .writing rfl text secret rfl prompt (Int.not_lt.mp more) ready rfl _
          · simp only [ready, ne_eq, not_false_eq_true, if_true]
            exact early _ (by decide)
      · simp only [if_neg more, if_neg prompt]
        exact .waiting rfl _
    | CheckStar =>
      simp only
      split_ifs
      · exact .behind (by simp) _ (by simp)
      · exact early _ (by decide)
    | HandleStub => exact .behind (by simp) _ (by simp)

def writes (waits : Waits) (password : QByteArray)
    (past : List (Moment (SuLoop ⊕ SuErrors) QByteArray)) : Nat :=
  past.countP fun m => written waits password m ≠ []

private def Counted (waits : Waits) (password : QByteArray)
    (past : List (Moment (SuLoop ⊕ SuErrors) QByteArray)) : SuLoop ⊕ SuErrors → Prop
  | .inl s => writes waits password past = if s.state = .WaitForPrompt then 0 else 1
  | .inr ret => writes waits password past ≤ 1 ∧
      (ret = .notauthorized → writes waits password past = 1)

private theorem writes_snoc (waits : Waits) (password : QByteArray)
    (past : List (Moment (SuLoop ⊕ SuErrors) QByteArray))
    (m : Moment (SuLoop ⊕ SuErrors) QByteArray) :
    writes waits password (past ++ [m]) =
      writes waits password past + if written waits password m = [] then 0 else 1 := by
  rw [writes, List.countP_append, List.countP_singleton, writes]
  by_cases silent : written waits password m = []
  · simp [silent]
  · simp [silent]

private theorem counted_run (waits : Waits) (password : QByteArray) (lines : List QByteArray) :
    Counted waits password (history (suStep waits password) suStart lines)
      (run (suStep waits password) suStart lines) := by
  refine run_induction (P := Counted waits password) (by rfl) ?_ lines
  intro past s line counted
  have more := writes_snoc waits password past ⟨s, line⟩
  cases s with
  | inr ret =>
    simp only [written, suStep, if_true] at more
    simp only [Counted, more, suStep] at counted ⊢
    exact counted
  | inl s =>
    have turned := turn waits password s line
    simp only [Counted] at counted
    generalize result_eq : hearSU waits password s line = result at turned
    have said : written waits password ⟨.inl s, line⟩ = result.2 := congrArg Prod.snd result_eq
    have next : (suStep waits password (.inl s) line).1 = result.1 := congrArg Prod.fst result_eq
    rw [said] at more
    rw [next]
    cases turned with
    | waiting before calls => simpa [Counted, counted, before] using more
    | writing before => simpa [Counted, counted, before] using more
    | behind before s' after => simpa [Counted, counted, before, after] using more
    | returning ret late =>
      rw [if_pos rfl, counted] at more
      simp only [Counted, more]
      refine ⟨by split_ifs <;> omega, fun refused => by simp [late refused]⟩

private theorem handsOut_of_written {m : Moment (SuLoop ⊕ SuErrors) QByteArray}
    (unmistaken : Unmistaken waits password m) (writes : written waits password m ≠ []) :
    HandsOut waits password m := by
  obtain ⟨before, line⟩ := m
  cases before with
  | inr ret => exact absurd rfl writes
  | inl s =>
    have turned := turn waits password s line
    simp only [written, suStep] at writes
    generalize result_eq : hearSU waits password s line = result at turned
    rw [result_eq] at writes
    cases turned with
    | waiting | behind | returning => exact absurd rfl writes
    | writing before text secret heard prompt quiet ready given calls =>
      obtain ⟨state, asked⟩ := s
      obtain rfl : state = .WaitForPrompt := before
      have front := (isPrompt_iff text).mp prompt
      have rest := unmistaken asked text rfl heard quiet ready (by simp [given]) front
      exact ⟨⟨asked, text, rfl, heard, (prompt_iff_of_scanned front).mpr rest, quiet⟩, ready,
        secret, given, congrArg Prod.snd result_eq⟩

private theorem unmistaken_of_handsOut {m : Moment (SuLoop ⊕ SuErrors) QByteArray}
    (hands : written waits password m ≠ [] → HandsOut waits password m) :
    Unmistaken waits password m := by
  intro calls line waiting heard quiet ready given front
  obtain ⟨before, event⟩ := m
  obtain rfl : before = .inl ⟨.WaitForPrompt, calls⟩ := waiting
  obtain rfl : event = some line := heard
  obtain ⟨secret, rfl⟩ := Option.ne_none_iff_exists'.mp given
  have other : line ≠ ascii "kdesu_stub" := by
    rintro rfl
    obtain ⟨before, after, split, -, -⟩ := front
    have member : (58 : UInt8) ∈ scanned (ascii "kdesu_stub") :=
      split ▸ List.mem_append_right _ List.mem_cons_self
    exact absurd (List.mem_of_mem_take member) (by decide)
  have writes : written waits (some secret) ⟨.inl ⟨.WaitForPrompt, calls⟩, some line⟩ ≠ [] := by
    simp [written, suStep, hearSU, other, Int.not_lt.mpr quiet, (isPrompt_iff line).mpr front,
      ready]
  obtain ⟨calls', line', -, heard, whole, -⟩ := (hands writes).prompted
  cases heard
  exact (prompt_iff_of_scanned front).mp whole

end

/-- What holds of the loop on a sequence of readLine results. -/
structure SafeTalk (waits : Waits) (password : QByteArray) (lines : List QByteArray) : Prop where
  once : writes waits password (history (suStep waits password) suStart lines) ≤ 1
  handsOut : ∀ m ∈ history (suStep waits password) suStart lines,
    written waits password m ≠ [] → HandsOut waits password m
  refused : run (suStep waits password) suStart lines = .inr .notauthorized →
    writes waits password (history (suStep waits password) suStart lines) = 1
  stub : ∀ m ∈ history (suStep waits password) suStart lines, m.before.isLeft →
    ((suStep waits password m.before m.event).1 = .inr .ok ↔
      m.event = some (ascii "kdesu_stub"))

theorem safeTalk_iff (waits : Waits) (password : QByteArray) (lines : List QByteArray) :
    SafeTalk waits password lines ↔
      ∀ m ∈ history (suStep waits password) suStart lines, Unmistaken waits password m := by
  have counted := counted_run waits password lines
  constructor
  · exact fun safe m member => unmistaken_of_handsOut (safe.handsOut m member)
  intro unmistaken
  constructor
  case once =>
    cases final : run (suStep waits password) suStart lines with
    | inl s =>
      rw [final, Counted] at counted
      rw [counted]
      split_ifs <;> omega
    | inr ret =>
      rw [final] at counted
      exact counted.1
  case handsOut => exact fun m member => handsOut_of_written (unmistaken m member)
  case refused =>
    intro final
    rw [final] at counted
    exact counted.2 rfl
  case stub =>
    rintro ⟨before, line⟩ - running
    cases before with
    | inl s => exact hearSU_ok_iff waits password s line
    | inr ret => cases running

theorem safeTalk_of_short {waits : Waits} {password : QByteArray} {lines : List QByteArray}
    (short : ∀ line, some line ∈ lines → line.length < 2 ^ 32) :
    SafeTalk waits password lines := by
  refine (safeTalk_iff waits password lines).mpr ?_
  intro m member calls line waiting heard quiet ready given front c inside
  obtain ⟨pre, e, post, rfl, rfl⟩ := mem_history member
  obtain rfl : e = some line := heard
  rw [unscanned_of_short (short line (List.mem_append_right _ List.mem_cons_self))] at inside
  cases inside

private theorem run_of_follow {waits : Waits} {password : QByteArray} {lines : List Bytes}
    {s : SuLoop} {ret : SuErrors} {said : List Bytes}
    (followed : follow (hearSU waits password) s lines = some (ret, said)) :
    run (suStep waits password) (.inl s) (lines.map some ++ [none]) = .inr ret ∧
      (outputs (suStep waits password) (.inl s) (lines.map some ++ [none])).flatten = said := by
  have returned (lines : List QByteArray) :
      run (suStep waits password) (.inr ret) lines = .inr ret ∧
        (outputs (suStep waits password) (.inr ret) lines).flatten = [] := by
    induction lines with
    | nil => exact ⟨rfl, rfl⟩
    | cons line lines ih => exact ih
  induction lines generalizing s said with
  | nil =>
    rcases heard : hearSU waits password s none with ⟨s' | ret', now⟩
    · simp only [follow, heard] at followed
      cases followed
    · simp only [follow, heard, Option.some.injEq, Prod.mk.injEq] at followed
      obtain ⟨rfl, rfl⟩ := followed
      simp only [List.map_nil, List.nil_append, run, outputs, suStep, heard]
      exact ⟨trivial, by simp⟩
  | cons line lines ih =>
    rcases heard : hearSU waits password s (some line) with ⟨s' | ret', now⟩
    · simp only [follow, heard, Option.map_eq_some_iff, Prod.exists] at followed
      obtain ⟨_, later, rest, equal⟩ := followed
      cases equal
      obtain ⟨final, pieces⟩ := ih rest
      simp only [List.map_cons, List.cons_append, run, outputs, suStep, heard, List.flatten_cons]
      exact ⟨final, by rw [pieces]⟩
    · simp only [follow, heard, Option.some.injEq, Prod.mk.injEq] at followed
      obtain ⟨rfl, rfl⟩ := followed
      obtain ⟨final, pieces⟩ := returned (lines.map some ++ [none])
      simp only [List.map_cons, List.cons_append, run, outputs, suStep, heard, List.flatten_cons]
      exact ⟨final, by rw [pieces, List.append_nil]⟩

theorem readLine_unreadLine {line : Bytes} (free : newline ∉ line)
    (short : line.length + 1 < 2 ^ 31) (p : Pty) (block : Bool) :
    ((p.unreadLine line).readLine block).1 = some line := by
  simp only [Pty.readLine, Pty.readAll, Pty.unreadLine, List.append_assoc, List.cons_append,
    cutLine_of_line free short]

/-- What `converseSU` does is what the loop does on the lines of the pty and its end, and where it
returns `ok`, the next line is the stub's again. -/
private theorem run_of_converseSU {waits : Waits} {password : QByteArray} {pty left : Pty}
    {ret : SuErrors} {said : List Bytes}
    (returns : converseSU waits password pty = some (ret, said, left)) :
    run (suStep waits password) suStart (pty.lines.map some ++ [none]) = .inr ret ∧
      (outputs (suStep waits password) suStart (pty.lines.map some ++ [none])).flatten = said ∧
      (ret = .ok → ∀ block, (left.readLine block).1 = some (ascii "kdesu_stub")) := by
  obtain ⟨final, pieces⟩ := run_of_follow (follow_of_converseSU returns)
  refine ⟨final, pieces, ?_⟩
  rintro rfl block
  obtain ⟨⟨ret, said', behind⟩, -, equal⟩ := Option.map_eq_some_iff.mp returns
  cases equal
  rw [if_pos rfl]
  exact readLine_unreadLine (by decide) (by decide) behind block

/-- `converseSU` hands out the password safely on a sequence of readLine results exactly if it
mistakes no line for a prompt; on every pty on which `readLine` does not get stuck it returns, and
wherever it returns, it is after some such sequence, and what it puts back is the next line. -/
theorem converseSU_hands_out_safely (waits : Waits) (password : QByteArray) :
    (∀ lines, SafeTalk waits password lines ↔
      ∀ m ∈ history (suStep waits password) suStart lines, Unmistaken waits password m) ∧
    (∀ pty, NeverStuck pty → (converseSU waits password pty).isSome) ∧
    ∀ pty ret said left, converseSU waits password pty = some (ret, said, left) →
      run (suStep waits password) suStart (pty.lines.map some ++ [none]) = .inr ret ∧
      (outputs (suStep waits password) suStart (pty.lines.map some ++ [none])).flatten = said ∧
      (ret = .ok → ∀ block, (left.readLine block).1 = some (ascii "kdesu_stub")) :=
  ⟨safeTalk_iff waits password, fun _ => converseSU_isSome waits password,
    fun _ _ _ _ => run_of_converseSU⟩

theorem converseSU_hands_out_safely_granted :
    ∃ said left, converseSU ⟨fun _ => 0, 0⟩ (some (ascii "secret"))
        (.new [ascii "Password: ", ascii "\nkdesu_stub\n"]) = some (.ok, said, left) ∧
      ∀ block, (left.readLine block).1 = some (ascii "kdesu_stub") := by
  have safely := converseSU_hands_out_safely ⟨fun _ => 0, 0⟩ (some (ascii "secret"))
  have returns : converseSU ⟨fun _ => 0, 0⟩ (some (ascii "secret"))
      (.new [ascii "Password: ", ascii "\nkdesu_stub\n"]) =
        some (.ok, [ascii "secret", [newline]], ⟨ascii "kdesu_stub\n", []⟩) := by
    decide +kernel
  exact ⟨_, _, returns, (safely.2.2 _ _ _ _ returns).2.2 rfl⟩

/-- The password follows a line that has more than white space behind its colon. -/
theorem overlong_line_answered : ¬∀ waits password lines, SafeTalk waits password lines := by
  intro safe
  have safe := safe ⟨fun _ => 0, 0⟩ (some (ascii "secret"))
    [some (overlong (ascii "Password: ") asterisk)]
  obtain ⟨front, visible⟩ := overlong_front
  exact visible ((safeTalk_iff _ _ _).mp safe _ List.mem_cons_self 0 _ rfl rfl (Int.le_refl 0) rfl
    (by simp) front)

end KDESu.Process.Prompting
