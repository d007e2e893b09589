/- KDESu/Process/Erasing
   source: src/suprocess.cpp, src/sshprocess.cpp, src/ptyprocess.h
   digest: When a password that was written to the pty is erased in the caller's buffer. -/

import KDESu.Process.Calling

set_option autoImplicit false
set_option relaxedAutoImplicit false

namespace KDESu.Process.Erasing

open KDESu.ByteArrays
open KDESu.Process.Launching
open KDESu.Process.Reading
open KDESu.Process.Conversing
open KDESu.Process.Executing
open KDESu.Process.Waiting
open KDESu.Process.Remote
open KDESu.Process.Calling

/-- A call that has written the password leaves nothing of it in the buffer. -/
def ErasesUsed (password : CString) (c : Called) : Prop :=
  password.text ∈ c.fed → ∀ b ∈ c.buffer, b = 0

/-- The lines behind the first prompt that is answered, when the lines of the child come with
these results of `waitMS`, call by call. The stub's line ends the search. -/
def behindPrompt (waitMS : Nat → Int) : Nat → List Bytes → Option (List Bytes)
  | _, [] => none
  | calls, line :: lines =>
      if line = ascii "kdesu_stub" then none
      else if waitMS calls ≤ 0 ∧ isPrompt line then some lines
      else behindPrompt waitMS (calls + 1) lines

/-- su goes on behind the password: with the stub's line, or with a line of asterisks or blanks
that has no colon. -/
def SuGoesOn : List Bytes → Prop
  | [] => False
  | line :: _ => line = ascii "kdesu_stub" ∨
      (contains line [58] = false ∧ (trimmed line).all (· = asterisk) = true)

/-- ssh goes on behind the password: with an empty line. -/
def SshGoesOn : List Bytes → Prop
  | [] => False
  | line :: _ => line = []

/-- What the password is written to, if it is: the lines of su behind its prompt. -/
def suAsks (a : Attempt) : Option (List Bytes) :=
  if a.launched ∧ a.waits.waitSlave = 0 then behindPrompt a.waits.waitMS 0 a.pty.lines else none

/-- The same as `suAsks` for ssh, whose lines are not waited for, and with check 2 not answered. -/
def sshAsks (check : Int) (a : SshAttempt) : Option (List Bytes) :=
  if a.launched ∧ a.waitSlave = 0 ∧ check ≠ 2 then behindPrompt (fun _ => 0) 0 a.pty.lines
  else none

section

variable {waits : Waits} {password : Bytes}

private theorem follow_handled (n : Nat) {lines : List Bytes} {ret : SuErrors}
    {fed : List Bytes} (followed : follow (hearSU waits (some password)) ⟨.HandleStub, n⟩ lines =
      some (ret, fed)) : ret ≠ .error ∧ fed = [] := by
  induction lines generalizing fed with
  | nil =>
    cases followed
    exact ⟨SuErrors.noConfusion, rfl⟩
  | cons line lines ih =>
    simp only [follow, hearSU] at followed
    by_cases colon : contains line [58] = true
    · simp only [colon, ne_eq, reduceCtorEq, not_false_eq_true, and_self, if_true] at followed
      cases followed
      exact ⟨SuErrors.noConfusion, rfl⟩
    by_cases stub : line = ascii "kdesu_stub"
    · simp only [stub, if_true] at followed
      cases followed
      exact ⟨SuErrors.noConfusion, rfl⟩
    · simp only [colon, stub, false_and, if_false, Bool.false_eq_true, Option.map_eq_some_iff,
        Prod.exists] at followed
      obtain ⟨ret', fed', later, equal⟩ := followed
      cases equal
      exact ih later

private theorem follow_written (n : Nat) {lines : List Bytes} {ret : SuErrors}
    {fed : List Bytes} (followed : follow (hearSU waits (some password)) ⟨.CheckStar, n⟩ lines =
      some (ret, fed)) : (ret ≠ .error ↔ SuGoesOn lines) ∧ fed = [] := by
  cases lines with
  | nil =>
    cases followed
    exact ⟨iff_of_false (fun other => other rfl) id, rfl⟩
  | cons line lines =>
    simp only [follow, hearSU] at followed
    by_cases stub : line = ascii "kdesu_stub"
    · simp only [stub, if_true] at followed
      cases followed
      exact ⟨iff_of_true SuErrors.noConfusion (Or.inl stub), rfl⟩
    by_cases colon : contains line [58] = true
    · simp only [colon, ne_eq, reduceCtorEq, not_false_eq_true, and_self, if_true,
        if_false] at followed
      cases followed
      exact ⟨iff_of_false (fun other => other rfl) (by simp [SuGoesOn, stub, colon]), rfl⟩
    by_cases stars : (trimmed line).all (· = asterisk) = true
    · simp only [colon, stub, stars, false_and, if_false, if_true, Bool.false_eq_true,
        Option.map_eq_some_iff, Prod.exists] at followed
      obtain ⟨ret', fed', later, equal⟩ := followed
      cases equal
      obtain ⟨passed, nothing⟩ := follow_handled n later
      exact ⟨iff_of_true passed (Or.inr ⟨Bool.eq_false_iff.mpr colon, stars⟩), nothing⟩
    · simp only [colon, stub, stars, false_and, if_false, Bool.false_eq_true] at followed
      cases followed
      exact ⟨iff_of_false (fun other => other rfl) (by simp [SuGoesOn, stub, stars]), rfl⟩

theorem follow_asked {n : Nat} {lines : List Bytes} {ret : SuErrors}
    {fed : List Bytes} (followed : follow (hearSU waits (some password)) ⟨.WaitForPrompt, n⟩ lines =
      some (ret, fed)) :
    match behindPrompt waits.waitMS n lines with
    | none => fed = []
    | some behind => if waits.waitSlave = 0 then
        fed = [constData password, [newline]] ∧ (ret ≠ .error ↔ SuGoesOn behind) else fed = [] := by
  induction lines generalizing n fed with
  | nil =>
    cases followed
    rfl
  | cons line lines ih =>
    simp only [follow, hearSU] at followed
    simp only [behindPrompt]
    by_cases stub : line = ascii "kdesu_stub"
    · simp only [stub, if_true] at followed ⊢
      cases followed
      rfl
    by_cases more : waits.waitMS n > 0
    · simp only [stub, more, ne_eq, not_true_eq_false, and_false, if_false, if_true,
        Option.map_eq_some_iff, Prod.exists, not_le.mpr more, false_and] at followed ⊢
      obtain ⟨ret', fed', later, equal⟩ := followed
      cases equal
      exact ih later
    have quiet : waits.waitMS n ≤ 0 := Int.not_lt.mp more
    by_cases prompt : isPrompt line = true
    · by_cases ready : waits.waitSlave = 0
      · simp only [stub, more, prompt, ready, quiet, ne_eq, not_true_eq_false, and_false, if_false,
          if_true, and_self, Option.map_eq_some_iff, Prod.exists] at followed ⊢
        obtain ⟨ret', fed', later, equal⟩ := followed
        cases equal
        obtain ⟨goes, nothing⟩ := follow_written (n + 1) later
        exact ⟨by rw [nothing, List.append_nil], goes⟩
      · simp only [stub, more, prompt, ready, quiet, ne_eq, not_true_eq_false, not_false_eq_true,
          and_false, if_false, if_true, and_self] at followed ⊢
        cases followed
        rfl
    · simp only [stub, more, prompt, ne_eq, not_true_eq_false, and_false, if_false,
        Option.map_eq_some_iff, Prod.exists, Bool.false_eq_true] at followed ⊢
      obtain ⟨ret', fed', later, equal⟩ := followed
      cases equal
      exact ih later

private theorem follow_sent {terminal : Bool} {waitSlave : Int} {check : Int} {texts : SshTexts}
    {lines : List Bytes} {ret : SshEnd × SshTexts} {fed : List Bytes}
    (followed : follow (hearSsh terminal waitSlave password check) ⟨0 + 1, texts⟩ lines =
      some (ret, fed)) : (ret.1 ≠ .failed ↔ SshGoesOn lines) ∧ fed = [] := by
  cases lines with
  | nil =>
    cases followed
    exact ⟨iff_of_false (fun other => other rfl) id, rfl⟩
  | cons line lines =>
    simp only [follow, hearSsh, Nat.zero_add, Nat.one_ne_zero, if_false, Option.some.injEq,
      Prod.mk.injEq] at followed
    obtain ⟨rfl, rfl⟩ := followed
    by_cases empty : line = [] <;> simp [SshGoesOn, empty]

theorem follow_ssh {terminal : Bool} {waitSlave : Int} {check : Int} {texts : SshTexts}
    {n : Nat} {lines : List Bytes} {ret : SshEnd × SshTexts} {fed : List Bytes}
    (followed : follow (hearSsh terminal waitSlave password check) ⟨0, texts⟩ lines =
      some (ret, fed)) :
    match behindPrompt (fun _ => 0) n lines with
    | none => fed = []
    | some behind => if waitSlave = 0 ∧ check ≠ 2 then
        fed = [constData password, [newline]] ∧ (ret.1 ≠ .failed ↔ SshGoesOn behind)
        else fed = [] := by
  induction lines generalizing n texts fed with
  | nil =>
    cases followed
    rfl
  | cons line lines ih =>
    simp only [follow, hearSsh, if_true] at followed
    simp only [behindPrompt]
    by_cases stub : line = ascii "kdesu_stub"
    · simp only [stub, if_true] at followed ⊢
      cases followed
      rfl
    by_cases prompt : isPrompt line = true
    · by_cases need : check = 2
      · simp only [stub, prompt, need, if_true, if_false] at followed
        cases followed
        simp [stub, prompt, need]
      by_cases ready : waitSlave = 0
      · simp only [stub, prompt, need, ready, if_true, if_false, ne_eq, not_true_eq_false,
          Option.map_eq_some_iff, Prod.exists] at followed
        obtain ⟨ended, texts', fed', later, equal⟩ := followed
        cases equal
        obtain ⟨goes, nothing⟩ := follow_sent later
        simpa [stub, prompt, need, ready, nothing] using goes
      · simp only [stub, prompt, need, ready, if_true, if_false, ne_eq,
          not_false_eq_true] at followed
        cases followed
        simp [stub, prompt, ready]
    · simp only [stub, prompt, if_false, Bool.false_eq_true, Option.map_eq_some_iff,
        Prod.exists] at followed
      obtain ⟨ended, texts', fed', later, equal⟩ := followed
      cases equal
      simpa [stub, prompt] using @ih _ (n + 1) _ later

end

section

variable {password : CString} {c : Called}

private theorem erases_of_silent (silent : c.fed = []) : ErasesUsed password c := by
  intro written
  rw [silent] at written
  exact absurd written List.not_mem_nil

private theorem buffer_zero_iff (password : CString) :
    (∀ b ∈ passwordBuffer password.text, b = 0) ↔ password.text = [] := by
  simp only [passwordBuffer, List.forall_mem_append, List.forall_mem_singleton, and_true]
  constructor
  · intro zero
    by_contra more
    obtain ⟨b, text, shape⟩ := List.exists_cons_of_ne_nil more
    have first : b ∈ password.text := shape ▸ List.mem_cons_self
    exact password.noNul (zero b first ▸ first)
  · intro empty b member
    rw [empty] at member
    exact absurd member List.not_mem_nil

private theorem used_zero (password : CString) :
    ∀ b ∈ usedBuffer true password.text, b = 0 := by
  intro b member
  have plain := (constData_eq_iff _).mpr password.noNul
  simp only [usedBuffer, if_true, plain, List.drop_length, List.append_nil, passwordBuffer,
    List.mem_append, List.mem_singleton] at member
  rcases member with erased | ended
  · exact List.eq_of_mem_replicate erased
  · exact ended

private theorem erases_iff {left : Prop} [Decidable left]
    (fed : c.fed = [constData password.text, [newline]])
    (buffer : c.buffer =
      if left then passwordBuffer password.text else usedBuffer true password.text) :
    ErasesUsed password c ↔ ¬left ∨ password.text = [] := by
  have written : password.text ∈ c.fed := by
    rw [fed, (constData_eq_iff _).mpr password.noNul]
    exact List.mem_cons_self
  rw [ErasesUsed, buffer]
  by_cases early : left
  · rw [if_pos early, or_iff_right (not_not.mpr early), ← buffer_zero_iff]
    exact ⟨fun all => all written, fun all _ => all⟩
  · rw [if_neg early]
    exact iff_of_true (fun _ => used_zero password) (Or.inl early)

end

private theorem su_erases_iff {p : SuProcess} {around : Surroundings} {settings : Settings}
    {check : CheckMode} {password : CString} {a : Attempt} {c : Called}
    (returns : suExec p around settings true check (some password.text) a = some c) :
    ErasesUsed password c ↔ ∀ behind, suAsks a = some behind →
      (check ≠ .NeedPassword ∧ SuGoesOn behind) ∨ password.text = [] := by
  rcases suExec_leaves returns with ⟨launched, silent, -⟩ | ⟨launched, ret, pty, su, buffer⟩
  · exact iff_of_true (erases_of_silent silent) (by simp [suAsks, launched])
  · have asked := follow_asked (follow_of_converseSU su)
    cases behind : behindPrompt a.waits.waitMS 0 a.pty.lines with
    | none =>
      rw [behind] at asked
      exact iff_of_true (erases_of_silent asked) (by simp [suAsks, behind])
    | some lines =>
      rw [behind] at asked
      by_cases ready : a.waits.waitSlave = 0
      · simp only [ready, if_true] at asked
        have goes : ¬ret = .error ↔ SuGoesOn lines := asked.2
        rw [erases_iff asked.1 buffer, not_or, and_comm, goes]
        simp [suAsks, launched, ready, behind]
      · simp only [ready, if_false] at asked
        exact iff_of_true (erases_of_silent asked) (by simp [suAsks, ready])

private theorem ssh_erases_iff {p : SshProcess} {around : Surroundings} {settings : Settings}
    {texts : SshTexts} {check : Int} {password : CString} {a : SshAttempt} {c : SshCalled}
    (returns : sshExec p around settings true texts check password.text a = some c) :
    ErasesUsed password c.toCalled ↔ ∀ behind, sshAsks check a = some behind →
      SshGoesOn behind ∨ password.text = [] := by
  rcases sshExec_leaves returns with
    ⟨launched, silent, -⟩ | ⟨launched, terminal, ret, texts', pty, ssh, buffer⟩
  · exact iff_of_true (erases_of_silent silent) (by simp [sshAsks, launched])
  · have asked := @follow_ssh _ _ _ _ _ 0 _ _ _ (follow_of_converseSsh ssh)
    cases behind : behindPrompt (fun _ => 0) 0 a.pty.lines with
    | none =>
      rw [behind] at asked
      exact iff_of_true (erases_of_silent asked) (by simp [sshAsks, behind])
    | some lines =>
      rw [behind] at asked
      by_cases answers : a.waitSlave = 0 ∧ check ≠ 2
      · simp only [answers.1, answers.2, ne_eq, not_false_eq_true, and_self, if_true] at asked
        rw [erases_iff asked.1 buffer, not_or, and_iff_left answers.2]
        simpa [sshAsks, launched, answers.1, answers.2, behind] using or_congr_left asked.2
      · simp only [answers, if_false] at asked
        refine iff_of_true (erases_of_silent asked) fun behind' asks => ?_
        have never : ¬(a.launched = true ∧ a.waitSlave = 0 ∧ check ≠ 2) := fun all => answers all.2
        rw [sshAsks, if_neg never] at asks
        cases asks

/-- A password that was written to the pty is erased when the call returns exactly if the call
is not a check for the need of a password and the line behind the prompt lets the conversation go
on, or if there is nothing to erase. -/
theorem password_erased_iff (around : Surroundings) (settings : Settings) (password : CString) :
    (∀ (p : SuProcess) (check : CheckMode) (a : Attempt) (c : Called),
      suExec p around settings true check (some password.text) a = some c →
        (ErasesUsed password c ↔ ∀ behind, suAsks a = some behind →
          (check ≠ .NeedPassword ∧ SuGoesOn behind) ∨ password.text = [])) ∧
    ∀ (p : SshProcess) (texts : SshTexts) (check : Int) (a : SshAttempt) (c : SshCalled),
      sshExec p around settings true texts check password.text a = some c →
        (ErasesUsed password c.toCalled ↔ ∀ behind, sshAsks check a = some behind →
          SshGoesOn behind ∨ password.text = []) :=
  ⟨fun _ _ _ _ => su_erases_iff, fun _ _ _ _ _ => ssh_erases_iff⟩

def sshSays (reads : List Bytes) : SshAttempt := ⟨true, .new reads, 0, endsWell, []⟩

def erased : Called := ⟨0, [ascii "secret", [newline]], some 0, List.replicate 7 0, []⟩

def suGrants : List Bytes := [ascii "Password: ", ascii "\nkdesu_stub\n", ascii "end\n"]

def sshGrants : List Bytes :=
  [ascii "Password: ", ascii "\n", ascii "kdesu_stub\n", ascii "end\n"]

theorem password_erased_iff_granted :
    (∃ c, suExec asRoot surroundings toTerminal true .Install (some secret.text) (suSays suGrants) =
      some c ∧ ErasesUsed secret c) ∧
    ∃ c, sshExec asGuest surroundings toTerminal true ⟨[], [], []⟩ 1 secret.text
      (sshSays sshGrants) = some c ∧ ErasesUsed secret c.toCalled := by
  constructor
  · have returns : suExec asRoot surroundings toTerminal true .Install (some secret.text)
        (suSays suGrants) = some erased := by
      decide +kernel
    have asks : suAsks (suSays suGrants) = some [[], ascii "kdesu_stub", ascii "end"] := by
      decide +kernel
    refine ⟨erased, returns, ((password_erased_iff _ _ _).1 _ _ _ _ returns).mpr ?_⟩
    intro behind same
    obtain rfl := Option.some.inj (asks.symm.trans same)
    exact Or.inl ⟨by decide, Or.inr ⟨by decide, by decide⟩⟩
  · have returns : sshExec asGuest surroundings toTerminal true ⟨[], [], []⟩ 1 secret.text
        (sshSays sshGrants) = some ⟨erased, ⟨[], [], []⟩⟩ := by
      decide +kernel
    have asks : sshAsks 1 (sshSays sshGrants) =
        some [[], ascii "kdesu_stub", ascii "end"] := by
      decide +kernel
    refine ⟨⟨erased, ⟨[], [], []⟩⟩, returns,
      ((password_erased_iff _ _ _).2 _ _ _ _ _ returns).mpr ?_⟩
    intro behind same
    obtain rfl := Option.some.inj (asks.symm.trans same)
    exact Or.inl rfl

/-- su ends behind the password, and the buffer stays as it was. -/
theorem unheard_password_kept : ¬∀ p around settings check password a c,
    suExec p around settings true check (some password.text) a = some c →
      ErasesUsed password c := by
  intro erases
  have returns : suExec asRoot surroundings toTerminal true .NoCheck (some secret.text)
      (suSays [ascii "Password: "]) =
        some ⟨-1, [ascii "secret", [newline]], none, ascii "secret" ++ [0], []⟩ := by
    decide +kernel
  have zero := erases _ _ _ _ _ _ _ returns List.mem_cons_self
  exact absurd (zero 115 (by decide)) (by decide)

end KDESu.Process.Erasing
