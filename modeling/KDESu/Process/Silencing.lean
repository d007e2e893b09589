/- KDESu/Process/Silencing
   source: src/ptyprocess.cpp, src/suprocess.cpp, src/sshprocess.cpp
   digest: waitSlave, and the terminal that a password is written to. -/

import KDESu.Process.Erasing

set_option autoImplicit false
set_option relaxedAutoImplicit false

namespace KDESu.Process.Silencing

open KDESu.ByteArrays
open KDESu.Process.Launching
open KDESu.Process.Conversing
open KDESu.Process.Waiting
open KDESu.Process.Executing
open KDESu.Process.Remote
open KDESu.Process.Calling
open KDESu.Process.Erasing

/-- What there is to see of the child and its terminal: whether `kill` with no signal reaches the
child, and the flag `ECHO` of the terminal's attributes, if they can be had. -/
structure Look where
  kill : Bool
  echo : Option Bool
  deriving DecidableEq, Repr

/-- `checkPid`, with the command that is configured: sudo, which takes no signals from the user, is
taken to be there without a look. -/
def checkPid (superUserCommand : Bytes) (kill : Bool) : Bool :=
  superUserCommand = ascii "sudo" || kill

/-- `waitSlave` on what it sees every 10 ms; none while it waits. -/
def waitSlave (superUserCommand : Bytes) : List Look → Option Int
  | [] => none
  | look :: looks =>
      if !checkPid superUserCommand look.kill then some (-1)
      else
        match look.echo with
        | none => some (-1)
        | some true => waitSlave superUserCommand looks
        | some false => some 0

/-- `checkPid` took the child to be there, and its terminal did as this flag says. -/
def Sees (superUserCommand : Bytes) (echo : Bool) (look : Look) : Prop :=
  checkPid superUserCommand look.kill = true ∧ look.echo = some echo

/-- The terminal has come to be silent, and until then `checkPid` took the child to be there. -/
def Silent (superUserCommand : Bytes) (looks : List Look) : Prop :=
  ∃ earlier last later, looks = earlier ++ last :: later ∧
    (∀ look ∈ earlier, Sees superUserCommand true look) ∧ Sees superUserCommand false last

section

variable {superUserCommand : Bytes} {looks : List Look}

theorem silent_cons {look : Look} (sees : Sees superUserCommand true look)
    (silent : Silent superUserCommand looks) : Silent superUserCommand (look :: looks) := by
  obtain ⟨earlier, last, later, rfl, all, silenced⟩ := silent
  exact ⟨look :: earlier, last, later, rfl, List.forall_mem_cons.mpr ⟨sees, all⟩, silenced⟩

theorem silent_cons_cases {look : Look} (silent : Silent superUserCommand (look :: looks)) :
    Sees superUserCommand false look ∨
      Sees superUserCommand true look ∧ Silent superUserCommand looks := by
  obtain ⟨earlier, last, later, split, all, silenced⟩ := silent
  cases earlier with
  | nil =>
    injection split with here
    exact Or.inl (here ▸ silenced)
  | cons first earlier =>
    injection split with here rest
    obtain ⟨sees, others⟩ := List.forall_mem_cons.mp all
    exact Or.inr ⟨here ▸ sees, earlier, last, later, rest, others, silenced⟩

theorem waitSlave_eq_zero_iff :
    waitSlave superUserCommand looks = some 0 ↔ Silent superUserCommand looks := by
  induction looks with
  | nil =>
    refine iff_of_false (by simp [waitSlave]) ?_
    rintro ⟨earlier, last, later, split, -⟩
    exact List.append_ne_nil_of_right_ne_nil earlier (List.cons_ne_nil last later) split.symm
  | cons look looks ih =>
    by_cases gone : checkPid superUserCommand look.kill = true
    · cases seen : look.echo with
      | none =>
        refine iff_of_false (by simp [waitSlave, gone, seen]) fun silent => ?_
        rcases silent_cons_cases silent with ⟨-, quiet⟩ | ⟨⟨-, loud⟩, -⟩
        · simp [seen] at quiet
        · simp [seen] at loud
      | some echo =>
        cases echo with
        | true =>
          simp only [waitSlave, gone, seen, Bool.not_true, Bool.false_eq_true, if_false, ih]
          refine ⟨silent_cons ⟨gone, seen⟩, fun silent => ?_⟩
          rcases silent_cons_cases silent with ⟨-, quiet⟩ | ⟨-, rest⟩
          · simp [seen] at quiet
          · exact rest
        | false =>
          have silent : Silent superUserCommand (look :: looks) :=
            ⟨[], look, looks, rfl, fun other none => absurd none List.not_mem_nil, gone, seen⟩
          exact iff_of_true (by simp [waitSlave, gone, seen]) silent
    · refine iff_of_false (by simp [waitSlave, gone]) fun silent => ?_
      rcases silent_cons_cases silent with ⟨there, -⟩ | ⟨⟨there, -⟩, -⟩
      · exact gone there
      · exact gone there

end

/-- A call has written nothing, or the password once, behind a prompt, to a silent terminal. -/
def FedInSilence (superUserCommand : Bytes) (looks : List Look) (asks : Option (List Bytes))
    (password : Bytes) (c : Called) : Prop :=
  c.fed = [] ∨ c.fed = [password, [newline]] ∧ Silent superUserCommand looks ∧ asks.isSome = true

section

variable {superUserCommand : Bytes} {looks : List Look} {around : Surroundings}
  {settings : Settings} {m_erase : Bool} {password : Bytes}

theorem su_fed {p : SuProcess} {check : CheckMode} {a : Attempt} {c : Called}
    (waited : waitSlave superUserCommand looks = some a.waits.waitSlave)
    (returns : suExec p around settings m_erase check (some password) a = some c) :
    FedInSilence superUserCommand looks (suAsks a) (constData password) c := by
  rcases suExec_leaves returns with ⟨-, silent, -⟩ | ⟨launched, ret, pty, su, -⟩
  · exact Or.inl silent
  · have asked := follow_asked (follow_of_converseSU su)
    cases behind : behindPrompt a.waits.waitMS 0 a.pty.lines with
    | none =>
      rw [behind] at asked
      exact Or.inl asked
    | some lines =>
      rw [behind] at asked
      by_cases ready : a.waits.waitSlave = 0
      · simp only [ready, if_true] at asked
        refine Or.inr ⟨asked.1, waitSlave_eq_zero_iff.mp (waited.trans (congrArg some ready)), ?_⟩
        simp [suAsks, launched, ready, behind]
      · simp only [ready, if_false] at asked
        exact Or.inl asked

theorem ssh_fed {p : SshProcess} {texts : SshTexts} {check : Int} {a : SshAttempt} {c : SshCalled}
    (waited : waitSlave superUserCommand looks = some a.waitSlave)
    (returns : sshExec p around settings m_erase texts check password a = some c) :
    FedInSilence superUserCommand looks (sshAsks check a) (constData password) c.toCalled := by
  rcases sshExec_leaves returns with
    ⟨-, silent, -⟩ | ⟨launched, terminal, ret, texts', pty, ssh, -⟩
  · exact Or.inl silent
  · have asked := @follow_ssh _ _ _ _ _ 0 _ _ _ (follow_of_converseSsh ssh)
    cases behind : behindPrompt (fun _ => 0) 0 a.pty.lines with
    | none =>
      rw [behind] at asked
      exact Or.inl asked
    | some lines =>
      rw [behind] at asked
      by_cases answers : a.waitSlave = 0 ∧ check ≠ 2
      · simp only [answers.1, answers.2, ne_eq, not_false_eq_true, and_self,
          if_true] at asked
        refine Or.inr ⟨asked.1,
          waitSlave_eq_zero_iff.mp (waited.trans (congrArg some answers.1)), ?_⟩
        simp [sshAsks, launched, answers.1, answers.2, behind]
      · simp only [answers, if_false] at asked
        exact Or.inl asked

end

/-- Whatever su or ssh and the terminal do: a call of `exec` writes its password at most once, byte
for byte, behind a prompt, and only when the terminal that it looked at had come to be silent, with
the child there as far as `checkPid` looks. -/
theorem password_to_silent_terminal (superUserCommand : Bytes) (looks : List Look)
    (around : Surroundings) (settings : Settings) (m_erase : Bool) (password : CString) :
    (∀ (p : SuProcess) (check : CheckMode) (a : Attempt) (c : Called),
      waitSlave superUserCommand looks = some a.waits.waitSlave →
      suExec p around settings m_erase check (some password.text) a = some c →
        FedInSilence superUserCommand looks (suAsks a) password.text c) ∧
    ∀ (p : SshProcess) (texts : SshTexts) (check : Int) (a : SshAttempt) (c : SshCalled),
      waitSlave superUserCommand looks = some a.waitSlave →
      sshExec p around settings m_erase texts check password.text a = some c →
        FedInSilence superUserCommand looks (sshAsks check a) password.text c.toCalled := by
  have whole : constData password.text = password.text := (constData_eq_iff _).mpr password.noNul
  exact ⟨fun _ _ _ _ waited returns => whole ▸ su_fed waited returns,
    fun _ _ _ _ _ waited returns => whole ▸ ssh_fed waited returns⟩

def silenced : List Look := [⟨true, some true⟩, ⟨true, some false⟩]

theorem password_to_silent_terminal_granted :
    ∃ c, suExec asRoot surroundings toTerminal true .Install (some secret.text) (suSays suGrants) =
      some c ∧ FedInSilence (ascii "su") silenced (suAsks (suSays suGrants)) secret.text c := by
  have returns : suExec asRoot surroundings toTerminal true .Install (some secret.text)
      (suSays suGrants) = some erased := by
    decide +kernel
  have waited : waitSlave (ascii "su") silenced = some (suSays suGrants).waits.waitSlave := by
    decide +kernel
  exact ⟨erased, returns,
    (password_to_silent_terminal _ _ _ _ _ _).1 _ _ _ _ waited returns⟩

end KDESu.Process.Silencing
