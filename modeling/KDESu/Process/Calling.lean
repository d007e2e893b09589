/- KDESu/Process/Calling
   source: src/suprocess.cpp, src/sshprocess.cpp
   digest: The exec of both classes with all that a call leaves behind. -/

import KDESu.Process.Executing
import KDESu.Process.Remote

set_option autoImplicit false
set_option relaxedAutoImplicit false

namespace KDESu.Process.Calling

open KDESu.ByteArrays
open KDESu.Library.Histories
open KDESu.Process.Launching
open KDESu.Process.Reading
open KDESu.Process.Conversing
open KDESu.Process.Exiting
open KDESu.Process.Waiting
open KDESu.Process.Executing
open KDESu.Process.Remote

/-- A `const char *` that is not null: what is in front of the terminator. -/
structure CString where
  text : Bytes
  noNul : (0 : UInt8) ∉ text

def result (w : Watch) : Option Int :=
  match w.phase with
  | .returned ret => some ret
  | _ => none

def again (w : Watch) : Watch := { w with remainder := [], phase := .selecting }

/-- What one `exec` of ssh meets; `waitForChild` is called twice at most. -/
structure SshAttempt where
  launched : Bool
  pty : Pty
  waitSlave : Int
  moves : List Move
  later : List Move

structure SshCalled extends Called where
  texts : SshTexts
  deriving DecidableEq, Repr

/-- The settings of the last wait: a command's connections may outlive it. -/
def lastSettings (settings : Settings) (check : Int) : Settings :=
  if check = 1 then settings
  else { settings with m_exitString := ascii "Waiting for forwarded connections to terminate" }

def lastWait (settings : Settings) (check : Int) (w : Watch) (moves : List Move) : Option Int :=
  (result (run (Watch.step (lastSettings settings check)) w moves)).map fun ret =>
    if check = 1 then 0 else ret

def sshExec (p : SshProcess) (around : Surroundings) (settings : Settings) (m_erase : Bool)
    (texts : SshTexts) (check : Int) (password : Bytes) (a : SshAttempt) : Option SshCalled :=
  let settings := if check = 0 then settings else { settings with m_terminal := true }
  let buffer := passwordBuffer password
  if !a.launched then some ⟨⟨if check = 0 then -1 else SshNotFound, [], none, buffer, []⟩, texts⟩
  else
    (converseSsh settings.m_terminal a.waitSlave password check texts a.pty).bind
      fun ((ssh, texts), fed, pty) =>
        let ret := ssh.toInt
        if ret < 0 then some ⟨⟨ret, fed, none, buffer, []⟩, texts⟩
        else if check = 2 then
          -- no result of the conversation is 1: a prompt comes to SshNeedsPassword, which is 2
          if ret = 1 then
            (waitForChild settings pty a.moves).map fun _ =>
              ⟨⟨ret, fed, none, buffer, [SIGTERM]⟩, texts⟩
          else some ⟨⟨ret, fed, none, buffer, []⟩, texts⟩
        else
          (converseStub (surroundingsOfSsh around) p.stub (check ≠ 0) pty).bind
            fun (stub, _, pty) =>
              let called (signals : List Signal) (ret : Int) : SshCalled :=
                ⟨⟨ret, fed, some stub, usedBuffer m_erase password, signals⟩, texts⟩
              if stub < 0 then some (called [] stub)
              else if stub = 1 then
                -- the SshIncorrectPassword that is assigned behind this wait is never returned
                let w := after settings pty.inputBuffer a.moves
                (result w).bind fun _ =>
                  (lastWait settings check (again w) a.later).map (called [SIGTERM])
              else
                (lastWait settings check (.start pty.inputBuffer) a.moves).map (called [])

namespace SshProcess

/-- `SshProcess::checkNeedPassword`; its null password is not read. -/
def checkNeedPassword (p : SshProcess) (around : Surroundings) (settings : Settings)
    (m_erase : Bool) (texts : SshTexts) (a : SshAttempt) : Option SshCalled :=
  sshExec p around settings m_erase texts 2 [] a

end SshProcess

theorem converseSsh_unread (terminal : Bool) (waitSlave : Int) (password : Bytes) :
    converseSsh terminal waitSlave password 2 = converseSsh terminal waitSlave [] 2 := by
  have unread : hearSsh terminal waitSlave password 2 = hearSsh terminal waitSlave [] 2 := by
    funext s line
    cases line with
    | none => rfl
    | some line => simp only [hearSsh, if_true]
  funext texts pty
  simp only [converseSsh, unread]

/-- What a call has written for the password and leaves in the buffer. -/
private def Leaves (fed : List Bytes) (buffer : Bytes) (c : Called) : Prop :=
  c.fed = fed ∧ c.buffer = buffer

section

variable {fed : List Bytes} {buffer : Bytes} {β : Type} (base : β → Called)

private theorem leaves_of_some {c c' : β} (leaves : Leaves fed buffer (base c))
    (returns : some c = some c') : Leaves fed buffer (base c') :=
  Option.some.inj returns ▸ leaves

private theorem leaves_of_map {α : Type} {wait : Option α} {called : α → β} {c : β}
    (leaves : ∀ a, Leaves fed buffer (base (called a))) (returns : wait.map called = some c) :
    Leaves fed buffer (base c) := by
  obtain ⟨a, -, rfl⟩ := Option.map_eq_some_iff.mp returns
  exact leaves a

end

theorem suExec_leaves {p : SuProcess} {around : Surroundings} {settings : Settings}
    {m_erase : Bool} {check : CheckMode} {password : Bytes} {a : Attempt} {c : Called}
    (returns : suExec p around settings m_erase check (some password) a = some c) :
    (a.launched = false ∧ c.fed = [] ∧ c.buffer = passwordBuffer password) ∨
      (a.launched = true ∧ ∃ ret pty,
        converseSU a.waits (some password) a.pty = some (ret, c.fed, pty) ∧
        c.buffer = if ret = .error ∨ check = .NeedPassword then passwordBuffer password
          else usedBuffer m_erase password) := by
  cases launched : a.launched with
  | false =>
    simp only [suExec, launched, Bool.not_false, if_true, Option.elim_some,
      Option.some.injEq] at returns
    exact Or.inl ⟨rfl, returns ▸ rfl, returns ▸ rfl⟩
  | true =>
    simp only [suExec, launched, Bool.not_true, Bool.false_eq_true, if_false,
      Option.elim_some, Option.bind_eq_some_iff, Prod.exists] at returns
    obtain ⟨ret, fed, pty, su, returns⟩ := returns
    generalize (if check = .NoCheck then settings else { settings with m_terminal := true }) =
      settings at returns
    refine Or.inr ⟨rfl, ret, pty, ?_⟩
    suffices left : Leaves fed (if ret = .error ∨ check = .NeedPassword then
      passwordBuffer password else usedBuffer m_erase password) c from ⟨left.1 ▸ su, left.2⟩
    by_cases error : ret = .error
    · simp only [error, if_true, true_or] at returns ⊢
      exact leaves_of_some id ⟨rfl, rfl⟩ returns
    simp only [error, if_false, false_or] at returns ⊢
    by_cases need : check = .NeedPassword
    · simp only [need, if_true] at returns ⊢
      split_ifs at returns
      · exact leaves_of_some id ⟨rfl, rfl⟩ returns
      · exact leaves_of_some id ⟨rfl, rfl⟩ returns
      · exact leaves_of_map id (fun _ => ⟨rfl, rfl⟩) returns
      · exact leaves_of_some id ⟨rfl, rfl⟩ returns
    simp only [need, if_false] at returns ⊢
    by_cases ok : ret = .ok
    · simp only [ok, ne_eq, not_true_eq_false, if_false, Option.bind_eq_some_iff,
        Prod.exists] at returns
      obtain ⟨iret, written, left, -, returns⟩ := returns
      split_ifs at returns
      · exact leaves_of_some id ⟨rfl, rfl⟩ returns
      all_goals exact leaves_of_map id (fun _ => ⟨rfl, rfl⟩) returns
    · simp only [ok, ne_eq, not_false_eq_true, if_true] at returns
      split_ifs at returns
      · exact leaves_of_map id (fun _ => ⟨rfl, rfl⟩) returns
      · exact leaves_of_some id ⟨rfl, rfl⟩ returns

theorem sshExec_leaves {p : SshProcess} {around : Surroundings} {settings : Settings}
    {m_erase : Bool} {texts : SshTexts} {check : Int} {password : Bytes} {a : SshAttempt}
    {c : SshCalled}
    (returns : sshExec p around settings m_erase texts check password a = some c) :
    (a.launched = false ∧ c.fed = [] ∧ c.buffer = passwordBuffer password) ∨
      (a.launched = true ∧ ∃ terminal ret texts' pty,
        converseSsh terminal a.waitSlave password check texts a.pty =
          some ((ret, texts'), c.fed, pty) ∧
        c.buffer = if ret = .failed ∨ check = 2 then passwordBuffer password
          else usedBuffer m_erase password) := by
  cases launched : a.launched with
  | false =>
    simp only [sshExec, launched, Bool.not_false, if_true, Option.some.injEq] at returns
    exact Or.inl ⟨rfl, returns ▸ rfl, returns ▸ rfl⟩
  | true =>
    simp only [sshExec, launched, Bool.not_true, Bool.false_eq_true, if_false,
      Option.bind_eq_some_iff, Prod.exists] at returns
    obtain ⟨ret, texts', fed, pty, ssh, returns⟩ := returns
    generalize (if check = 0 then settings else { settings with m_terminal := true }) =
      settings at ssh returns
    have failed_iff : ret.toInt < 0 ↔ ret = .failed := by
      cases ret <;> decide
    have left : Leaves fed (if ret = .failed ∨ check = 2 then passwordBuffer password
        else usedBuffer m_erase password) c.toCalled := by
      by_cases failed : ret = .failed
      · rw [if_pos (failed_iff.mpr failed)] at returns
        rw [if_pos (Or.inl failed)]
        exact leaves_of_some SshCalled.toCalled ⟨rfl, rfl⟩ returns
      rw [if_neg (mt failed_iff.mp failed)] at returns
      simp only [failed, false_or]
      by_cases need : check = 2
      · simp only [need, if_true] at returns ⊢
        split_ifs at returns
        · exact leaves_of_map SshCalled.toCalled (fun _ => ⟨rfl, rfl⟩) returns
        · exact leaves_of_some SshCalled.toCalled ⟨rfl, rfl⟩ returns
      simp only [need, if_false, Option.bind_eq_some_iff, Prod.exists] at returns ⊢
      obtain ⟨stub, written, rest, -, returns⟩ := returns
      split_ifs at returns
      · exact leaves_of_some SshCalled.toCalled ⟨rfl, rfl⟩ returns
      · obtain ⟨_, -, returns⟩ := Option.bind_eq_some_iff.mp returns
        exact leaves_of_map SshCalled.toCalled (fun _ => ⟨rfl, rfl⟩) returns
      · exact leaves_of_map SshCalled.toCalled (fun _ => ⟨rfl, rfl⟩) returns
    exact Or.inr ⟨rfl, _, ret, texts', pty, left.1 ▸ ssh, left.2⟩

def asRoot : SuProcess := ⟨listing, .su⟩

def asGuest : SshProcess := ⟨listing, ascii "host", ascii "kdesu_stub"⟩

def secret : CString := ⟨ascii "secret", by decide⟩

def endsWell : List Move := [.finish (.exited 0), .select .timeout, .wait]

def suSays (reads : List Bytes) : Attempt := ⟨true, .new reads, ⟨fun _ => 0, 0⟩, false, endsWell⟩

end KDESu.Process.Calling
