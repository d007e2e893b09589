/- KDESu/Process/Remote
   source: src/sshprocess.cpp
   digest: The conversation with ssh. -/

import KDESu.Process.Conversing

set_option autoImplicit false
set_option relaxedAutoImplicit false

namespace KDESu.Process.Remote

open KDESu.ByteArrays
open KDESu.Process.Launching
open KDESu.Process.Reading
open KDESu.Process.Conversing

def SshNotFound : Int := 1
def SshNeedsPassword : Int := 2

/-- What the conversation leaves in the members `prompt` and `error`, and on the standard error
output. -/
structure SshTexts where
  prompt : Bytes
  error : Bytes
  stderr : Bytes
  deriving DecidableEq, Repr

/-- A line that is no prompt is a warning or an error message. -/
def SshTexts.warn (terminal : Bool) (line : Bytes) (texts : SshTexts) : SshTexts :=
  { texts with
    error := texts.error ++ line ++ [newline]
    stderr := if terminal then texts.stderr ++ ascii "ssh: " ++ constData line ++ [newline]
      else texts.stderr }

/-- How `converseSsh` ends: with the header of the stub, which it puts back, with the blank line
behind the password, with a prompt that it does not answer, or with an error. -/
inductive SshEnd
  | stub | accepted | needsPassword | failed
  deriving DecidableEq, Repr

def SshEnd.toInt : SshEnd → Int
  | .stub | .accepted => 0
  | .needsPassword => SshNeedsPassword
  | .failed => -1

structure SshLoop where
  state : Nat
  texts : SshTexts
  deriving DecidableEq, Repr

def hearSsh (terminal : Bool) (waitSlave : Int) (password : Bytes) (check : Int) (s : SshLoop)
    (line : QByteArray) : (SshLoop ⊕ (SshEnd × SshTexts)) × List Bytes :=
  match line with
  | none => (.inr (.failed, s.texts), [])
  | some line =>
      if s.state = 0 then
        if line = ascii "kdesu_stub" then (.inr (.stub, s.texts), [])
        else if isPrompt line then
          if check = 2 then (.inr (.needsPassword, { s.texts with prompt := line }), [])
          else if waitSlave ≠ 0 then (.inr (.failed, s.texts), [])
          else (.inl { s with state := s.state + 1 }, [constData password, [newline]])
        else (.inl { s with texts := s.texts.warn terminal line }, [])
      else (.inr (if line = [] then .accepted else .failed, s.texts), [])

def converseSsh (terminal : Bool) (waitSlave : Int) (password : Bytes) (check : Int)
    (texts : SshTexts) (pty : Pty) : Option ((SshEnd × SshTexts) × List Bytes × Pty) :=
  (listenTo (hearSsh terminal waitSlave password check) (pty.rest.length + 1) ⟨0, texts⟩ pty).map
    fun (ret, written, pty) =>
      (ret, written, if ret.1 = .stub then pty.unreadLine (ascii "kdesu_stub") else pty)

/-- The display is ssh's own business. -/
def surroundingsOfSsh (around : Surroundings) : Surroundings :=
  { around with display := ascii "no", displayAuth := ascii "no" }

theorem hearSsh_ends (terminal : Bool) (waitSlave : Int) (password : Bytes) (check : Int)
    (s : SshLoop) : (hearSsh terminal waitSlave password check s none).1.isRight := rfl

theorem converseSsh_isSome (terminal : Bool) (waitSlave : Int) (password : Bytes) (check : Int)
    (texts : SshTexts) {pty : Pty} (free : NeverStuck pty) :
    (converseSsh terminal waitSlave password check texts pty).isSome := by
  rw [converseSsh, Option.isSome_map]
  exact listenTo_isSome (hearSsh_ends terminal waitSlave password check) free
    (Nat.lt_succ_self _) _

theorem follow_of_converseSsh {terminal : Bool} {waitSlave : Int} {password : Bytes} {check : Int}
    {texts : SshTexts} {pty left : Pty} {ret : SshEnd × SshTexts} {written : List Bytes}
    (returns : converseSsh terminal waitSlave password check texts pty =
      some (ret, written, left)) :
    follow (hearSsh terminal waitSlave password check) ⟨0, texts⟩ pty.lines =
      some (ret, written) := by
  obtain ⟨⟨ret', written', left'⟩, listened, equal⟩ := Option.map_eq_some_iff.mp returns
  cases equal
  exact follow_of_listenTo (hearSsh_ends terminal waitSlave password check) listened

end KDESu.Process.Remote
