/- KDESu/Stub/Reporting
   source: src/kdesu_stub.c
   digest: How kdesu_stub waits for its command, and the code it exits with. -/

import KDESu.Process.Exiting

set_option autoImplicit false
set_option relaxedAutoImplicit false

namespace KDESu.Stub.Reporting

open KDESu.Process.Exiting
open KDESu.Daemon.EventLoop (WEXITSTATUS)

inductive Waitpid
  | status (state : Nat)
  | EINTR
  | failed (echild : Bool)
  deriving DecidableEq, Repr

/-- The loop that waits for the command, on the answers of `waitpid`: it goes on behind a status,
and ends with an error. -/
def waitCommand : Int → List Waitpid → Option Int
  | _, [] => none
  | xit, .EINTR :: answers => waitCommand xit answers
  | xit, .failed _ :: _ => some xit
  | xit, .status state :: answers =>
      waitCommand (if WIFEXITED state then WEXITSTATUS state else xit) answers

/-- The answers of the kernel for a command that ends: its status once, then `ECHILD`. -/
inductive Answers (t : Termination) : Bool → List Waitpid → Prop
  | interrupted {waited : Bool} {answers : List Waitpid} (later : Answers t waited answers) :
      Answers t waited (.EINTR :: answers)
  | ended {answers : List Waitpid} (later : Answers t true answers) :
      Answers t false (.status t.status :: answers)
  | gone : Answers t true [.failed true]

def commandCode : Termination → Int
  | .exited code => code.toNat
  | .killed _ _ => 1

private theorem waitCommand_gone {t : Termination} {answers : List Waitpid}
    (kernel : Answers t true answers) (xit : Int) : waitCommand xit answers = some xit := by
  generalize waits : true = waited at kernel
  induction kernel with
  | interrupted later ih => exact ih waits
  | ended later ih => cases waits
  | gone => rfl

theorem waitCommand_answers {t : Termination} {answers : List Waitpid}
    (kernel : Answers t false answers) : waitCommand 1 answers = some (commandCode t) := by
  generalize waits : false = waited at kernel
  induction kernel with
  | interrupted later ih => exact ih waits
  | ended later ih =>
    rw [waitCommand, waitCommand_gone later]
    cases t with
    | exited code =>
      rw [WIFEXITED_exited, if_pos rfl, WEXITSTATUS_exited]
      rfl
    | killed signal core =>
      rw [WIFEXITED_killed]
      rfl
  | gone => cases waits

/-- The codes with which `main` exits when it was not told to stop, with the end of its command:
1 where it fails before the command, else what the loop says. -/
inductive MainExits : Option Termination → Int → Prop
  | failed : MainExits none 1
  | reported (t : Termination) {answers : List Waitpid} (kernel : Answers t false answers)
      {xit : Int} (waits : waitCommand 1 answers = some xit) : MainExits (some t) xit

theorem command_of_zero {command : Option Termination} {xit : Int}
    (exits : MainExits command xit) (zero : Termination.exit xit = .exited 0) :
    command = some (.exited 0) := by
  cases exits with
  | failed => exact absurd zero (by decide)
  | reported t kernel waits =>
    rw [waitCommand_answers kernel] at waits
    cases waits
    cases t with
    | exited code =>
      rw [commandCode, Termination.exit_toNat] at zero
      rw [zero]
    | killed signal core =>
      have one : Termination.exit (commandCode (.killed signal core)) = .exited 1 := rfl
      rw [one] at zero
      cases zero

end KDESu.Stub.Reporting
