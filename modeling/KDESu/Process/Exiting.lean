/- KDESu/Process/Exiting
   source: src/ptyprocess.cpp, src/ptyprocess.h
   digest: How a process ends, its wait status, and what checkPidExited makes of it. -/

import KDESu.Daemon.EventLoop

set_option autoImplicit false
set_option relaxedAutoImplicit false

namespace KDESu.Process.Exiting

open KDESu.Daemon.EventLoop (WEXITSTATUS)

/-- The number of a signal; 127 in its place would mark a stopped process. -/
structure Signal where
  number : Nat
  positive : 0 < number
  below : number < 127
  deriving DecidableEq, Repr

/-- How a process ends: with a code of `exit`, or killed by a signal, with a core dump or not. -/
inductive Termination
  | exited (code : UInt8)
  | killed (signal : Signal) (core : Bool)
  deriving DecidableEq, Repr

namespace Termination

def exit (ret : Int) : Termination := .exited (UInt8.ofNat (ret % 256).toNat)

def Normal (t : Termination) : Prop := ∃ code, t = .exited code

def status : Termination → Nat
  | .exited code => code.toNat * 256
  | .killed signal core => signal.number + if core then 128 else 0

@[simp] theorem exit_toNat (code : UInt8) : exit code.toNat = .exited code := by
  have small := code.toNat_lt
  simp only [exit, exited.injEq]
  rw [Int.emod_eq_of_lt (by omega) (by omega), Int.toNat_natCast, UInt8.ofNat_toNat]

end Termination

/-- The macro of sys/wait.h: no signal in the low seven bits. -/
def WIFEXITED (status : Nat) : Bool := status % 128 == 0

theorem WIFEXITED_exited (code : UInt8) : WIFEXITED (Termination.exited code).status = true := by
  simp only [WIFEXITED, Termination.status, beq_iff_eq]
  omega

theorem WIFEXITED_killed (signal : Signal) (core : Bool) :
    WIFEXITED (Termination.killed signal core).status = false := by
  have positive := signal.positive
  have below := signal.below
  simp only [WIFEXITED, Termination.status, beq_eq_false_iff_ne]
  split_ifs <;> omega

theorem WEXITSTATUS_exited (code : UInt8) :
    WEXITSTATUS (Termination.exited code).status = code.toNat := by
  have small := code.toNat_lt
  simp only [WEXITSTATUS, Termination.status]
  omega

theorem WEXITSTATUS_killed (signal : Signal) (core : Bool) :
    WEXITSTATUS (Termination.killed signal core).status = 0 := by
  have below := signal.below
  simp only [WEXITSTATUS, Termination.status]
  split_ifs <;> omega

/-- What the kernel holds of a child: it runs, it has ended and was not waited for, or it is
gone. -/
inductive ChildState
  | running
  | zombie (t : Termination)
  | gone (t : Termination)
  deriving DecidableEq, Repr

/-- What `waitpid` answers: with `WNOHANG` that the child still runs, its status, or an error,
which is `ECHILD` or another one. -/
inductive WaitAnswer
  | still
  | status (state : Nat)
  | failed (echild : Bool)
  deriving DecidableEq, Repr

def ChildState.waitpid : ChildState → WaitAnswer × ChildState
  | .running => (.still, .running)
  | .zombie t => (.status t.status, .gone t)
  | .gone t => (.failed true, .gone t)

def Error : Int := -1
def NotExited : Int := -2
def Killed : Int := -3

def checkPidExited : WaitAnswer → Int
  | .failed _ => Error
  | .status state => if WIFEXITED state then WEXITSTATUS state else Killed
  | .still => NotExited

/-- What `waitForChild` returns on an answer of `waitpid`; none to keep checking. -/
def verdict (answer : WaitAnswer) : Option Int :=
  let ret := checkPidExited answer
  if ret = Error then some (if answer = .failed true then 0 else 1)
  else if ret = Killed then some 0
  else if ret = NotExited then none
  else some ret

def Termination.verdict : Termination → Int
  | .exited code => code.toNat
  | .killed _ _ => 0

@[simp] theorem verdict_still : verdict .still = none := rfl

@[simp] theorem verdict_status (t : Termination) :
    verdict (.status t.status) = some t.verdict := by
  cases t with
  | exited code =>
    have value : checkPidExited (.status (Termination.exited code).status) = code.toNat := by
      rw [checkPidExited, WIFEXITED_exited, if_pos rfl, WEXITSTATUS_exited]
    simp only [verdict, value, Error, Killed, NotExited]
    rw [if_neg (by omega), if_neg (by omega), if_neg (by omega)]
    rfl
  | killed signal core =>
    have value : checkPidExited (.status (Termination.killed signal core).status) = Killed := by
      rw [checkPidExited, WIFEXITED_killed]
      rfl
    simp only [verdict, value]
    rfl

end KDESu.Process.Exiting
