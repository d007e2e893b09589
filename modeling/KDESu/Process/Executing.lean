/- KDESu/Process/Executing
   source: src/suprocess.cpp
   digest: SuProcess::exec behind the start of its command. -/

import KDESu.Process.Conversing
import KDESu.Process.Waiting

set_option autoImplicit false
set_option relaxedAutoImplicit false

namespace KDESu.Process.Executing

open KDESu.ByteArrays
open KDESu.Process.Launching
open KDESu.Process.Reading
open KDESu.Process.Conversing
open KDESu.Process.Exiting
open KDESu.Process.Waiting

inductive CheckMode
  | NoCheck | Install | NeedPassword
  deriving DecidableEq, Repr

def SuNotFound : Int := 1
def SuIncorrectPassword : Int := 3

/-- What one `exec` meets: whether its command is found and its process forked, the output of the
child and the waits of the conversations, whether `kill` fails, and what happens while
`waitForChild` runs, which is called once at most. -/
structure Attempt where
  launched : Bool
  pty : Pty
  waits : Waits
  killFails : Bool
  moves : List Move

/-- `waitForChild` on what the conversations leave in the buffer; none while it does not return. -/
def waitForChild (settings : Settings) (pty : Pty) (moves : List Move) : Option Int :=
  match (after settings pty.inputBuffer moves).phase with
  | .returned ret => some ret
  | _ => none

def SIGKILL : Signal := ⟨9, Nat.le_of_ble_eq_true rfl, Nat.le_of_ble_eq_true rfl⟩
def SIGTERM : Signal := ⟨15, Nat.le_of_ble_eq_true rfl, Nat.le_of_ble_eq_true rfl⟩

/-- What a call of `exec` comes to: its return value, what the first conversation has written,
what `converseStub` returned if it was called, the caller's password buffer, and the signals that
its child was sent. -/
structure Called where
  ret : Int
  fed : List Bytes
  stub : Option Int
  buffer : Bytes
  signals : List Signal
  deriving DecidableEq, Repr

def passwordBuffer (password : Bytes) : Bytes := password ++ [0]

/-- The caller's password buffer, with `m_erase` after the `memset` over its `qstrlen`. -/
def usedBuffer (m_erase : Bool) (password : Bytes) : Bytes :=
  if m_erase then
    let length := (constData password).length
    passwordBuffer (List.replicate length 0 ++ password.drop length)
  else passwordBuffer password

/-- `kill` with `SIGKILL`, whose result is not looked at. -/
def killed (a : Attempt) : List Signal := if a.killFails then [] else [SIGKILL]

/-- `SuProcess::exec` from the search for its command on. -/
def suExec (p : SuProcess) (around : Surroundings) (settings : Settings) (m_erase : Bool)
    (check : CheckMode) (password : QByteArray) (a : Attempt) : Option Called :=
  let settings := if check = .NoCheck then settings else { settings with m_terminal := true }
  let p := p.chooseCommand
  let buffer := password.elim [] passwordBuffer
  if !a.launched then
    some ⟨if check = .NoCheck then -1 else SuNotFound, [], none, buffer, []⟩
  else
    (converseSU a.waits password a.pty).bind fun (ret, fed, pty) =>
      if ret = .error then some ⟨ret.toInt, fed, none, buffer, []⟩
      else if check = .NeedPassword then
        if ret = .killme then
          if p.superUserCommand.isPrivilegeEscalation then
            some ⟨ret.toInt, fed, none, buffer, []⟩
          else if a.killFails then some ⟨SuErrors.error.toInt, fed, none, buffer, []⟩
          else (waitForChild settings pty a.moves).map fun iret =>
            ⟨if iret < 0 then SuErrors.error.toInt else ret.toInt, fed, none, buffer, [SIGKILL]⟩
        else some ⟨ret.toInt, fed, none, buffer, []⟩
      else
        let buffer := password.elim [] (usedBuffer m_erase)
        if ret ≠ .ok then
          if p.superUserCommand.isPrivilegeEscalation then
            (waitForChild settings pty a.moves).map fun _ =>
              ⟨SuIncorrectPassword, fed, none, buffer, killed a⟩
          else some ⟨SuIncorrectPassword, fed, none, buffer, killed a⟩
        else
          (converseStub around p.stub (check ≠ .NoCheck) pty).bind fun (iret, _, pty) =>
            if iret < 0 then some ⟨iret, fed, some iret, buffer, []⟩
            else if iret = 1 then
              (waitForChild settings pty a.moves).map fun _ =>
                ⟨SuIncorrectPassword, fed, some iret, buffer, killed a⟩
            else if check = .Install then
              (waitForChild settings pty a.moves).map fun _ => ⟨0, fed, some iret, buffer, []⟩
            else
              (waitForChild settings pty a.moves).map fun ret => ⟨ret, fed, some iret, buffer, []⟩

/-- What `suExec` returns to a caller that has not asked for `m_erase`. -/
def execute (p : SuProcess) (around : Surroundings) (settings : Settings) (check : CheckMode)
    (password : QByteArray) (a : Attempt) : Option Int :=
  (suExec p around settings false check password a).map Called.ret

namespace SuProcess

def checkNeedPassword (p : SuProcess) (around : Surroundings) (settings : Settings)
    (m_erase : Bool) (a : Attempt) : Option Called :=
  suExec p around settings m_erase .NeedPassword none a

end SuProcess

/-- Both conversations have succeeded, and leave this of the pty. -/
def Conversed (p : SuProcess) (around : Surroundings) (password : QByteArray) (a : Attempt)
    (pty : Pty) : Prop :=
  ∃ written pty' written',
    converseSU a.waits password a.pty = some (.ok, written, pty') ∧
      converseStub around p.chooseCommand.stub false pty' = some (0, written', pty)

/-- The command was found, the conversations have succeeded, and `waitForChild` has returned
because the process had ended like this. -/
def Completed (p : SuProcess) (around : Surroundings) (settings : Settings)
    (password : QByteArray) (a : Attempt) (t : Termination) : Prop :=
  a.launched = true ∧ ∃ pty ret, Conversed p around password a pty ∧
    Waited (after settings pty.inputBuffer a.moves) t ret

private theorem hearStub_result {around : Surroundings} {p : StubProcess} {check : Bool}
    {s : StubLoop} {line : QByteArray} {ret : Int}
    (returns : (hearStub around p check s line).1 = .inr ret) : ret = -1 ∨ ret = 0 ∨ ret = 1 := by
  cases line with
  | none =>
    simp only [hearStub, Sum.inr.injEq] at returns
    exact Or.inl returns.symm
  | some line =>
    cases s with
    | greeting =>
      simp only [hearStub] at returns
      split_ifs at returns
    | serving =>
      simp only [hearStub] at returns
      split at returns
      · cases returns
      · rw [Sum.inr.injEq] at returns
        split_ifs at returns
        · exact Or.inr (Or.inl returns.symm)
        · exact Or.inr (Or.inr returns.symm)

private theorem listenTo_result {σ ρ : Type}
    {hear : σ → QByteArray → (σ ⊕ ρ) × List Bytes} {fuel : Nat} {s : σ} {p p' : Pty} {ret : ρ}
    {written : List Bytes} (returns : listenTo hear fuel s p = some (ret, written, p')) :
    ∃ s line, (hear s line).1 = .inr ret := by
  induction fuel generalizing s p written with
  | zero => cases returns
  | succ fuel ih =>
    rcases taken : p.readLine true with ⟨line, q⟩
    rcases heard : hear s line with ⟨s' | ret', said⟩
    · simp only [listenTo, taken, heard, Option.map_eq_some_iff, Prod.exists] at returns
      obtain ⟨ret', later, left, listened, equal⟩ := returns
      cases equal
      exact ih listened
    · simp only [listenTo, taken, heard, Option.some.injEq, Prod.mk.injEq] at returns
      obtain ⟨rfl, -, -⟩ := returns
      exact ⟨s, line, congrArg Prod.fst heard⟩

theorem converseStub_result {around : Surroundings} {p : StubProcess} {check : Bool}
    {pty pty' : Pty} {ret : Int} {written : List Bytes}
    (returns : converseStub around p check pty = some (ret, written, pty')) :
    ret = -1 ∨ ret = 0 ∨ ret = 1 := by
  obtain ⟨s, line, result⟩ := listenTo_result returns
  exact hearStub_result result

private theorem execute_noCheck (p : SuProcess) (around : Surroundings) (settings : Settings)
    (password : QByteArray) {a : Attempt} (launched : a.launched = true) :
    execute p around settings .NoCheck password a =
      (converseSU a.waits password a.pty).bind fun (ret, _, pty) =>
        if ret = .error then some (-1)
        else if ret ≠ .ok then
          if p.chooseCommand.superUserCommand.isPrivilegeEscalation then
            (waitForChild settings pty a.moves).map fun _ => SuIncorrectPassword
          else some SuIncorrectPassword
        else
          (converseStub around p.chooseCommand.stub false pty).bind fun (iret, _, pty) =>
            if iret < 0 then some iret
            else if iret = 1 then
              (waitForChild settings pty a.moves).map fun _ => SuIncorrectPassword
            else waitForChild settings pty a.moves := by
  simp only [execute, suExec, launched, Bool.not_true, Bool.false_eq_true, if_false, if_true,
    ne_eq, not_true, decide_false, reduceCtorEq, Option.map_bind]
  refine congrArg (Option.bind _) (funext ?_)
  rintro ⟨ret, written, pty⟩
  cases ret with
  | error => rfl
  | killme | notauthorized =>
    simp only [Function.comp_apply, reduceCtorEq, not_false_eq_true, if_false, if_true]
    split_ifs <;> simp [Option.map_map, Function.comp_def]
  | ok =>
    simp only [Function.comp_apply, reduceCtorEq, not_true_eq_false, if_false, Option.map_bind]
    refine congrArg (Option.bind _) (funext ?_)
    rintro ⟨iret, written', pty'⟩
    dsimp only
    split_ifs <;> simp [Option.map_map, Function.comp_def]

theorem execute_result {p : SuProcess} {around : Surroundings} {settings : Settings}
    {password : QByteArray} {a : Attempt} {ret : Int}
    (returns : execute p around settings .NoCheck password a = some ret) :
    (a.launched = true ∧ ∃ pty, Conversed p around password a pty ∧
        waitForChild settings pty a.moves = some ret) ∨
      ((∀ pty, ¬(a.launched = true ∧ Conversed p around password a pty)) ∧
        (ret = -1 ∨ ret = SuIncorrectPassword)) := by
  cases launched : a.launched with
  | false =>
    simp only [execute, suExec, launched, Bool.not_false, if_true, Option.map_some,
      Option.some.injEq] at returns
    exact Or.inr ⟨by simp, Or.inl returns.symm⟩
  | true =>
    rw [execute_noCheck p around settings password launched, Option.bind_eq_some_iff] at returns
    obtain ⟨⟨su_ret, written, pty⟩, su, returns⟩ := returns
    by_cases ok : su_ret = .ok
    · subst ok
      simp only [reduceCtorEq, if_false, ne_eq, not_true, Option.bind_eq_some_iff] at returns
      obtain ⟨⟨iret, written', pty'⟩, stub, returns⟩ := returns
      have only {left : Pty} (both : Conversed p around password a left) : iret = 0 := by
        obtain ⟨_, _, _, su', stub'⟩ := both
        cases su.symm.trans su'
        cases stub.symm.trans stub'
        rfl
      rcases converseStub_result stub with rfl | rfl | rfl
      · exact Or.inr ⟨fun left both => absurd (only both.2) (by decide),
          Or.inl (Option.some.inj returns).symm⟩
      · exact Or.inl ⟨rfl, pty', ⟨written, pty, written', su, stub⟩, returns⟩
      · obtain ⟨ret', -, equal⟩ := Option.map_eq_some_iff.mp returns
        exact Or.inr ⟨fun left both => absurd (only both.2) (by decide), Or.inr equal.symm⟩
    · refine Or.inr ⟨?_, ?_⟩
      · rintro left ⟨-, _, _, _, su', -⟩
        cases su.symm.trans su'
        exact ok rfl
      · simp only [ne_eq, ok, not_false_eq_true, if_true] at returns
        split_ifs at returns
        · exact Or.inl (Option.some.inj returns).symm
        · obtain ⟨ret', -, equal⟩ := Option.map_eq_some_iff.mp returns
          exact Or.inr equal.symm
        · exact Or.inr (Option.some.inj returns).symm

end KDESu.Process.Executing
