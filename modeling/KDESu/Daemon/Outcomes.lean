/- KDESu/Daemon/Outcomes
   source: src/kdesud/kdesud.cpp, src/kdesud/handler.cpp, src/suprocess.cpp, src/kdesu_stub.c
   digest: How the processes of a local EXEC end, and when its session is sent the exit code 0. -/

import KDESu.Daemon.Accounts
import KDESu.Daemon.ExitCodes
import KDESu.Process.Executing
import KDESu.Stub.Reporting

set_option autoImplicit false
set_option relaxedAutoImplicit false

namespace KDESu.Daemon.Outcomes

open KDESu.ByteArrays
open KDESu.Library.Histories
open KDESu.Daemon.Handling
open KDESu.Daemon.Requests
open KDESu.Daemon.EventLoop
open KDESu.Daemon.ExitCodes
open KDESu.Daemon.Accounts (suProcess)
open KDESu.Process.Launching (Installation SuProcess)
open KDESu.Process.Reading (Pty)
open KDESu.Process.Conversing (Surroundings)
open KDESu.Process.Exiting
open KDESu.Process.Waiting
open KDESu.Process.Executing
open KDESu.Stub.Reporting

/-- Nobody connects on the descriptor, and no child is started on it. -/
def Quiet (fd : Nat) (m : Moment Kdesud Event) : Prop :=
  ¬AcceptedOn fd m ∧ startedChild fd m = none

/-- The session gets this exit code for the child, at once or at any later time before another
command or connection. -/
def Sends (d : Kdesud) (fd : Nat) (pid : Pid) (status : Nat) (code : Int) : Prop :=
  ∃ es, (∀ m ∈ history step (step d (.reap pid status)).1 es, Quiet fd m) ∧
    (fd, .exitCode code) ∈ (outputs step d (.reap pid status :: es)).flatten

/-- The handler waits for no child and has no other exit code than this. -/
def Holds (fd : Nat) (code : Int) (d : Kdesud) : Prop :=
  ∀ h, d.handlerAt fd = some h → h.m_pid = 0 ∧ h.m_exitCode = code

private theorem not_waiting_of_holds {fd : Nat} {code : Int} {d : Kdesud}
    (holds : Holds fd code d) (pid : Pid) : d.waiting pid ≠ some fd := by
  intro waits
  obtain ⟨h, live, equal⟩ := waiting_eq_some waits
  have idle := (holds h live).1
  have positive := pid.2
  omega

private theorem holds_step {fd : Nat} {code : Int} {d : Kdesud} (holds : Holds fd code d)
    {ev : Event} (quiet : Quiet fd ⟨d, ev⟩) : Holds fd code (step d ev).1 := by
  intro h' live
  have origin := handler_origin live
  obtain ⟨apart, childless⟩ := quiet
  generalize performed : action d ev = a at origin
  cases origin with
  | kept before accepted performed reaped => exact holds h' before
  | accepted uid uninitialised new => exact absurd ⟨uid, uninitialised, performed⟩ apart
  | performed h sys request before after =>
    have same := holds h before
    have child : (perform sys h d.repo request).child = none := by
      simpa [startedChild, acted, performed] using childless
    rw [after]
    refine ⟨?_, ?_⟩
    · rw [handlerOf_pid, child]
      exact same.1
    · rw [(handlerOf_exitCode h _ request).2]
      exact same.2
  | reaped h pid status before waits after => exact absurd waits (not_waiting_of_holds holds pid)

private theorem sent_of_holds {fd : Nat} {code code' : Int} {d : Kdesud}
    (holds : Holds fd code d) {ev : Event} (sent : (fd, .exitCode code') ∈ (step d ev).2) :
    code' = code := by
  have origin := exitCode_origin sent
  generalize action d ev = a at origin
  cases origin with
  | asked h sys live exited stored => exact stored.trans (holds h live).2
  | reaped h pid status live waits value => exact absurd waits (not_waiting_of_holds holds pid)

private theorem later_of_holds {fd : Nat} {code code' : Int} {d : Kdesud}
    (holds : Holds fd code d) {es : List Event} (quiet : ∀ m ∈ history step d es, Quiet fd m)
    (sent : (fd, .exitCode code') ∈ (outputs step d es).flatten) : code' = code := by
  induction es generalizing d with
  | nil => cases sent
  | cons ev es ih =>
    have next := holds_step holds (quiet ⟨d, ev⟩ List.mem_cons_self)
    rw [outputs, List.flatten_cons, List.mem_append] at sent
    rcases sent with now | later
    · exact sent_of_holds holds now
    · exact ih next (fun m member => quiet m (List.mem_cons_of_mem _ member)) later

private theorem exit_answered {d : Kdesud} (running : d.running = true) {fd : Nat}
    {h : ConnectionHandler} (live : d.handlerAt fd = some h) (exited : h.m_hasExitCode = true) :
    ∃ ev, Quiet fd ⟨d, ev⟩ ∧ (fd, .exitCode h.m_exitCode) ∈ (step d ev).2 := by
  let sys : SysCalls := ⟨unsigned h.uid, 0, 0, none⟩
  have read : readRequest (ascii "EXIT\n") = some .exit := by decide +kernel
  have asks : action d (.command fd (ascii "EXIT\n") sys) = .perform fd h sys .exit := by
    simp only [action, running, if_true, live, commandAction, read]
    exact if_pos rfl
  refine ⟨.command fd (ascii "EXIT\n") sys, ⟨?_, ?_⟩, ?_⟩
  · rintro ⟨uid, uninitialised, accepted⟩
    exact absurd (asks.symm.trans accepted) (by simp)
  · rw [startedChild, acted, asks]
    exact if_pos rfl
  · rw [replies_step, asks, repliesOf]
    have answered : (perform sys h d.repo .exit).sent = [.exitCode h.m_exitCode] := if_pos exited
    rw [answered]
    exact List.mem_cons_self

theorem running_reap (d : Kdesud) (pid : Pid) (status : Nat) :
    (step d (.reap pid status)).1.running = d.running := by
  simp only [step]
  split_ifs
  · simp only [Kdesud.reap]
    split
    · rfl
    · split <;> rfl
  · rfl

theorem sends_iff {d : Kdesud} (running : d.running = true) {fd : Nat} {pid : Pid}
    (waits : d.waiting pid = some fd) (status : Nat) (code : Int) :
    Sends d fd pid status code ↔ code = WEXITSTATUS status := by
  obtain ⟨h, live, -⟩ := waiting_eq_some waits
  have performed : action d (.reap pid status) = .reap pid status := by
    rw [action, if_pos running]
  have after : (step d (.reap pid status)).1.handlerAt fd = some (reaped h status) := by
    rw [handlerAt_step, performed, handlerAfter, if_pos waits, live]
    rfl
  constructor
  · rintro ⟨es, quiet, sent⟩
    rw [outputs, List.flatten_cons, List.mem_append] at sent
    rcases sent with now | later
    · have origin := exitCode_origin now
      rw [performed] at origin
      cases origin with
      | reaped _ _ _ _ _ value => exact value
    · refine later_of_holds ?_ quiet later
      intro h' live'
      cases after.symm.trans live'
      exact ⟨rfl, rfl⟩
  · rintro rfl
    obtain ⟨ev, quiet, sent⟩ := exit_answered ((running_reap d pid status).trans running) after rfl
    refine ⟨[ev], ?_, ?_⟩
    · intro m member
      obtain rfl := List.mem_singleton.mp member
      exact quiet
    · rw [outputs, List.flatten_cons, List.mem_append]
      exact Or.inr (List.mem_flatten.mpr ⟨_, List.mem_cons_self, sent⟩)

/-- A command that EXEC runs with an empty host, as the daemon's child knows it, and what its
`exec` meets. -/
structure LocalCommand where
  sys : Installation
  command : Bytes
  user : Bytes
  xOnly : Bool
  priority : Int
  scheduler : Int
  environment : List Bytes
  pass : Bytes
  around : Surroundings
  attempt : Attempt

namespace LocalCommand

def process (c : LocalCommand) : SuProcess :=
  suProcess c.sys c.command c.user c.xOnly c.priority c.scheduler c.environment

def settings : Settings := ⟨false, []⟩

def exec (c : LocalCommand) : Option Int :=
  execute c.process c.around settings .NoCheck (some c.pass) c.attempt

def EndsWith (c : LocalCommand) (t : Termination) : Prop :=
  Completed c.process c.around settings (some c.pass) c.attempt t

end LocalCommand

/-- How the processes of a command end: the command and the stub, where they are started, su or
sudo, and the daemon's child. -/
structure Ways where
  command : Option Termination
  stub : Option Termination
  su : Termination
  child : Termination

/-- The ways that can come about. Of su it is used that it exits with 0 only if the stub did. -/
structure Consistent (c : LocalCommand) (w : Ways) : Prop where
  stub_exits : ∀ code, w.stub = some (.exited code) →
    ∃ xit, MainExits w.command xit ∧ Termination.exit xit = .exited code
  su_reports : w.su = .exited 0 → w.stub = some (.exited 0)
  su_ends : ∀ t, Move.finish t ∈ c.attempt.moves → t = w.su
  child_exits : ∀ code, w.child = .exited code →
    ∃ ret, c.exec = some ret ∧ Termination.exit ret = .exited code

/-- Every process exits by itself, and the command with 0. -/
structure Ways.Succeeded (w : Ways) : Prop where
  command : w.command = some (.exited 0)
  stub : ∃ code, w.stub = some (.exited code)
  su : w.su.Normal
  child : w.child.Normal

private theorem waited_of_waitForChild {settings : Settings} {pty : Pty} {moves : List Move}
    {ret : Int} (returns : waitForChild settings pty moves = some ret) :
    ret = -1 ∨ ∃ t, Waited (after settings pty.inputBuffer moves) t ret ∧ ret = t.verdict := by
  simp only [waitForChild] at returns
  split at returns
  case h_1 ret' phase =>
    cases returns
    rcases (sound_after settings pty.inputBuffer moves).returned ret phase with
      failed | ⟨t, gone, value⟩
    · exact Or.inl failed
    · exact Or.inr ⟨t, ⟨gone, phase⟩, value⟩
  case h_2 => cases returns

private theorem endsWith_of_zero {c : LocalCommand} {ret : Int} (returns : c.exec = some ret)
    (zero : Termination.exit ret = .exited 0) : ∃ t, c.EndsWith t ∧ ret = t.verdict := by
  rcases execute_result returns with ⟨launched, pty, conversed, waits⟩ | ⟨-, rfl | rfl⟩
  · rcases waited_of_waitForChild waits with rfl | ⟨t, waited, value⟩
    · exact absurd zero (by decide)
    · exact ⟨t, ⟨launched, pty, ret, conversed, waited⟩, value⟩
  · exact absurd zero (by decide)
  · exact absurd zero (by decide)

/-- Where su has ended behind both conversations, its verdict is what `exec` returns. -/
private theorem exec_of_endsWith {c : LocalCommand} {t : Termination} (ends : c.EndsWith t)
    {ret : Int} (returns : c.exec = some ret) : ret = t.verdict := by
  obtain ⟨launched, pty, ret', conversed, waited⟩ := ends
  have value : ret' = t.verdict := by
    have back := (sound_after LocalCommand.settings pty.inputBuffer c.attempt.moves).gone t waited.1
    exact Phase.returned.inj (waited.2.symm.trans back)
  rcases execute_result returns with ⟨-, pty', conversed', waits⟩ | ⟨apart, -⟩
  · obtain ⟨_, _, _, su, stub⟩ := conversed
    obtain ⟨_, _, _, su', stub'⟩ := conversed'
    cases su.symm.trans su'
    cases stub.symm.trans stub'
    rw [waitForChild, waited.2] at waits
    rw [← value]
    exact (Option.some.inj waits).symm
  · exact absurd ⟨launched, conversed⟩ (apart pty)

private theorem su_of_endsWith {c : LocalCommand} {w : Ways} (consistent : Consistent c w)
    {t : Termination} (ends : c.EndsWith t) : t = w.su := by
  obtain ⟨launched, pty, _, _, waited⟩ := ends
  exact consistent.su_ends t (finish_of_ended _ _ _ (Or.inr waited.1))

/-- Whatever way the processes of a local command end, its session is sent the exit code 0 only
for success exactly if the daemon's child is not killed, and su is not killed where the child
waits for it behind both conversations. -/
theorem zero_sent_for_success_iff {d : Kdesud} (running : d.running = true) {fd : Nat} {pid : Pid}
    (waits : d.waiting pid = some fd) {c : LocalCommand} {w : Ways} (consistent : Consistent c w) :
    (Sends d fd pid w.child.status 0 → w.Succeeded) ↔
      w.child.Normal ∧ ∀ t, c.EndsWith t → t.Normal := by
  rw [sends_iff running waits]
  cases ended : w.child with
  | killed signal core =>
    have misread : (0 : Int) = WEXITSTATUS (Termination.killed signal core).status :=
      (WEXITSTATUS_killed signal core).symm
    refine iff_of_false ?_ ?_
    · intro success
      obtain ⟨code, exited⟩ := (success misread).child
      cases ended.symm.trans exited
    · rintro ⟨⟨code, exited⟩, -⟩
      cases exited
  | exited code =>
    obtain ⟨ret, returns, exits⟩ := consistent.child_exits code ended
    rw [WEXITSTATUS_exited]
    constructor
    · intro success
      refine ⟨⟨code, rfl⟩, fun t ends => ?_⟩
      cases t with
      | exited code' => exact ⟨code', rfl⟩
      | killed signal core =>
        have zero : ret = 0 := exec_of_endsWith ends returns
        subst zero
        have none_left : code = 0 := (Termination.exited.inj exits).symm
        subst none_left
        rw [su_of_endsWith consistent ends]
        exact (success rfl).su
    · rintro ⟨-, normal⟩ zero
      have nothing : code = 0 := by
        have small : code.toNat = 0 := by omega
        exact UInt8.toNat_inj.mp small
      subst nothing
      obtain ⟨t, ends, value⟩ := endsWith_of_zero returns exits
      obtain ⟨code', rfl⟩ := normal t ends
      rw [value, Termination.verdict, Termination.exit_toNat] at exits
      cases exits
      have same := su_of_endsWith consistent ends
      have stub := consistent.su_reports same.symm
      obtain ⟨xit, main, zero'⟩ := consistent.stub_exits 0 stub
      exact ⟨command_of_zero main zero', ⟨0, stub⟩, ⟨0, same.symm⟩, ⟨0, ended⟩⟩

def listing : List Event :=
  [.accept 6 1000 0, .command 6 (ascii "PASS pw 60\n") ⟨1000, 100, 100, none⟩,
    .command 6 (ascii "EXEC ls root\n") ⟨1000, 101, 101, some 77⟩]

def listed (su : Termination) : LocalCommand where
  sys := Accounts.installation
  command := ascii "ls"
  user := ascii "root"
  xOnly := false
  priority := 50
  scheduler := 0
  environment := []
  pass := ascii "pw"
  around := KDESu.Process.Conversing.surroundings
  attempt :=
    { launched := true
      pty := .new (["kdesu_stub\n", "display\n", "display_auth\n", "command\n", "path\n",
        "xwindows_only\n", "user\n", "priority\n", "scheduler\n", "app_startup_id\n",
        "environment\n", "end\n"].map ascii)
      waits := ⟨fun _ => 0, 0⟩
      killFails := false
      moves := [.select .timeout, .wait, .finish su, .select .timeout, .wait] }

private theorem listed_ends (su : Termination) {t : Termination}
    (finished : Move.finish t ∈ (listed su).attempt.moves) : t = su := by
  simpa [listed] using finished

def succeeding : Ways := ⟨some (.exited 0), some (.exited 0), .exited 0, .exited 0⟩

theorem zero_sent_for_success_iff_listed :
    Sends (Kdesud.after .lowest listing) 6 77 succeeding.child.status 0 ∧
      succeeding.Succeeded := by
  have consistent : Consistent (listed (.exited 0)) succeeding := by
    refine ⟨?_, fun _ => rfl, fun t finished => listed_ends (.exited 0) finished, ?_⟩
    · intro code exited
      obtain rfl : 0 = code := Termination.exited.inj (Option.some.inj exited)
      exact ⟨0, .reported (.exited 0) (.ended .gone) (by decide +kernel), rfl⟩
    · intro code exited
      obtain rfl : 0 = code := Termination.exited.inj exited
      exact ⟨0, by decide +kernel, rfl⟩
  have running : (Kdesud.after .lowest listing).running = true := by decide +kernel
  have waits : (Kdesud.after .lowest listing).waiting 77 = some 6 := by decide +kernel
  have sent := (sends_iff running waits succeeding.child.status 0).mpr (by decide)
  refine ⟨sent, (zero_sent_for_success_iff running waits consistent).mpr ⟨⟨0, rfl⟩, ?_⟩ sent⟩
  rintro t ⟨launched, pty, ret, conversed, waited⟩
  exact ⟨0, listed_ends (.exited 0) (finish_of_ended _ _ _ (Or.inr waited.1))⟩

def sigkill : Signal := ⟨9, by decide, by decide⟩

def killing : Ways :=
  ⟨some (.killed sigkill false), some (.killed sigkill false), .killed sigkill false, .exited 0⟩

theorem killed_command_sent_as_zero : ¬∀ (d : Kdesud) fd pid c w, d.running = true →
    d.waiting pid = some fd → Consistent c w → Sends d fd pid w.child.status 0 →
      w.Succeeded := by
  intro always
  have consistent : Consistent (listed (.killed sigkill false)) killing := by
    refine ⟨?_, ?_, fun t finished => listed_ends (.killed sigkill false) finished, ?_⟩
    · intro code exited
      cases Option.some.inj exited
    · intro exited
      cases exited
    · intro code exited
      obtain rfl : 0 = code := Termination.exited.inj exited
      exact ⟨0, by decide +kernel, rfl⟩
  have running : (Kdesud.after .lowest listing).running = true := by decide +kernel
  have waits : (Kdesud.after .lowest listing).waiting 77 = some 6 := by decide +kernel
  have sent := (sends_iff running waits killing.child.status 0).mpr (by decide)
  cases (always _ 6 77 _ killing running waits consistent sent).command

end KDESu.Daemon.Outcomes
