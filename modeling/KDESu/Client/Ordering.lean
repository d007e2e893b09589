/- KDESu/Client/Ordering
   source: src/client.cpp, src/kdesud/handler.cpp, src/suprocess.cpp, src/kdesu_stub.c
   digest: From a client's calls, through the daemon and su, to the command that is started. -/

import KDESu.Client.Requesting
import KDESu.Daemon.Accounts
import KDESu.Daemon.Sessions
import KDESu.Daemon.Strangers
import KDESu.Stub.Scheduling

set_option autoImplicit false
set_option relaxedAutoImplicit false

namespace KDESu.Client.Ordering

open KDESu.ByteArrays
open KDESu.Library.Histories
open KDESu.Library.Environments
open KDESu.Client.Requesting (Call doCommand_call)
open KDESu.Process.Launching (Installation SuProcess StubProcess)
open KDESu.Process.Conversing (Surroundings surroundings)
open KDESu.Daemon.Accounts (suProcess)
open KDESu.Daemon.Handling
open KDESu.Daemon.Requests
open KDESu.Daemon.EventLoop
open KDESu.Daemon.Sessions
open KDESu.Daemon.Strangers (subject handlerAfter_apart running_step)
open KDESu.Stub.Running
open KDESu.Stub.Serving
open KDESu.Stub.Variables (obliging ada)

def noteLine (fd : Nat) (lines : List Bytes) : Event → List Bytes
  | .accept fd' _ _ => if fd = fd' then [] else lines
  | .command fd' buf _ => if fd = fd' then lines ++ [buf] else lines
  | .expire _ | .reap _ _ | .hangup _ => lines

def linesOn (fd : Nat) (es : List Event) : List Bytes := es.foldl (noteLine fd) []

section

variable {fd : Nat} {d : Kdesud} {e : Event} {lines : List Bytes} {requests : List Request}

private theorem noted_command {buf : Bytes} {sys : SysCalls} (running : d.running = true)
    (live : (step d (.command fd buf sys)).1.handlerAt fd ≠ none) :
    ∃ h request, d.handlerAt fd = some h ∧ readRequest buf = some request ∧
      action d (.command fd buf sys) = .perform fd h sys request := by
  rw [handlerAt_step] at live
  simp only [action, running, if_true] at live ⊢
  cases before : d.handlerAt fd with
  | none => simp [before, handlerAfter] at live
  | some h =>
    simp only [before, commandAction] at live ⊢
    split_ifs at live ⊢
    · cases read : readRequest buf with
      | none => simp [read, handlerAfter] at live
      | some request => exact ⟨h, request, rfl, rfl, rfl⟩
    · simp [handlerAfter] at live

private theorem of_accept {fd' : Nat} {uid uninitialised : Int}
    (accepted : action d e = .accept fd' uid uninitialised) :
    e = .accept fd' uid uninitialised := by
  simp only [action] at accepted
  split_ifs at accepted
  cases e with
  | expire | reap => cases accepted
  | accept =>
    cases accepted
    rfl
  | hangup fd'' => cases there : d.handlerAt fd'' <;> simp [there] at accepted
  | command fd'' buf sys =>
    cases there : d.handlerAt fd'' with
    | none => simp [there] at accepted
    | some h =>
      simp only [there, commandAction] at accepted
      split_ifs at accepted
      split at accepted <;> cases accepted

private theorem noted_apart (lines : List Bytes) (requests : List Request)
    (apart : subject e ≠ some fd) :
    noteLine fd lines e = lines ∧ noteRequest fd requests ⟨d, e⟩ = requests ∧
      ((step d e).1.handlerAt fd ≠ none → d.handlerAt fd ≠ none) := by
  refine ⟨?_, ?_, fun live closed => live ?_⟩
  · cases e with
    | accept fd' | command fd' => exact if_neg fun same => apart (congrArg some same.symm)
    | expire | reap | hangup => rfl
  · simp only [noteRequest, acted]
    cases performed : action d e with
    | accept fd' uid uninitialised =>
      cases of_accept performed
      exact if_neg fun same => apart (congrArg some same.symm)
    | perform fd' h sys request =>
      obtain ⟨-, -, buf, rfl, -⟩ := of_perform performed
      exact if_neg fun same => apart (congrArg some same.symm)
    | idle | expire | drop | reap => rfl
  · have unwaited : ∀ pid status, e = .reap pid status → d.waiting pid ≠ some fd := by
      intro pid status _ waits
      obtain ⟨h, there, -⟩ := waiting_eq_some waits
      rw [closed] at there
      cases there
    rw [handlerAt_step, handlerAfter_apart apart unwaited, closed]

private theorem noted (running : d.running = true) (live : (step d e).1.handlerAt fd ≠ none)
    (before : d.handlerAt fd ≠ none → lines.map readRequest = requests.map some) :
    (noteLine fd lines e).map readRequest = (noteRequest fd requests ⟨d, e⟩).map some := by
  by_cases about : subject e = some fd
  · cases e with
    | expire | reap => cases about
    | accept fd' uid uninitialised =>
      obtain rfl := Option.some.inj about
      simp only [noteLine, noteRequest, acted, action, running, if_true, List.map_nil]
    | hangup fd' =>
      obtain rfl := Option.some.inj about
      rw [handlerAt_step] at live
      simp only [action, running, if_true] at live
      cases there : d.handlerAt fd' <;> simp [there, handlerAfter] at live
    | command fd' buf sys =>
      obtain rfl := Option.some.inj about
      obtain ⟨h, request, open_before, read, performed⟩ := noted_command running live
      have earlier := before (by simp [open_before])
      simp only [noteLine, noteRequest, acted, performed, if_true, List.map_append, earlier,
        List.map_cons, List.map_nil, read]
  · obtain ⟨same, same', opened⟩ := noted_apart (d := d) lines requests about
    rw [same, same']
    exact before (opened live)

/-- In every run of a daemon that still runs, each line on an open connection was a request, and
those are what was performed on it. -/
theorem requests_of_lines (fds : Descriptors) (es : List Event) {fd : Nat}
    (running : (Kdesud.after fds es).running = true)
    (live : (Kdesud.after fds es).handlerAt fd ≠ none) :
    (linesOn fd es).map readRequest = (requestsOn fd (Kdesud.past fds es)).map some := by
  induction es using List.reverseRecOn with
  | nil => rfl
  | append_singleton es e ih =>
    rw [Kdesud.after, run_snoc] at running live
    rw [running_step] at running
    have ran := (Bool.and_eq_true_iff.mp running).1
    have seen := noted ran live (ih ran)
    rw [linesOn, List.foldl_append, Kdesud.past, history_snoc, requestsOn, List.foldl_append]
    exact seen

end

theorem request_of_line {call : Call} {request : Request}
    (read : readRequest call.line = some request) : request = call.request := by
  rcases doCommand_call call with ⟨-, meant, -⟩ | ⟨-, refused⟩
  · exact Option.some.inj (read.symm.trans meant)
  · let sys : SysCalls := ⟨0, 0, 0, none⟩
    let h := ConnectionHandler.new 0 0 0
    obtain ⟨h', same⟩ := refused sys h .new
    have me : peerIsMe sys h := rfl
    rw [doCommand_of_request me .new read] at same
    have ending := perform_ending sys h .new request
    rw [same] at ending
    split_ifs at ending <;> cases ending

private theorem requests_of_read {calls : List Call} {requests : List Request}
    (read : calls.map (readRequest ∘ Call.line) = requests.map some) :
    requests = calls.map Call.request := by
  induction calls generalizing requests with
  | nil =>
    cases requests with
    | nil => rfl
    | cons => cases read
  | cons call calls ih =>
    cases requests with
    | nil => cases read
    | cons request requests =>
      obtain ⟨first, later⟩ := List.cons.inj read
      rw [List.map_cons, request_of_line first, ih later]

theorem requests_of_calls (fds : Descriptors) (es : List Event) {fd : Nat} {calls : List Call}
    (running : (Kdesud.after fds es).running = true)
    (live : (Kdesud.after fds es).handlerAt fd ≠ none)
    (lines : linesOn fd es = calls.map Call.line) :
    requestsOn fd (Kdesud.past fds es) = calls.map Call.request := by
  have read := requests_of_lines fds es running live
  rw [lines, List.map_map] at read
  exact requests_of_read read

/-- What the calls leave for an EXEC. -/
def told (calls : List Call) : Settings := settings (calls.map Call.request)

def ordered (inst : Installation) (calls : List Call) (prog user options : Bytes)
    (env : List Bytes) : SuProcess :=
  suProcess inst prog user (contains options (ascii "x")) (told calls).priority
    (told calls).scheduler env

theorem child_of_calls (fds : Descriptors) (es : List Event) {fd : Nat} {calls : List Call}
    {prog user options : Bytes} {env : List Bytes} {sys : SysCalls} {c : Child}
    (lines : linesOn fd es = calls.map Call.line)
    (started : startedBy ⟨Kdesud.after fds es,
      .command fd (Call.exec prog user options env).line sys⟩ = some c) :
    c.process = (told calls).process prog user options env := by
  obtain ⟨fd', h, sys', command, user', options', env', performed, child⟩ := of_startedBy started
  obtain ⟨running, live, buf, same, -, read⟩ := of_perform performed
  cases same
  cases request_of_line read
  rw [process_of_session performed child,
    requests_of_calls fds es running (by simp [live]) lines, told]

theorem command_ordered (inst : Installation) (calls : List Call) (prog user options : Bytes)
    (env : List Bytes) : (ordered inst calls prog user options env).stub.m_command = prog := by
  simp only [ordered, suProcess]
  split <;> rfl

/-- In any run of the daemon, whatever other clients do: the child for an EXEC call without a host
sets up the SuProcess that the client's own calls tell it to; and where this can reach the stub
whole, the user can be had and the calls of the system succeed, the stub starts the very command
of the EXEC call, once and last, with the credentials of the user. -/
theorem ordered_command_started (fds : Descriptors) (es : List Event) {fd : Nat}
    {calls : List Call} {prog user options : Bytes} {env : List Bytes} {sys : SysCalls} {c : Child}
    (lines : linesOn fd es = calls.map Call.line)
    (started : startedBy ⟨Kdesud.after fds es,
      .command fd (Call.exec prog user options env).line sys⟩ = some c)
    (at_home : (told calls).host = []) (inst : Installation) :
    let p := (ordered inst calls prog user options env).stub
    c.process = .su prog user (contains options (ascii "x")) (told calls).priority
      (told calls).scheduler env ∧
    ∀ (b : Build) (system : System) (around : Surroundings) (credentials : Credentials)
      (umask : Nat) (environ : List Bytes) (pw : Passwd),
      Whole around p → Becomes b system (sent around p) credentials pw →
      Able system (sent around p) →
      ∃ ended others q, serve b system around p credentials umask environ = some ended ∧
        ended.stub.started = others ++ [q] ∧ Background others ∧ q.session = true ∧
        q.command = prog ∧ q.input = [] ∧ q.credentials = dropped b pw credentials ∧
        q.umask = umask := by
  intro p
  refine ⟨?_, fun b system around credentials umask environ pw whole becomes able => ?_⟩
  · rw [child_of_calls fds es lines started, Settings.process, if_pos at_home]
  · obtain ⟨ended, others, q, served, list, background, session, command, rest⟩ :=
      @command_started b system around p credentials umask environ pw whole becomes able
    refine ⟨ended, others, q, served, list, background, session, ?_, rest⟩
    rw [command]
    exact command_ordered inst calls prog user options env

def twoClients : List Event :=
  let sys : SysCalls := ⟨1000, 100, 100, none⟩
  [.accept 6 1000 0, .accept 7 1000 0, .command 6 (Call.setPriority 60).line sys,
    .command 7 (Call.setHost (ascii "far")).line sys,
    .command 6 (Call.setPass ⟨ascii "pw", by decide⟩ 60).line sys]

def itsCalls : List Call := [.setPriority 60, .setPass ⟨ascii "pw", by decide⟩ 60]

def itsExec : Event :=
  .command 6 (Call.exec (ascii "vi x") (ascii "root") [] [ascii "EDITOR=vi"]).line
    ⟨1000, 101, 101, some 77⟩

def itsChild : Child :=
  ⟨77, .su (ascii "vi x") (ascii "root") false 60 SchedNormal [ascii "EDITOR=vi"], ascii "pw"⟩

def itsStub : StubProcess :=
  (ordered Daemon.Accounts.installation itsCalls (ascii "vi x") (ascii "root") []
    [ascii "EDITOR=vi"]).stub

theorem whole_itsStub : Whole surroundings itsStub where
  kept := ⟨by decide +kernel, by decide +kernel⟩
  sendable :=
    { display := ⟨by decide +kernel, by decide +kernel, by decide +kernel⟩
      displayAuth := ⟨by decide +kernel, by decide +kernel, by decide +kernel⟩
      command := ⟨by decide +kernel, by decide +kernel⟩
      path := ⟨by decide +kernel, by decide +kernel, by decide +kernel⟩
      user := ⟨by decide +kernel, by decide +kernel, by decide +kernel⟩
      startupId := ⟨by decide +kernel, by decide +kernel, by decide +kernel⟩ }
  carriable := by
    intro s member
    obtain rfl := List.mem_singleton.mp member
    exact ⟨by decide +kernel, by decide +kernel⟩
  solid := by decide +kernel

theorem ordered_command_started_twoClients :
    ∃ ended others q, serve linux obliging surroundings itsStub ada 0o22 [] = some ended ∧
      ended.stub.started = others ++ [q] ∧ Background others ∧ q.session = true ∧
      q.command = ascii "vi x" ∧ q.input = [] ∧
      q.credentials = dropped linux ⟨ascii "root", 0, 0, ascii "/root"⟩ ada ∧ q.umask = 0o22 :=
  have lines : linesOn 6 twoClients = itsCalls.map Call.line := by decide +kernel
  have started : startedBy ⟨Kdesud.after .lowest twoClients, itsExec⟩ = some itsChild := by
    decide +kernel
  (ordered_command_started .lowest twoClients lines started rfl
    Daemon.Accounts.installation).2 linux obliging surroundings ada 0o22 []
    ⟨ascii "root", 0, 0, ascii "/root"⟩ whole_itsStub
    ⟨rfl, Or.inr ⟨rfl, fun _ => rfl, rfl⟩⟩ ⟨fun _ => rfl, fun _ => rfl, rfl, rfl⟩

end KDESu.Client.Ordering
