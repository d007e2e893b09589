/- KDESu/Daemon/Sessions
   source: src/kdesud/handler.cpp, src/kdesud/kdesud.cpp
   digest: What a session has asked for decides its handler and the processes it starts. -/

import KDESu.Daemon.EventLoop

set_option autoImplicit false
set_option relaxedAutoImplicit false

namespace KDESu.Daemon.Sessions

open KDESu.ByteArrays
open KDESu.Library.Histories
open KDESu.Daemon.Repositories (Repository)
open KDESu.Daemon.Handling
open KDESu.Daemon.Requests
open KDESu.Daemon.EventLoop

/-- What the requests of a session leave for its EXEC and EXIT; `timeout` is that of PASS. -/
structure Settings where
  host : Bytes
  priority : Int
  scheduler : Int
  pass : QByteArray
  timeout : Option Int
  needExitCode : Bool
  deriving DecidableEq

def Settings.new : Settings := ⟨[], 50, SchedNormal, none, none, false⟩

def Settings.take (s : Settings) : Request → Settings
  | .pass password timeout => { s with pass := some password, timeout := some timeout }
  | .host host => { s with host := host }
  | .prio priority => { s with priority := priority }
  | .sched scheduler => { s with scheduler := scheduler }
  | .exit => { s with needExitCode := true }
  | _ => s

def settings (requests : List Request) : Settings := requests.foldl Settings.take .new

def Settings.process (s : Settings) (command user options : Bytes) (env : List Bytes) : Process :=
  if s.host = [] then
    .su command user (contains options (ascii "x")) s.priority s.scheduler env
  else .ssh command user s.host

/-- What a moment adds to the requests of the descriptor's present connection. -/
def noteRequest (fd : Nat) (requests : List Request) (m : Moment Kdesud Event) : List Request :=
  match acted m with
  | .accept fd' _ _ => if fd = fd' then [] else requests
  | .perform fd' _ _ request => if fd = fd' then requests ++ [request] else requests
  | _ => requests

def requestsOn (fd : Nat) (past : List (Moment Kdesud Event)) : List Request :=
  past.foldl (noteRequest fd) []

/-- A handler is as its session's settings have it. -/
structure Shows (h : ConnectionHandler) (s : Settings) : Prop where
  host : h.m_Host = s.host
  priority : h.m_Priority = s.priority
  scheduler : h.m_Scheduler = s.scheduler
  pass : h.m_Pass = s.pass
  timeout : ∀ timeout ∈ s.timeout, h.m_Timeout = timeout
  needExitCode : h.m_needExitCode = s.needExitCode

private theorem requestsOn_snoc (fd : Nat) (past : List (Moment Kdesud Event))
    (m : Moment Kdesud Event) :
    requestsOn fd (past ++ [m]) = noteRequest fd (requestsOn fd past) m := by
  rw [requestsOn, List.foldl_append]
  rfl

private theorem settings_snoc (requests : List Request) (request : Request) :
    settings (requests ++ [request]) = (settings requests).take request := by
  rw [settings, List.foldl_append]
  rfl

private theorem Shows.take {h : ConnectionHandler} {s : Settings} (shows : Shows h s)
    (child : Option Child) (request : Request) :
    Shows (handlerOf h child request) (s.take request) := by
  obtain ⟨host, priority, scheduler, pass, timeout, needExitCode⟩ := shows
  cases request with
  | pass password timeout' =>
    exact ⟨host, priority, scheduler, rfl, fun _ same => Option.some.inj same, needExitCode⟩
  | exec => cases child <;> exact ⟨host, priority, scheduler, pass, timeout, needExitCode⟩
  | host host' => exact ⟨rfl, priority, scheduler, pass, timeout, needExitCode⟩
  | prio priority' => exact ⟨host, rfl, scheduler, pass, timeout, needExitCode⟩
  | sched scheduler' => exact ⟨host, priority, rfl, pass, timeout, needExitCode⟩
  | exit => exact ⟨host, priority, scheduler, pass, timeout, rfl⟩
  | _ => exact ⟨host, priority, scheduler, pass, timeout, needExitCode⟩

/-- In every run a handler is what the requests of its own connection have made of it, whatever
was done on other connections. -/
theorem shows_run (fds : Descriptors) (es : List Event) {fd : Nat} {h : ConnectionHandler}
    (live : (Kdesud.after fds es).handlerAt fd = some h) :
    Shows h (settings (requestsOn fd (Kdesud.past fds es))) := by
  refine run_induction (P := fun past d => ∀ h, d.handlerAt fd = some h →
    Shows h (settings (requestsOn fd past))) ?_ ?_ es h live
  · intro h live
    cases live
  · intro past d ev ih h' live
    have origin := handler_origin live
    rw [requestsOn_snoc]
    simp only [noteRequest, acted]
    generalize action d ev = a at origin ⊢
    cases origin with
    | kept before accepted performed reaped =>
      have shows := ih h' before
      cases a with
      | accept fd' uid uninitialised =>
        have other : fd ≠ fd' := fun same => accepted uid uninitialised (same ▸ rfl)
        simpa only [if_neg other] using shows
      | perform fd' h sys request =>
        have other : fd ≠ fd' := fun same => performed h sys request (same ▸ rfl)
        simpa only [if_neg other] using shows
      | _ => exact shows
    | accepted uid uninitialised new =>
      simp only [if_true, new]
      exact ⟨rfl, rfl, rfl, rfl, fun _ none => (Option.not_mem_none _ none).elim, rfl⟩
    | performed h sys request before after =>
      simp only [if_true, settings_snoc, after]
      exact (ih h before).take _ request
    | reaped h pid status before waits after =>
      obtain ⟨host, priority, scheduler, pass, timeout, needExitCode⟩ := ih h before
      rw [after]
      exact ⟨host, priority, scheduler, pass, timeout, needExitCode⟩

private theorem launch_child {sys : SysCalls} {h : ConnectionHandler} {repo : Repository}
    {command user options pass : Bytes} {env : List Bytes} {c : Child}
    (started : (launch sys h repo command user options env pass).child = some c) :
    sys.fork = some c.pid ∧ c.process = process h command user options env := by
  simp only [launch] at started
  split at started
  · cases started
  · rename_i pid forked
    cases started
    exact ⟨forked, rfl⟩

theorem process_of_child {sys : SysCalls} {h : ConnectionHandler} {repo : Repository}
    {command user options : Bytes} {env : List Bytes} {c : Child}
    (started : (perform sys h repo (.exec command user options env)).child = some c) :
    sys.fork = some c.pid ∧ c.process = process h command user options env := by
  simp only [perform, execCommand] at started
  split at started
  · exact launch_child started
  · split at started
    · cases started
    · exact launch_child started

def startedBy (m : Moment Kdesud Event) : Option Child :=
  match acted m with
  | .perform _ h sys request => (perform sys h m.before.repo request).child
  | _ => none

theorem of_startedBy {d : Kdesud} {ev : Event} {c : Child} (started : startedBy ⟨d, ev⟩ = some c) :
    ∃ fd h sys command user options env,
      action d ev = .perform fd h sys (.exec command user options env) ∧
        (perform sys h d.repo (.exec command user options env)).child = some c := by
  simp only [startedBy, acted] at started
  cases performed : action d ev with
  | perform fd h sys request =>
    simp only [performed] at started
    obtain ⟨command, user, options, env, rfl⟩ := perform_child sys h _ started
    exact ⟨fd, h, sys, command, user, options, env, rfl, started⟩
  | idle | expire | accept | drop | reap => simp [performed] at started

theorem process_of_session {fds : Descriptors} {es : List Event} {ev : Event} {fd : Nat}
    {h : ConnectionHandler} {sys : SysCalls} {command user options : Bytes} {env : List Bytes}
    {c : Child}
    (performed : action (Kdesud.after fds es) ev =
      .perform fd h sys (.exec command user options env))
    (started : (perform sys h (Kdesud.after fds es).repo (.exec command user options env)).child =
      some c) :
    c.process =
      (settings (requestsOn fd (Kdesud.past fds es))).process command user options env := by
  have shows := shows_run fds es (of_perform performed).2.1
  rw [(process_of_child started).2, process, Settings.process, shows.host, shows.priority,
    shows.scheduler]

def inTurn : List Event :=
  let sys : SysCalls := ⟨1000, 100, 100, none⟩
  [.accept 6 1000 0, .accept 7 1000 0, .command 6 (ascii "PRIO 60\n") sys,
    .command 7 (ascii "HOST \"far\"\n") sys, .command 6 (ascii "PASS pw 60\n") sys]

def execInTurn : Event := .command 6 (ascii "EXEC ls root\n") ⟨1000, 101, 101, some 77⟩

end KDESu.Daemon.Sessions
