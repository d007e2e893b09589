/- KDESu/Stub/Running
   source: src/kdesu_stub.c
   digest: What main of kdesu_stub does with its parameters, for all answers of the system. -/

import KDESu.Library.Environments
import KDESu.Stub.Environment
import KDESu.Stub.Reporting

set_option autoImplicit false
set_option relaxedAutoImplicit false

namespace KDESu.Stub.Running

open KDESu.ByteArrays
open KDESu.Library.Environments
open KDESu.Stub.Environment
open KDESu.Stub.Reporting

structure Build where
  HAVE_SETPRIORITY : Bool
  HAVE_INITGROUPS : Bool
  POSIX1B_SCHEDULING : Bool
  deriving DecidableEq, Repr

structure Params where
  kdesu_stub : Bytes
  display : Bytes
  display_auth : Bytes
  command : Bytes
  path : Bytes
  xwindows_only : Bytes
  user : Bytes
  priority : Bytes
  scheduler : Bytes
  app_startup_id : Bytes
  deriving DecidableEq, Repr

def Params.ofValues : List Bytes → Option Params
  | [kdesu_stub, display, display_auth, command, path, xwindows_only, user, priority, scheduler,
      app_startup_id] =>
    some ⟨kdesu_stub, display, display_auth, command, path, xwindows_only, user, priority,
      scheduler, app_startup_id⟩
  | _ => none

structure Passwd where
  pw_name : Bytes
  pw_uid : Nat
  pw_gid : Nat
  pw_dir : Bytes
  deriving DecidableEq, Repr

/-- The answers of the system in one run; each call is made at most once, `waitpid` apart. A
`Bool` says whether the call succeeds, and `mkstemp` puts its six characters into the name. -/
structure System where
  getpwnam : Bytes → Option Passwd
  sched_get_priority_min : Int
  sched_get_priority_max : Int
  sched_setscheduler : Bool
  setpriority : Bool
  setgid : Bool
  initgroups : Bool
  setuid : Bool
  mkstemp : Option Bytes
  popen : Bool
  system : Bool
  fork : Bool
  execl : Bool
  waitpid : List Waitpid
  unlink : Bool

/-- The groups of a process beside its own: those it was started with, or those of an account. -/
inductive Groups
  | inherited
  | initgroups (name : Bytes) (gid : Nat)
  deriving DecidableEq, Repr

structure Credentials where
  uid : Nat
  gid : Nat
  groups : Groups
  deriving DecidableEq, Repr

/-- The nice value or the FIFO priority that was set; with neither, the process has what it was
started with. -/
structure Scheduling where
  nice : Option Int
  fifo : Option Int
  deriving DecidableEq, Repr

structure File where
  path : Bytes
  owner : Nat
  mode : Nat
  deriving DecidableEq, Repr

structure Started where
  command : Bytes
  input : Bytes
  credentials : Credentials
  environ : List Bytes
  umask : Nat
  scheduling : Scheduling
  session : Bool
  deriving DecidableEq, Repr

/-- The process, the files it made that are still there, and the programs it has started. -/
structure StubState where
  credentials : Credentials
  umask : Nat
  environ : List Bytes
  scheduling : Scheduling
  xauthority : Bytes
  files : List File
  started : List Started
  printed : List Bytes
  deriving DecidableEq, Repr

def StubState.begin (credentials : Credentials) (umask : Nat) (environ : List Bytes) : StubState :=
  ⟨credentials, umask, environ, ⟨none, none⟩, [], [], [], []⟩

/-- How a run ends: with an exit code, or with none while it waits. -/
structure Ended where
  code : Option Int
  stub : StubState
  deriving DecidableEq, Repr

abbrev equals : UInt8 := 61

def xsetenv (name value : Bytes) (s : StubState) : StubState :=
  { s with environ := putenv equals (entry equals name value) s.environ }

def unset (name : Bytes) (s : StubState) : StubState :=
  { s with environ := unsetenv equals name s.environ }

def exit (code : Int) (s : StubState) : Except Ended StubState := .error ⟨some code, s⟩

def start (command input : Bytes) (session : Bool) (s : StubState) : StubState :=
  { s with started := s.started ++
      [⟨command, input, s.credentials, s.environ, s.umask, s.scheduling, session⟩] }

/-- `atoi` of the C library: `strtol` stops at the bounds of a long, and the int wraps. -/
def atoi (s : Bytes) : Int :=
  let s := s.dropWhile isspace
  let (negative, s) :=
    match s with
    | 45 :: s => (true, s)
    | 43 :: s => (false, s)
    | s => (false, s)
  let n : Int := numeral (s.takeWhile isdigit)
  let long := if negative then max (-n) (-2 ^ 63) else min n (2 ^ 63 - 1)
  (long + 2 ^ 31) % 2 ^ 32 - 2 ^ 31

def restoreLocale (s : StubState) : StubState :=
  match getenv equals (ascii "KDESU_LC_ALL") s.environ with
  | some kdesu_lc_all => xsetenv (ascii "LC_ALL") kdesu_lc_all s
  | none => unset (ascii "LC_ALL") s

def setVariables (v : Params) (s : StubState) : StubState :=
  let s := xsetenv (ascii "PATH") v.path s
  let s := xsetenv (ascii "DESKTOP_STARTUP_ID") v.app_startup_id s
  unset (ascii "XDG_RUNTIME_DIR") (restoreLocale s)

/-- `(int)(prio * range / 100 + 0.5)`, which cuts towards 0. -/
def scale (prio range : Int) : Int := Int.tdiv (prio * range + 50) 100

def setScheduling (b : Build) (sys : System) (v : Params) (s : StubState) : StubState :=
  let prio := atoi v.priority
  if v.scheduler = ascii "realtime" then
    if b.POSIX1B_SCHEDULING then
      let min := sys.sched_get_priority_min
      let sched_priority := min + scale prio (sys.sched_get_priority_max - min)
      if sys.sched_setscheduler then
        { s with scheduling := { s.scheduling with fifo := some sched_priority } }
      else s
    else { s with printed := s.printed ++ [ascii "kdesu_stub: realtime scheduling not supported"] }
  else if b.HAVE_SETPRIORITY && sys.setpriority then
    { s with scheduling := { s.scheduling with nice := some (20 - scale prio 40) } }
  else s

def joinGroups (b : Build) (pw : Passwd) (groups : Groups) : Groups :=
  if b.HAVE_INITGROUPS then .initgroups pw.pw_name pw.pw_gid else groups

def dropPrivileges (b : Build) (sys : System) (pw : Passwd) (s : StubState) :
    Except Ended StubState :=
  if s.credentials.uid = pw.pw_uid then .ok s
  else if !sys.setgid then exit 1 s
  else
    let s := { s with credentials := { s.credentials with gid := pw.pw_gid } }
    if b.HAVE_INITGROUPS && !sys.initgroups then exit 1 s
    else
      let groups := joinGroups b pw s.credentials.groups
      let s := { s with credentials := { s.credentials with groups := groups } }
      if !sys.setuid then exit 1 s
      else
        let s := { s with credentials := { s.credentials with uid := pw.pw_uid } }
        .ok (xsetenv (ascii "HOME") pw.pw_dir s)

def authDisplay (display : Bytes) : Bytes :=
  if ascii "localhost:" <+: display then display.drop 9 else display

def addLine (v : Params) : Bytes :=
  ascii "add " ++ authDisplay v.display ++ [blank] ++ v.display_auth ++ [newline]

def authFile (unique : Bytes) : Bytes := ascii "/tmp/xauth.XXXX" ++ unique

def handleDisplay (sys : System) (v : Params) (s : StubState) : Except Ended StubState :=
  if v.display = ascii "no" then .ok s
  else
    let s := xsetenv (ascii "DISPLAY") v.display s
    if v.display_auth = [] then .ok s
    else
      let oldumask := s.umask
      let s := { s with umask := 0o77 }
      match sys.mkstemp with
      | none => exit 1 { s with umask := oldumask }
      | some unique =>
          let xauthority := authFile unique
          let file := ⟨xauthority, s.credentials.uid, 0o600 &&& (0o777 ^^^ s.umask)⟩
          let s := { s with xauthority := xauthority, files := s.files ++ [file] }
          let s := { s with umask := oldumask }
          let s := xsetenv (ascii "XAUTHORITY") xauthority s
          if !sys.popen then exit 1 s
          else .ok (start (ascii "xauth >/dev/null 2>&1") (addLine v) false s)

def stopKdeinit (sys : System) (v : Params) (s : StubState) : StubState :=
  if v.xwindows_only ≠ ascii "no" ∧ sys.system then start (ascii "kdeinit5 --suicide") [] false s
  else s

def unlink (sys : System) (path : Bytes) (s : StubState) : StubState :=
  if sys.unlink then { s with files := s.files.filter (·.path ≠ path) } else s

/-- The child behind `fork`. -/
def execCommand (sys : System) (v : Params) (s : StubState) : StubState :=
  if sys.execl then start (dequoteBuf v.command) [] true s else s

/-- The parent behind `fork`: it waits, and removes its temporary file. -/
def awaitCommand (sys : System) (s : StubState) : Ended :=
  match waitCommand 1 sys.waitpid with
  | none => ⟨none, s⟩
  | some xit => ⟨some xit, if s.xauthority ≠ [] then unlink sys s.xauthority s else s⟩

def runCommand (sys : System) (v : Params) (s : StubState) : Ended :=
  if !sys.fork then ⟨some 1, s⟩ else awaitCommand sys (execCommand sys v s)

/-- `main` behind the change of the user. -/
def runAs (sys : System) (v : Params) (s : StubState) : Ended :=
  match handleDisplay sys v s with
  | .error ended => ended
  | .ok s => runCommand sys v (stopKdeinit sys v s)

/-- What `main` does for the user it has found, up to the change of the user. -/
def prepare (b : Build) (sys : System) (v : Params) (pw : Passwd) (s : StubState) : StubState :=
  setScheduling b sys v
    (unset (ascii "DBUS_SESSION_BUS_ADDRESS") (xsetenv (ascii "HOME") pw.pw_dir s))

/-- `main` behind its `end`. -/
def main (b : Build) (sys : System) (v : Params) (s : StubState) : Ended :=
  let s := setVariables v s
  match sys.getpwnam v.user with
  | none =>
      ⟨some 1, { s with
        printed := s.printed ++ [ascii "kdesu_stub: user " ++ v.user ++ ascii " does not exist!"] }⟩
  | some pw =>
      match dropPrivileges b sys pw (prepare b sys v pw s) with
      | .error ended => ended
      | .ok s => runAs sys v s

structure Keeps (s t : StubState) : Prop where
  umask : t.umask = s.umask
  xauthority : t.xauthority = s.xauthority
  files : t.files = s.files
  started : t.started = s.started

theorem Keeps.refl (s : StubState) : Keeps s s := ⟨rfl, rfl, rfl, rfl⟩

theorem Keeps.trans {s t u : StubState} (first : Keeps s t) (second : Keeps t u) : Keeps s u :=
  ⟨second.umask.trans first.umask, second.xauthority.trans first.xauthority,
    second.files.trans first.files, second.started.trans first.started⟩

theorem keeps_xsetenv (name value : Bytes) (s : StubState) : Keeps s (xsetenv name value s) :=
  ⟨rfl, rfl, rfl, rfl⟩

theorem keeps_unset (name : Bytes) (s : StubState) : Keeps s (unset name s) :=
  ⟨rfl, rfl, rfl, rfl⟩

@[simp] theorem xsetenv_credentials (name value : Bytes) (s : StubState) :
    (xsetenv name value s).credentials = s.credentials := rfl

@[simp] theorem unset_credentials (name : Bytes) (s : StubState) :
    (unset name s).credentials = s.credentials := rfl

theorem keeps_setVariables (v : Params) (s : StubState) :
    Keeps s (setVariables v s) ∧ (setVariables v s).credentials = s.credentials := by
  have early := (keeps_xsetenv (ascii "PATH") v.path s).trans
    (keeps_xsetenv (ascii "DESKTOP_STARTUP_ID") v.app_startup_id _)
  simp only [setVariables, restoreLocale, unset_credentials]
  split
  · refine ⟨(early.trans (keeps_xsetenv _ _ _)).trans (keeps_unset _ _), ?_⟩
    simp only [xsetenv_credentials]
  · refine ⟨(early.trans (keeps_unset _ _)).trans (keeps_unset _ _), ?_⟩
    simp only [unset_credentials, xsetenv_credentials]

theorem keeps_setScheduling (b : Build) (sys : System) (v : Params) (s : StubState) :
    Keeps s (setScheduling b sys v s) ∧
      (setScheduling b sys v s).credentials = s.credentials ∧
      (setScheduling b sys v s).environ = s.environ := by
  simp only [setScheduling]
  split_ifs <;> exact ⟨⟨rfl, rfl, rfl, rfl⟩, rfl, rfl⟩

/-- The stub may become this account. -/
def Granted (b : Build) (sys : System) (pw : Passwd) (c : Credentials) : Prop :=
  c.uid = pw.pw_uid ∨
    sys.setgid = true ∧ (b.HAVE_INITGROUPS = true → sys.initgroups = true) ∧ sys.setuid = true

/-- What the stub has when it is the account. -/
def dropped (b : Build) (pw : Passwd) (c : Credentials) : Credentials :=
  if c.uid = pw.pw_uid then c else ⟨pw.pw_uid, pw.pw_gid, joinGroups b pw c.groups⟩

theorem dropped_uid (b : Build) (pw : Passwd) (c : Credentials) :
    (dropped b pw c).uid = pw.pw_uid := by
  rw [dropped]
  split_ifs with same
  · exact same
  · rfl

theorem dropPrivileges_ok {b : Build} {sys : System} {pw : Passwd} {s t : StubState}
    (went : dropPrivileges b sys pw s = .ok t) :
    Granted b sys pw s.credentials ∧ Keeps s t ∧ t.credentials = dropped b pw s.credentials ∧
      t.scheduling = s.scheduling ∧
      (t.environ = s.environ ∨ t.environ = (xsetenv (ascii "HOME") pw.pw_dir s).environ) := by
  simp only [dropPrivileges] at went
  split_ifs at went with same gid groups uid
  · cases went
    exact ⟨Or.inl same, Keeps.refl _, (if_pos same).symm, rfl, Or.inl rfl⟩
  · cases went
  · cases went
  · cases went
  · cases went
    have member : b.HAVE_INITGROUPS = true → sys.initgroups = true := by simpa using groups
    refine ⟨Or.inr ⟨by simpa using gid, member, by simpa using uid⟩, ⟨rfl, rfl, rfl, rfl⟩, ?_,
      rfl, Or.inr rfl⟩
    rw [dropped, if_neg same]
    rfl

theorem dropPrivileges_error {b : Build} {sys : System} {pw : Passwd} {s : StubState} {e : Ended}
    (failed : dropPrivileges b sys pw s = .error e) :
    ¬Granted b sys pw s.credentials ∧ Keeps s e.stub ∧ e.code = some 1 := by
  simp only [dropPrivileges] at failed
  split_ifs at failed with same gid groups uid
  · cases failed
    refine ⟨?_, ⟨rfl, rfl, rfl, rfl⟩, rfl⟩
    rintro (here | ⟨set, -, -⟩)
    · exact same here
    · simp [set] at gid
  · cases failed
    refine ⟨?_, ⟨rfl, rfl, rfl, rfl⟩, rfl⟩
    rintro (here | ⟨-, set, -⟩)
    · exact same here
    · obtain ⟨has, fails⟩ : b.HAVE_INITGROUPS = true ∧ sys.initgroups = false := by
        simpa using groups
      rw [set has] at fails
      cases fails
  · cases failed
    refine ⟨?_, ⟨rfl, rfl, rfl, rfl⟩, rfl⟩
    rintro (here | ⟨-, -, set⟩)
    · exact same here
    · simp [set] at uid

/-- A cookie is to be added for a display. -/
def Asks (v : Params) : Prop := v.display ≠ ascii "no" ∧ v.display_auth ≠ []

def authorityFile (unique : Bytes) (uid : Nat) : File := ⟨authFile unique, uid, 0o600⟩

structure StartedBy (s : StubState) (p : Started) : Prop where
  credentials : p.credentials = s.credentials
  environ : p.environ = s.environ
  umask : p.umask = s.umask
  scheduling : p.scheduling = s.scheduling

theorem startedBy_start (command input : Bytes) (session : Bool) (s : StubState) :
    StartedBy s ⟨command, input, s.credentials, s.environ, s.umask, s.scheduling, session⟩ :=
  ⟨rfl, rfl, rfl, rfl⟩

inductive Displayed (sys : System) (v : Params) (s : StubState) : StubState → Prop
  | absent (no : v.display = ascii "no") : Displayed sys v s s
  | plain (shown : v.display ≠ ascii "no") (quiet : v.display_auth = []) :
      Displayed sys v s (xsetenv (ascii "DISPLAY") v.display s)
  | added {t : StubState} (asks : Asks v) {unique : Bytes} (made : sys.mkstemp = some unique)
      (popen : sys.popen = true) (same : t.credentials = s.credentials)
      (environ : t.environ =
        (xsetenv (ascii "XAUTHORITY") (authFile unique)
          (xsetenv (ascii "DISPLAY") v.display s)).environ)
      (umask : t.umask = s.umask) (scheduling : t.scheduling = s.scheduling)
      (xauthority : t.xauthority = authFile unique)
      (files : t.files = s.files ++ [authorityFile unique s.credentials.uid])
      {p : Started} (by_t : StartedBy t p) (started : t.started = s.started ++ [p])
      (unled : p.session = false) : Displayed sys v s t

inductive Undisplayed (sys : System) (v : Params) (s : StubState) : Ended → Prop
  | unmade {e : Ended} (asks : Asks v) (made : sys.mkstemp = none) (keeps : Keeps s e.stub)
      (code : e.code = some 1) : Undisplayed sys v s e
  | unadded {e : Ended} (asks : Asks v) {unique : Bytes} (made : sys.mkstemp = some unique)
      (popen : sys.popen = false) (umask : e.stub.umask = s.umask)
      (files : e.stub.files = s.files ++ [authorityFile unique s.credentials.uid])
      (started : e.stub.started = s.started) (code : e.code = some 1) : Undisplayed sys v s e

theorem handleDisplay_ok {sys : System} {v : Params} {s t : StubState}
    (went : handleDisplay sys v s = .ok t) : Displayed sys v s t := by
  simp only [handleDisplay] at went
  cases made : sys.mkstemp with
  | none =>
    simp only [made] at went
    split_ifs at went with no quiet
    · cases went
      exact .absent no
    · cases went
      exact .plain no quiet
    · cases went
  | some unique =>
    simp only [made] at went
    split_ifs at went with no quiet popen
    · cases went
      exact .absent no
    · cases went
      exact .plain no quiet
    · cases went
    · cases went
      exact .added ⟨no, quiet⟩ made (by simpa using popen) rfl rfl rfl rfl rfl rfl
        (startedBy_start _ _ _ _) rfl rfl

theorem Displayed.same {sys : System} {v : Params} {s t : StubState}
    (displayed : Displayed sys v s t) :
    t.credentials = s.credentials ∧ t.umask = s.umask ∧ t.scheduling = s.scheduling := by
  cases displayed with
  | absent no => exact ⟨rfl, rfl, rfl⟩
  | plain shown quiet => exact ⟨rfl, rfl, rfl⟩
  | added asks made popen same environ umask scheduling => exact ⟨same, umask, scheduling⟩

theorem Displayed.keeps {sys : System} {v : Params} {s t : StubState}
    (displayed : Displayed sys v s t) (quiet : ¬Asks v) :
    Keeps s t := by
  cases displayed with
  | absent no => exact Keeps.refl s
  | plain shown silent => exact keeps_xsetenv _ _ s
  | added asks => exact absurd asks quiet

theorem handleDisplay_error {sys : System} {v : Params} {s : StubState} {e : Ended}
    (failed : handleDisplay sys v s = .error e) : Undisplayed sys v s e := by
  simp only [handleDisplay] at failed
  cases made : sys.mkstemp with
  | none =>
    simp only [made] at failed
    split_ifs at failed with no quiet
    cases failed
    exact .unmade ⟨no, quiet⟩ made ⟨rfl, rfl, rfl, rfl⟩ rfl
  | some unique =>
    simp only [made] at failed
    split_ifs at failed with no quiet popen
    cases failed
    exact .unadded ⟨no, quiet⟩ made (by simpa using popen) rfl rfl rfl rfl

theorem stopKdeinit_started {sys : System} {v : Params} {s : StubState} {p : Started}
    (member : p ∈ (stopKdeinit sys v s).started) : p ∈ s.started ∨ StartedBy s p := by
  rw [stopKdeinit] at member
  split_ifs at member with run
  · rcases List.mem_append.mp member with old | new
    · exact Or.inl old
    · obtain rfl := List.mem_singleton.mp new
      exact Or.inr (startedBy_start _ _ _ _)
  · exact Or.inl member

theorem stopKdeinit_keeps (sys : System) (v : Params) (s : StubState) :
    stopKdeinit sys v s = { s with started := (stopKdeinit sys v s).started } := by
  rw [stopKdeinit]
  split_ifs <;> rfl

theorem execCommand_started {sys : System} {v : Params} {s : StubState} {p : Started}
    (member : p ∈ (execCommand sys v s).started) : p ∈ s.started ∨ StartedBy s p := by
  rw [execCommand] at member
  split_ifs at member
  · rcases List.mem_append.mp member with old | new
    · exact Or.inl old
    · obtain rfl := List.mem_singleton.mp new
      exact Or.inr (startedBy_start _ _ _ _)
  · exact Or.inl member

theorem awaitCommand_keeps (sys : System) (s : StubState) :
    (awaitCommand sys s).stub.started = s.started ∧
      (awaitCommand sys s).stub.umask = s.umask := by
  simp only [awaitCommand]
  cases waitCommand 1 sys.waitpid with
  | none => exact ⟨rfl, rfl⟩
  | some xit =>
    simp only [unlink]
    split_ifs <;> exact ⟨rfl, rfl⟩

theorem runCommand_started {sys : System} {v : Params} {s : StubState} {p : Started}
    (member : p ∈ (runCommand sys v s).stub.started) : p ∈ s.started ∨ StartedBy s p := by
  rw [runCommand] at member
  split_ifs at member with unforked
  · exact Or.inl member
  · rw [(awaitCommand_keeps sys _).1] at member
    exact execCommand_started member

theorem runAs_started {sys : System} {v : Params} {s : StubState} {p : Started}
    (member : p ∈ (runAs sys v s).stub.started) :
    p ∈ s.started ∨ ∃ t, handleDisplay sys v s = .ok t ∧ StartedBy t p := by
  cases displayed : handleDisplay sys v s with
  | error e =>
    simp only [runAs, displayed] at member
    cases handleDisplay_error displayed with
    | unmade asks made keeps code => exact Or.inl (keeps.started ▸ member)
    | unadded asks made popen umask files started code => exact Or.inl (started ▸ member)
  | ok t =>
    have new {q : Started} (by_t : StartedBy t q) :
        ∃ u, (.ok t : Except Ended StubState) = .ok u ∧ StartedBy u q := ⟨t, rfl, by_t⟩
    have same := stopKdeinit_keeps sys v t
    simp only [runAs, displayed] at member
    rcases runCommand_started member with earlier | by_u
    · rcases stopKdeinit_started earlier with older | by_t
      · cases handleDisplay_ok displayed with
        | absent no => exact Or.inl older
        | plain shown quiet => exact Or.inl older
        | added asks made popen same environ umask scheduling xauthority files by_t started =>
          rw [started] at older
          rcases List.mem_append.mp older with oldest | xauth
          · exact Or.inl oldest
          · exact Or.inr (new (List.mem_singleton.mp xauth ▸ by_t))
      · exact Or.inr (new by_t)
    · rw [same] at by_u
      exact Or.inr (new ⟨by_u.credentials, by_u.environ, by_u.umask, by_u.scheduling⟩)

theorem keeps_prepare (b : Build) (sys : System) (v : Params) (pw : Passwd) (s : StubState) :
    Keeps s (prepare b sys v pw (setVariables v s)) ∧
      (prepare b sys v pw (setVariables v s)).credentials = s.credentials := by
  obtain ⟨first, same⟩ := keeps_setVariables v s
  have middle := (keeps_xsetenv (ascii "HOME") pw.pw_dir (setVariables v s)).trans
    (keeps_unset (ascii "DBUS_SESSION_BUS_ADDRESS") _)
  obtain ⟨later, kept, -⟩ := keeps_setScheduling b sys v
    (unset (ascii "DBUS_SESSION_BUS_ADDRESS") (xsetenv (ascii "HOME") pw.pw_dir (setVariables v s)))
  refine ⟨(first.trans middle).trans later, ?_⟩
  rw [prepare, kept, unset_credentials, xsetenv_credentials, same]

/-- The two ways of a run: the user is refused, and it ends before any program and any file; or it
goes on as this user. -/
inductive Course (b : Build) (sys : System) (v : Params) (s : StubState) : Ended → Prop
  | refused {e : Ended}
      (none_granted : ∀ pw, sys.getpwnam v.user = some pw → ¬Granted b sys pw s.credentials)
      (keeps : Keeps s e.stub) (code : e.code = some 1) : Course b sys v s e
  | became {pw : Passwd} {t : StubState} (found : sys.getpwnam v.user = some pw)
      (granted : Granted b sys pw s.credentials) (keeps : Keeps s t)
      (credentials : t.credentials = dropped b pw s.credentials)
      (went : dropPrivileges b sys pw (prepare b sys v pw (setVariables v s)) = .ok t) :
      Course b sys v s (runAs sys v t)

theorem main_course (b : Build) (sys : System) (v : Params) (s : StubState) :
    Course b sys v s (main b sys v s) := by
  cases found : sys.getpwnam v.user with
  | none =>
    simp only [main, found]
    have keeps := (keeps_setVariables v s).1
    refine .refused (fun pw same => ?_) ⟨keeps.umask, keeps.xauthority, keeps.files,
      keeps.started⟩ rfl
    rw [found] at same
    cases same
  | some pw =>
    simp only [main, found]
    obtain ⟨keeps, same⟩ := keeps_prepare b sys v pw s
    cases went : dropPrivileges b sys pw (prepare b sys v pw (setVariables v s)) with
    | error e =>
      obtain ⟨refused, kept, code⟩ := dropPrivileges_error went
      refine .refused (fun other known => ?_) (keeps.trans kept) code
      obtain rfl : pw = other := Option.some.inj (found.symm.trans known)
      exact same ▸ refused
    | ok t =>
      obtain ⟨granted, kept, credentials, -, -⟩ := dropPrivileges_ok went
      rw [same] at granted credentials
      exact .became found granted (keeps.trans kept) credentials went

def Becomes (b : Build) (sys : System) (v : Params) (c : Credentials) (pw : Passwd) : Prop :=
  sys.getpwnam v.user = some pw ∧ Granted b sys pw c

theorem main_started {b : Build} {sys : System} {v : Params} {c : Credentials} {umask : Nat}
    {environ : List Bytes} {p : Started}
    (member : p ∈ (main b sys v (.begin c umask environ)).stub.started) :
    ∃ pw t u, Becomes b sys v c pw ∧
      dropPrivileges b sys pw
        (prepare b sys v pw (setVariables v (.begin c umask environ))) = .ok t ∧
      handleDisplay sys v t = .ok u ∧ StartedBy u p := by
  have course := main_course b sys v (.begin c umask environ)
  generalize main b sys v (.begin c umask environ) = e at course member
  cases course with
  | refused none_granted keeps code =>
    rw [keeps.started] at member
    cases member
  | @became pw t found granted keeps credentials went =>
    rcases runAs_started member with old | ⟨u, displayed, by_u⟩
    · rw [keeps.started] at old
      cases old
    · exact ⟨pw, t, u, ⟨found, granted⟩, went, displayed, by_u⟩

theorem started_credentials {b : Build} {sys : System} {v : Params} {c : Credentials} {umask : Nat}
    {environ : List Bytes} {p : Started}
    (member : p ∈ (main b sys v (.begin c umask environ)).stub.started) :
    p.umask = umask ∧ ∃ pw, Becomes b sys v c pw ∧ p.credentials = dropped b pw c := by
  obtain ⟨pw, t, u, becomes, went, displayed, by_u⟩ := main_started member
  obtain ⟨-, kept, credentials, -⟩ := dropPrivileges_ok went
  obtain ⟨keeps, same⟩ := keeps_prepare b sys v pw (.begin c umask environ)
  obtain ⟨same', umask', -⟩ := (handleDisplay_ok displayed).same
  rw [same] at credentials
  exact ⟨by_u.umask.trans (umask'.trans (kept.umask.trans keeps.umask)), pw, becomes,
    by_u.credentials.trans (same'.trans credentials)⟩

/-- Every program that the stub starts runs with the credentials of the user that it was asked
for, and where the stub cannot have them, it makes no file, starts nothing, and fails. -/
theorem programs_run_as_user (b : Build) (sys : System) (v : Params) (c : Credentials)
    (umask : Nat) (environ : List Bytes) :
    let ended := main b sys v (.begin c umask environ)
    (∀ p ∈ ended.stub.started, p.umask = umask ∧
      ∃ pw, Becomes b sys v c pw ∧ p.credentials = dropped b pw c) ∧
    ((∀ pw, ¬Becomes b sys v c pw) →
      ended.stub.started = [] ∧ ended.stub.files = [] ∧ ended.code = some 1) := by
  intro ended
  refine ⟨fun p member => started_credentials member, fun never => ?_⟩
  have course : Course b sys v (.begin c umask environ) ended := main_course b sys v _
  generalize ended = e at course
  cases course with
  | refused none_granted keeps code => exact ⟨keeps.started, keeps.files, code⟩
  | @became pw t found granted => exact absurd ⟨found, granted⟩ (never pw)

/-- The run comes to the end of its wait. -/
def WaitEnds (sys : System) : Prop :=
  sys.popen = true ∧ sys.fork = true ∧ (waitCommand 1 sys.waitpid).isSome = true

theorem execCommand_keeps (sys : System) (v : Params) (s : StubState) :
    (execCommand sys v s).umask = s.umask ∧ (execCommand sys v s).xauthority = s.xauthority ∧
      (execCommand sys v s).files = s.files := by
  rw [execCommand]
  split_ifs <;> exact ⟨rfl, rfl, rfl⟩

theorem runCommand_umask (sys : System) (v : Params) (s : StubState) :
    (runCommand sys v s).stub.umask = s.umask := by
  rw [runCommand]
  split_ifs
  · rfl
  · rw [(awaitCommand_keeps sys _).2, (execCommand_keeps sys v s).1]

theorem runCommand_files (sys : System) (v : Params) (s : StubState) :
    (runCommand sys v s).stub.files =
      if (sys.fork = true ∧ (waitCommand 1 sys.waitpid).isSome = true) ∧ sys.unlink = true ∧
          s.xauthority ≠ [] then
        s.files.filter (·.path ≠ s.xauthority)
      else s.files := by
  obtain ⟨-, xauthority, files⟩ := execCommand_keeps sys v s
  rw [runCommand]
  cases fork : sys.fork with
  | false => simp
  | true =>
    cases waits : waitCommand 1 sys.waitpid with
    | none => simp [awaitCommand, waits, files]
    | some xit =>
      by_cases unset : s.xauthority = []
      · simp [awaitCommand, waits, xauthority, files, unset]
      · cases unlinked : sys.unlink with
        | false => simp [awaitCommand, waits, unlink, unlinked, files]
        | true => simp [awaitCommand, waits, unlink, unlinked, xauthority, files, unset]

inductive Leaves (sys : System) (v : Params) (uid : Nat) : List File → Prop
  | quiet (no : ¬Asks v) : Leaves sys v uid []
  | unmade (asks : Asks v) (made : sys.mkstemp = none) : Leaves sys v uid []
  | removed (asks : Asks v) {unique : Bytes} (made : sys.mkstemp = some unique)
      (ends : WaitEnds sys) (unlinked : sys.unlink = true) : Leaves sys v uid []
  | left (asks : Asks v) {unique : Bytes} (made : sys.mkstemp = some unique)
      (stays : ¬WaitEnds sys ∨ sys.unlink = false) : Leaves sys v uid [authorityFile unique uid]

theorem runAs_leaves (sys : System) (v : Params) {s : StubState} (empty : s.files = [])
    (unset : s.xauthority = []) :
    Leaves sys v s.credentials.uid (runAs sys v s).stub.files ∧
      (runAs sys v s).stub.umask = s.umask := by
  cases displayed : handleDisplay sys v s with
  | error e =>
    simp only [runAs, displayed]
    cases handleDisplay_error displayed with
    | unmade asks made keeps code =>
      exact ⟨keeps.files.trans empty ▸ .unmade asks made, keeps.umask⟩
    | unadded asks made popen umask files started code =>
      have stays : ¬WaitEnds sys := fun ends => absurd (popen.symm.trans ends.1) (by decide)
      rw [files, empty]
      exact ⟨.left asks made (Or.inl stays), umask⟩
  | ok t =>
    have kept := stopKdeinit_keeps sys v t
    have umask := congrArg StubState.umask kept
    have xauthority := congrArg StubState.xauthority kept
    have files := congrArg StubState.files kept
    simp only at umask xauthority files
    simp only [runAs, displayed, runCommand_umask, umask]
    have set := handleDisplay_ok displayed
    by_cases asks : Asks v
    · cases set with
      | absent no => exact absurd no asks.1
      | plain shown quiet => exact absurd quiet asks.2
      | @added t asks unique made popen same environ umask' scheduling name files' p by_t started =>
        refine ⟨?_, umask'⟩
        rw [empty] at files'
        have one := files.trans files'
        have named := xauthority.trans name
        have solid : authFile unique ≠ [] := by simp [authFile, ascii]
        rw [runCommand_files, named, one]
        split_ifs with gone
        · simp only [List.nil_append, authorityFile, ne_eq, not_true_eq_false, decide_false,
            Bool.false_eq_true, not_false_eq_true, List.filter_cons_of_neg, List.filter_nil]
          exact .removed asks made ⟨popen, gone.1.1, gone.1.2⟩ gone.2.1
        · have stays : ¬(WaitEnds sys ∧ sys.unlink = true) := fun both =>
            gone ⟨both.1.2, both.2, solid⟩
          rw [not_and_or, Bool.not_eq_true] at stays
          exact .left asks made stays
    · have keeps := set.keeps asks
      refine ⟨?_, keeps.umask⟩
      have nothing : (stopKdeinit sys v t).files = [] := files.trans (keeps.files.trans empty)
      have noName : (stopKdeinit sys v t).xauthority = [] :=
        xauthority.trans (keeps.xauthority.trans unset)
      rw [runCommand_files, if_neg (fun all => all.2.2 noName), nothing]
      exact .quiet asks

/-- In every run the umask is what it was; a file is made only by the user that was asked for, for
its eyes only, and it is left exactly where xauth or the command could not be started, while the
command runs, or where it cannot be unlinked. -/
theorem temporary_file (b : Build) (sys : System) (v : Params) (c : Credentials) (umask : Nat)
    (environ : List Bytes) :
    let ended := main b sys v (.begin c umask environ)
    ended.stub.umask = umask ∧
    (∀ f ∈ ended.stub.files, ∃ pw unique, Becomes b sys v c pw ∧ sys.mkstemp = some unique ∧
      f = authorityFile unique pw.pw_uid) ∧
    (ended.stub.files ≠ [] ↔ (∃ pw, Becomes b sys v c pw) ∧ Asks v ∧ sys.mkstemp.isSome = true ∧
      (¬WaitEnds sys ∨ sys.unlink = false)) := by
  intro ended
  have course : Course b sys v (.begin c umask environ) ended := main_course b sys v _
  generalize ended = e at course
  cases course with
  | refused none_granted keeps code =>
    have nothing : e.stub.files = [] := keeps.files
    refine ⟨keeps.umask, fun f member => ?_, fun left => absurd nothing left, ?_⟩
    · rw [nothing] at member
      cases member
    · rintro ⟨⟨pw, found, granted⟩, -⟩
      exact absurd granted (none_granted pw found)
  | @became pw t found granted keeps credentials went =>
    obtain ⟨leaves, same⟩ := runAs_leaves sys v keeps.files keeps.xauthority
    rw [credentials, dropped_uid] at leaves
    have becomes : Becomes b sys v c pw := ⟨found, granted⟩
    refine ⟨same.trans keeps.umask, ?_, ?_⟩
    · intro f member
      generalize (runAs sys v t).stub.files = files at leaves member
      cases leaves with
      | left asks made stays =>
        exact ⟨pw, _, becomes, made, List.mem_singleton.mp member⟩
      | quiet | unmade | removed => cases member
    · generalize (runAs sys v t).stub.files = files at leaves
      cases leaves with
      | quiet no => exact ⟨fun left => absurd rfl left, fun all => absurd all.2.1 no⟩
      | unmade asks made => exact ⟨fun left => absurd rfl left, fun all => by simp [made] at all⟩
      | removed asks made ends unlinked =>
        refine ⟨fun left => absurd rfl left, fun all => ?_⟩
        rcases all.2.2.2 with stays | fails
        · exact absurd ends stays
        · exact absurd (unlinked.symm.trans fails) (by decide)
      | left asks made stays =>
        exact ⟨fun _ => ⟨⟨pw, becomes⟩, asks, Option.isSome_of_eq_some made, stays⟩,
          fun _ => List.cons_ne_nil _ _⟩

/-- The calls behind the change of the user that have to succeed for the command. -/
structure Able (sys : System) (v : Params) : Prop where
  mkstemp : Asks v → sys.mkstemp.isSome = true
  popen : Asks v → sys.popen = true
  fork : sys.fork = true
  execl : sys.execl = true

theorem handleDisplay_able {sys : System} {v : Params} (able : Able sys v) (s : StubState) :
    ∃ t, handleDisplay sys v s = .ok t := by
  cases displayed : handleDisplay sys v s with
  | ok t => exact ⟨t, rfl⟩
  | error e =>
    cases handleDisplay_error displayed with
    | unmade asks made => exact absurd (able.mkstemp asks) (by simp [made])
    | unadded asks made popen => exact absurd (popen.symm.trans (able.popen asks)) (by decide)

def Background (programs : List Started) : Prop := ∀ p ∈ programs, p.session = false

theorem background_concat {programs : List Started} (background : Background programs)
    {p : Started} (unled : p.session = false) : Background (programs ++ [p]) := by
  intro q member
  rcases List.mem_append.mp member with old | new
  · exact background q old
  · exact List.mem_singleton.mp new ▸ unled

theorem runAs_command {sys : System} {v : Params} {s : StubState} (able : Able sys v)
    (background : Background s.started) :
    ∃ t, handleDisplay sys v s = .ok t ∧ ∃ others, Background others ∧
      (runAs sys v s).stub.started = others ++
        [⟨dequoteBuf v.command, [], t.credentials, t.environ, t.umask, t.scheduling, true⟩] := by
  obtain ⟨t, displayed⟩ := handleDisplay_able able s
  refine ⟨t, displayed, (stopKdeinit sys v t).started, ?_, ?_⟩
  · have shown : Background t.started := by
      cases handleDisplay_ok displayed with
      | absent no => exact background
      | plain shown quiet => exact background
      | added asks made popen same environ umask scheduling xauthority files by_t started unled =>
        exact started ▸ background_concat background unled
    rw [stopKdeinit]
    split_ifs
    · exact background_concat shown rfl
    · exact shown
  · have fork := able.fork
    have execl := able.execl
    simp only [runAs, displayed, runCommand, fork, Bool.not_true, Bool.false_eq_true, if_false]
    rw [(awaitCommand_keeps sys _).1, execCommand, if_pos execl, stopKdeinit_keeps sys v t]
    rfl

theorem main_command {b : Build} {sys : System} {v : Params} {c : Credentials} {pw : Passwd}
    (becomes : Becomes b sys v c pw) (able : Able sys v) (umask : Nat) (environ : List Bytes) :
    ∃ others q, Background others ∧
      (main b sys v (.begin c umask environ)).stub.started = others ++ [q] ∧
      q.command = dequoteBuf v.command ∧ q.input = [] ∧ q.session = true := by
  have course := main_course b sys v (.begin c umask environ)
  generalize main b sys v (.begin c umask environ) = e at course
  cases course with
  | refused none_granted => exact absurd becomes.2 (none_granted pw becomes.1)
  | @became other t found granted keeps =>
    have background : Background t.started := by
      rw [keeps.started]
      exact fun p member => by cases member
    obtain ⟨u, -, others, quiet, started⟩ := runAs_command able background
    exact ⟨others, _, quiet, started, rfl, rfl, rfl⟩

end KDESu.Stub.Running
