/- KDESu/Stub/Variables
   source: src/kdesu_stub.c
   digest: The environment in which kdesu_stub starts its programs, variable by variable. -/

import KDESu.Stub.Running

set_option autoImplicit false
set_option relaxedAutoImplicit false

namespace KDESu.Stub.Variables

open KDESu.ByteArrays
open KDESu.Library.Environments
open KDESu.Stub.Running

instance (v : Params) : Decidable (Asks v) := inferInstanceAs (Decidable (_ ∧ _))

/-- The value that a variable is to have in the programs that the stub starts for a user. -/
def wanted (sys : System) (v : Params) (pw : Passwd) (environ : List Bytes) (name : Bytes) :
    Option Bytes :=
  if name = ascii "XAUTHORITY" ∧ Asks v then sys.mkstemp.map authFile
  else if name = ascii "DISPLAY" ∧ v.display ≠ ascii "no" then some v.display
  else if name = ascii "HOME" then some pw.pw_dir
  else if name = ascii "DBUS_SESSION_BUS_ADDRESS" ∨ name = ascii "XDG_RUNTIME_DIR" then none
  else if name = ascii "LC_ALL" then getenv equals (ascii "KDESU_LC_ALL") environ
  else if name = ascii "DESKTOP_STARTUP_ID" then some v.app_startup_id
  else if name = ascii "PATH" then some v.path
  else getenv equals name environ

section

variable {name : Bytes} (free : equals ∉ name)

include free

theorem getenv_xsetenv {other : Bytes} (plain : equals ∉ other) (value : Bytes) (s : StubState) :
    getenv equals name (xsetenv other value s).environ =
      if name = other then some value else getenv equals name s.environ :=
  getenv_putenv_entry equals free plain value s.environ

theorem getenv_unset {other : Bytes} (plain : equals ∉ other) (s : StubState) :
    getenv equals name (unset other s).environ =
      if name = other then none else getenv equals name s.environ :=
  getenv_unsetenv equals free plain s.environ

theorem getenv_restoreLocale (s : StubState) :
    getenv equals name (restoreLocale s).environ =
      if name = ascii "LC_ALL" then getenv equals (ascii "KDESU_LC_ALL") s.environ
      else getenv equals name s.environ := by
  cases stashed : getenv equals (ascii "KDESU_LC_ALL") s.environ with
  | none =>
    rw [restoreLocale, stashed]
    exact getenv_unset free (by decide) s
  | some value =>
    rw [restoreLocale, stashed]
    exact getenv_xsetenv free (by decide) value s

theorem getenv_setVariables (v : Params) (s : StubState) :
    getenv equals name (setVariables v s).environ =
      if name = ascii "XDG_RUNTIME_DIR" then none
      else if name = ascii "LC_ALL" then getenv equals (ascii "KDESU_LC_ALL") s.environ
      else if name = ascii "DESKTOP_STARTUP_ID" then some v.app_startup_id
      else if name = ascii "PATH" then some v.path
      else getenv equals name s.environ := by
  -- what was stashed is read behind the settings of two other variables
  have stash : getenv equals (ascii "KDESU_LC_ALL")
      (xsetenv (ascii "DESKTOP_STARTUP_ID") v.app_startup_id
        (xsetenv (ascii "PATH") v.path s)).environ =
      getenv equals (ascii "KDESU_LC_ALL") s.environ := by
    have plain : equals ∉ ascii "KDESU_LC_ALL" := by decide
    rw [getenv_xsetenv plain (by decide), getenv_xsetenv plain (by decide), if_neg (by decide),
      if_neg (by decide)]
  rw [setVariables, getenv_unset free (by decide), getenv_restoreLocale free, stash,
    getenv_xsetenv free (by decide), getenv_xsetenv free (by decide)]

theorem getenv_prepare (b : Build) (sys : System) (v : Params) (pw : Passwd) (s : StubState) :
    getenv equals name (prepare b sys v pw s).environ =
      if name = ascii "DBUS_SESSION_BUS_ADDRESS" then none
      else if name = ascii "HOME" then some pw.pw_dir
      else getenv equals name s.environ := by
  rw [prepare, (keeps_setScheduling b sys v _).2.2, getenv_unset free (by decide),
    getenv_xsetenv free (by decide)]

theorem getenv_dropPrivileges {b : Build} {sys : System} {v : Params} {pw : Passwd}
    {s t : StubState} (went : dropPrivileges b sys pw (prepare b sys v pw s) = .ok t) :
    getenv equals name t.environ =
      if name = ascii "HOME" then some pw.pw_dir
      else if name = ascii "DBUS_SESSION_BUS_ADDRESS" then none
      else getenv equals name s.environ := by
  obtain ⟨-, -, -, -, same | again⟩ := dropPrivileges_ok went
  · rw [same, getenv_prepare free]
    split_ifs with bus home
    · exact absurd (bus.symm.trans home) (by decide)
    all_goals rfl
  · rw [again, getenv_xsetenv free (by decide), getenv_prepare free]
    split_ifs <;> rfl

theorem getenv_handleDisplay {sys : System} {v : Params} {s t : StubState}
    (went : handleDisplay sys v s = .ok t) :
    getenv equals name t.environ =
      if name = ascii "XAUTHORITY" ∧ Asks v then sys.mkstemp.map authFile
      else if name = ascii "DISPLAY" ∧ v.display ≠ ascii "no" then some v.display
      else getenv equals name s.environ := by
  cases handleDisplay_ok went with
  | absent no => simp [Asks, no]
  | plain shown quiet =>
    rw [getenv_xsetenv free (by decide)]
    simp [Asks, shown, quiet]
  | added asks made popen same environ =>
    rw [environ, getenv_xsetenv free (by decide), getenv_xsetenv free (by decide), made]
    simp [asks, asks.1]

end

theorem tidy_xsetenv {s : StubState} (tidy : Tidy equals s.environ) (name value : Bytes) :
    Tidy equals (xsetenv name value s).environ := tidy_putenv equals tidy _

theorem tidy_unset {s : StubState} (tidy : Tidy equals s.environ) (name : Bytes) :
    Tidy equals (unset name s).environ := tidy_unsetenv equals tidy name

theorem tidy_setVariables {s : StubState} (tidy : Tidy equals s.environ) (v : Params) :
    Tidy equals (setVariables v s).environ := by
  have early := tidy_xsetenv (tidy_xsetenv tidy (ascii "PATH") v.path)
    (ascii "DESKTOP_STARTUP_ID") v.app_startup_id
  simp only [setVariables, restoreLocale]
  split
  · exact tidy_unset (tidy_xsetenv early _ _) _
  · exact tidy_unset (tidy_unset early _) _

theorem tidy_dropPrivileges {b : Build} {sys : System} {v : Params} {pw : Passwd}
    {s t : StubState} (tidy : Tidy equals s.environ)
    (went : dropPrivileges b sys pw (prepare b sys v pw s) = .ok t) : Tidy equals t.environ := by
  have before : Tidy equals (prepare b sys v pw s).environ := by
    rw [prepare, (keeps_setScheduling b sys v _).2.2]
    exact tidy_unset (tidy_xsetenv tidy _ _) _
  obtain ⟨-, -, -, -, same | again⟩ := dropPrivileges_ok went
  · exact same ▸ before
  · exact again ▸ tidy_xsetenv before _ _

theorem tidy_handleDisplay {sys : System} {v : Params} {s t : StubState}
    (tidy : Tidy equals s.environ) (went : handleDisplay sys v s = .ok t) :
    Tidy equals t.environ := by
  cases handleDisplay_ok went with
  | absent no => exact tidy
  | plain shown quiet => exact tidy_xsetenv tidy _ _
  | added asks made popen same environ =>
    rw [environ]
    exact tidy_xsetenv (tidy_xsetenv tidy _ _) _ _

section

variable {b : Build} {sys : System} {v : Params} {c : Credentials} {umask : Nat}
  {environ : List Bytes} {p : Started}

theorem started_tidy (tidy : Tidy equals environ)
    (started : p ∈ (main b sys v (.begin c umask environ)).stub.started) :
    Tidy equals p.environ := by
  obtain ⟨pw, t, u, -, went, displayed, by_u⟩ := main_started started
  have early : Tidy equals (setVariables v (.begin c umask environ)).environ :=
    tidy_setVariables tidy v
  rw [by_u.environ]
  exact tidy_handleDisplay (tidy_dropPrivileges early went) displayed

theorem started_getenv (started : p ∈ (main b sys v (.begin c umask environ)).stub.started) :
    ∃ pw, Becomes b sys v c pw ∧
      ∀ name, equals ∉ name → getenv equals name p.environ = wanted sys v pw environ name := by
  obtain ⟨pw, t, u, becomes, went, displayed, by_u⟩ := main_started started
  refine ⟨pw, becomes, fun name free => ?_⟩
  rw [by_u.environ, getenv_handleDisplay free displayed, getenv_dropPrivileges free went,
    getenv_setVariables free, wanted]
  simp only [ite_or]
  rfl

end

/-- All programs that the stub starts get the same environment: their variables are set and unset
as it is wanted, all others are those that the stub had behind its environment loop, and no
variable is named twice unless it was before. -/
theorem programs_environment (b : Build) (sys : System) (v : Params) (c : Credentials)
    (umask : Nat) (environ : List Bytes) (p : Started)
    (started : p ∈ (main b sys v (.begin c umask environ)).stub.started) :
    ∃ pw, Becomes b sys v c pw ∧
      (∀ name, equals ∉ name → getenv equals name p.environ = wanted sys v pw environ name) ∧
      (Tidy equals environ → Tidy equals p.environ) := by
  obtain ⟨pw, becomes, each⟩ := started_getenv started
  exact ⟨pw, becomes, each, fun tidy => started_tidy tidy started⟩

def obliging : System where
  getpwnam _ := some ⟨ascii "root", 0, 0, ascii "/root"⟩
  sched_get_priority_min := 1
  sched_get_priority_max := 99
  sched_setscheduler := true
  setpriority := true
  setgid := true
  initgroups := true
  setuid := true
  mkstemp := some (ascii "q3Zx0a")
  popen := true
  system := true
  fork := true
  execl := true
  waitpid := [.status 0, .failed true]
  unlink := true

def listing : Params :=
  ⟨ascii "ok", ascii ":0", ascii "MIT-MAGIC-COOKIE-1 00ff", ascii "ls", ascii "/bin", ascii "no",
    ascii "root", ascii "50", ascii "normal", ascii "0"⟩

def stashed : List Bytes := [ascii "KDESU_LC_ALL=de_DE", ascii "LC_ALL=C", ascii "HOME=/home/ada"]

def ada : Credentials := ⟨1000, 1000, .inherited⟩

theorem programs_environment_locale :
    ∃ p ∈ (main ⟨true, true, false⟩ obliging listing (.begin ada 0o22 stashed)).stub.started,
      getenv equals (ascii "LC_ALL") p.environ = some (ascii "de_DE") := by
  have runs : (main ⟨true, true, false⟩ obliging listing
      (.begin ada 0o22 stashed)).stub.started ≠ [] := by decide +kernel
  have member := List.getLast_mem runs
  obtain ⟨pw, -, each, -⟩ := programs_environment _ _ _ _ _ _ _ member
  exact ⟨_, member, (each _ (by decide)).trans (by rfl)⟩

end KDESu.Stub.Variables
