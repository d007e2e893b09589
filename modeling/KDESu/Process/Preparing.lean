/- KDESu/Process/Preparing
   source: src/ptyprocess.cpp
   digest: The environment that PtyProcess::exec gives its child, with the locale put aside. -/

import KDESu.Library.Environments
import KDESu.Process.Launching

set_option autoImplicit false
set_option relaxedAutoImplicit false

namespace KDESu.Process.Preparing

open KDESu.ByteArrays
open KDESu.Library.Environments
open KDESu.Process.Launching

abbrev equals : UInt8 := 61

def qputenv (name value : Bytes) (environ : List Bytes) : List Bytes :=
  putenv equals (entry equals name value) environ

/-- `exec` in the child puts the locale aside, so that su speaks English. -/
def stashLocale (environ : List Bytes) : List Bytes :=
  let old_lc_all := (getenv equals (ascii "LC_ALL") environ).getD []
  let environ :=
    if old_lc_all ≠ [] then qputenv (ascii "KDESU_LC_ALL") old_lc_all environ
    else unsetenv equals (ascii "KDESU_LC_ALL") environ
  qputenv (ascii "LC_ALL") (ascii "C") environ

/-- The variables of the session that `exec` takes from its child. -/
def leaveSession (environ : List Bytes) : List Bytes :=
  let environ := unsetenv equals (ascii "KDE_FULL_SESSION") environ
  let environ := unsetenv equals (ascii "SESSION_MANAGER") environ
  unsetenv equals (ascii "DBUS_SESSION_BUS_ADDRESS") environ

/-- The environment of the child of `exec`, out of `d->env` and the one of the caller. -/
def childEnviron (env environ : List Bytes) : List Bytes :=
  stashLocale (leaveSession (putAll equals (env.map constData) environ))

def OfSession (name : Bytes) : Prop :=
  name = ascii "DBUS_SESSION_BUS_ADDRESS" ∨ name = ascii "SESSION_MANAGER" ∨
    name = ascii "KDE_FULL_SESSION"

instance (name : Bytes) : Decidable (OfSession name) := inferInstanceAs (Decidable (_ ∨ _ ∨ _))

/-- A locale that is set to nothing counts as none. -/
def solid (value : Option Bytes) : Option Bytes := value.filter (· ≠ [])

theorem getenv_stashLocale {name : Bytes} (free : equals ∉ name) (environ : List Bytes) :
    getenv equals name (stashLocale environ) =
      if name = ascii "LC_ALL" then some (ascii "C")
      else if name = ascii "KDESU_LC_ALL" then solid (getenv equals (ascii "LC_ALL") environ)
      else getenv equals name environ := by
  simp only [stashLocale, qputenv]
  rw [getenv_putenv_entry equals free (by decide)]
  cases old : getenv equals (ascii "LC_ALL") environ with
  | none =>
    simp only [Option.getD_none, ne_eq, not_true_eq_false, if_false]
    rw [getenv_unsetenv equals free (by decide)]
    rfl
  | some value =>
    by_cases empty : value = []
    · simp only [Option.getD_some, empty, ne_eq, not_true_eq_false, if_false]
      rw [getenv_unsetenv equals free (by decide)]
      rfl
    · have kept : solid (some value) = some value := if_pos (decide_eq_true empty)
      simp only [Option.getD_some, empty, ne_eq, not_false_eq_true, if_true]
      rw [getenv_putenv_entry equals free (by decide), kept]

theorem getenv_leaveSession {name : Bytes} (free : equals ∉ name) (environ : List Bytes) :
    getenv equals name (leaveSession environ) =
      if OfSession name then none else getenv equals name environ := by
  simp only [leaveSession]
  rw [getenv_unsetenv equals free (by decide), getenv_unsetenv equals free (by decide),
    getenv_unsetenv equals free (by decide)]
  split_ifs <;> simp_all [OfSession]

theorem getenv_childEnviron {name : Bytes} (free : equals ∉ name) (env environ : List Bytes) :
    let given := putAll equals (env.map constData) environ
    getenv equals name (childEnviron env environ) =
      if name = ascii "LC_ALL" then some (ascii "C")
      else if name = ascii "KDESU_LC_ALL" then solid (getenv equals (ascii "LC_ALL") given)
      else if OfSession name then none
      else getenv equals name given := by
  intro given
  rw [childEnviron, getenv_stashLocale free, getenv_leaveSession free,
    getenv_leaveSession (by decide : equals ∉ ascii "LC_ALL"), if_neg (by decide : ¬OfSession _)]

end KDESu.Process.Preparing
