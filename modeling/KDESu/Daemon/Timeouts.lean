/- KDESu/Daemon/Timeouts
   source: src/kdesud/handler.cpp, src/kdesud/repo.cpp
   digest: The timeout that a SET or a PASS writes in digits, and the expiry of its entries. -/

import KDESu.Daemon.Entries

set_option autoImplicit false
set_option relaxedAutoImplicit false

namespace KDESu.Daemon.Timeouts

open KDESu.ByteArrays
open KDESu.Library.Histories
open KDESu.Daemon.Lexing (Lexer)
open KDESu.Daemon.Repositories (DataEntry unsignedMax)
open KDESu.Daemon.Repositories.Repository
open KDESu.Daemon.Handling
open KDESu.Daemon.Requests
open KDESu.Daemon.EventLoop
open KDESu.Daemon.Entries

def digitsArg (l : Lexer) : Option Bytes :=
  match l.lex with
  | (.num, l) => some l.lval
  | _ => none

/-- The digits that a PASS or a SET has for its timeout. -/
def timeoutDigits (buf : Bytes) : Option Bytes :=
  match (Lexer.new buf).lex with
  | (.pass, l) => do
      let (_, l) ← strArg l
      digitsArg l
  | (.set, l) => do
      let (_, l) ← strArg l
      let (_, l) ← strArg l
      let (_, l) ← strArg l
      digitsArg l
  | _ => none

private theorem numArg_digits {l l' : Lexer} {n : Int} (read : numArg l = some (n, l')) :
    ∃ digits, digitsArg l = some digits ∧ n = toInt digits := by
  simp only [numArg] at read
  split at read
  · rename_i l'' lexed
    cases read
    exact ⟨_, by simp only [digitsArg, lexed], rfl⟩
  · cases read

theorem pass_written {buf password : Bytes} {timeout : Int}
    (read : readRequest buf = some (.pass password timeout)) :
    ∃ digits, timeoutDigits buf = some digits ∧ timeout = toInt digits := by
  have word := readArgs_word _ _ _ read
  rw [readRequest] at read
  rcases lexed : (Lexer.new buf).lex with ⟨tok, l⟩
  rw [lexed] at read word
  cases word
  simp only [readArgs, readPass, Option.bind_eq_bind, Option.bind_eq_some_iff] at read
  obtain ⟨⟨_, l₁⟩, first, ⟨n, l₂⟩, number, _, -, made⟩ := read
  cases made
  obtain ⟨digits, same, value⟩ := numArg_digits number
  refine ⟨digits, ?_, value⟩
  simp only [timeoutDigits, lexed, Option.bind_eq_bind, first, Option.bind_some, same]

theorem pass_timeout {buf password digits : Bytes} {timeout : Int}
    (read : readRequest buf = some (.pass password timeout))
    (written : timeoutDigits buf = some digits) : timeout = toInt digits := by
  obtain ⟨digits', same, value⟩ := pass_written read
  obtain rfl := Option.some.inj (written.symm.trans same)
  exact value

theorem set_timeout {buf name value group digits : Bytes} {timeout : Int}
    (read : readRequest buf = some (.set name value group timeout))
    (written : timeoutDigits buf = some digits) : timeout = toInt digits := by
  have word := readArgs_word _ _ _ read
  rw [readRequest] at read
  rcases lexed : (Lexer.new buf).lex with ⟨tok, l⟩
  rw [lexed] at read word
  cases word
  simp only [readArgs, readSet, Option.bind_eq_bind, Option.bind_eq_some_iff] at read
  obtain ⟨⟨_, l₁⟩, first, ⟨_, l₂⟩, second, ⟨_, l₃⟩, third, ⟨n, l₄⟩, number, _, -, made⟩ := read
  cases made
  obtain ⟨digits', same, value⟩ := numArg_digits number
  simp only [timeoutDigits, lexed, Option.bind_eq_bind, first, second, third, Option.bind_some,
    same, Option.some.injEq] at written
  rw [value, written]

def IsPass (fd : Nat) (m : Moment Kdesud Event) : Prop :=
  ∃ h sys password timeout, acted m = .perform fd h sys (.pass password timeout)

/-- A session that holds a password has this timeout. -/
private def Holds (fd : Nat) (timeout : Int) (d : Kdesud) : Prop :=
  ∀ h, d.handlerAt fd = some h → h.m_Pass ≠ none → h.m_Timeout = timeout

private theorem holds_step {fd : Nat} {timeout : Int} {d : Kdesud} (holds : Holds fd timeout d)
    {ev : Event} (other : ¬IsPass fd ⟨d, ev⟩) : Holds fd timeout (step d ev).1 := by
  intro h' live password
  have origin := handler_origin live
  generalize performed : action d ev = a at origin
  cases origin with
  | kept before _ _ _ => exact holds h' before password
  | accepted uid uninitialised new =>
    rw [new] at password
    exact absurd rfl password
  | performed h sys request before after =>
    have held := holds h before
    rw [after] at password ⊢
    cases request
    case pass password' timeout' => exact absurd ⟨h, sys, password', timeout', performed⟩ other
    case exec =>
      revert password
      cases (perform sys h d.repo _).child <;> exact held
    all_goals exact held password
  | reaped h pid status before _ after =>
    rw [after] at password ⊢
    exact holds h before password

private theorem holds_run {fd : Nat} {timeout : Int} {d : Kdesud} (holds : Holds fd timeout d)
    (es : List Event) (others : ∀ m ∈ history step d es, ¬IsPass fd m) :
    Holds fd timeout (run step d es) :=
  run_induction_under (P := fun _ d => Holds fd timeout d) holds
    (fun _ _ _ holds other => holds_step holds other) es others

private theorem holds_pass {d : Kdesud} {ev : Event} {fd : Nat} {h : ConnectionHandler}
    {sys : SysCalls} {password : Bytes} {timeout : Int}
    (passed : action d ev = .perform fd h sys (.pass password timeout)) :
    Holds fd timeout (step d ev).1 := by
  intro h' live _
  rw [handlerAt_step, passed, handlerAfter, if_pos rfl] at live
  cases live
  rfl

/-- The last of these events is an EXEC that caches the password of its session, on the account
of a PASS with these digits: the latest one on the connection. -/
inductive CachesPass (fds : Descriptors) (digits : Bytes) (h : ConnectionHandler)
    (sys : SysCalls) (command user : Bytes) (env : List Bytes) : List Event → Prop
  | intro {es between : List Event} {fd : Nat} {buf buf' password options : Bytes}
      {sys' : SysCalls} {h' : ConnectionHandler} {timeout : Int}
      (passed : action (.after fds es) (.command fd buf' sys') =
        .perform fd h' sys' (.pass password timeout))
      (written : timeoutDigits buf' = some digits)
      (latest : ∀ m ∈ history step (.after fds (es ++ [.command fd buf' sys'])) between,
        ¬IsPass fd m)
      (performed : action (.after fds (es ++ [.command fd buf' sys'] ++ between))
        (.command fd buf sys) = .perform fd h sys (.exec command user options env))
      (caches : Caches h (Kdesud.after fds (es ++ [.command fd buf' sys'] ++ between)).repo
        command user env) :
      CachesPass fds digits h sys command user env
        (es ++ [.command fd buf' sys'] ++ between ++ [.command fd buf sys])

/-- The last of these events adds an entry under a key, for the digits of a SET, or for those of
a PASS and an EXEC that caches its password; and the clock reading that goes into it. -/
inductive Writes (fds : Descriptors) (es : List Event) (digits : Bytes) :
    Bytes → DataEntry → Nat → Prop
  | set {before : List Event} {fd : Nat} {buf name value group : Bytes} {sys : SysCalls}
      {h : ConnectionHandler} {timeout : Int} (last : es = before ++ [.command fd buf sys])
      (performed : action (.after fds before) (.command fd buf sys) =
        .perform fd h sys (.set name value group timeout))
      (written : timeoutDigits buf = some digits) :
      Writes fds es digits (variableKey name) (variableEntry sys value group timeout) sys.time₁
  | password {h : ConnectionHandler} {sys : SysCalls} {command user : Bytes} {env : List Bytes}
      (caches : CachesPass fds digits h sys command user env es) :
      Writes fds es digits (commandKey 0 h command user) (passwordEntry sys h) sys.time₂
  | environment {h : ConnectionHandler} {sys : SysCalls} {command user : Bytes}
      {env : List Bytes} (caches : CachesPass fds digits h sys command user env es) :
      Writes fds es digits (commandKey 2 h command user) (environmentEntry sys h env) sys.time₁

private theorem timeout_of_cachesPass {fds : Descriptors} {es : List Event} {digits : Bytes}
    {h : ConnectionHandler} {sys : SysCalls} {command user : Bytes} {env : List Bytes}
    (caches : CachesPass fds digits h sys command user env es) :
    h.m_Timeout = toInt digits := by
  cases caches with
  | intro passed written latest performed caches =>
    obtain ⟨-, -, buf, command, -, read⟩ := of_perform passed
    cases command
    rw [← pass_timeout read written]
    have granted := holds_pass passed
    rw [← run_snoc] at granted
    have kept := holds_run granted _ latest
    rw [← run_append] at kept
    exact kept h (of_perform performed).2.1 caches.2

theorem timeout_of_writes {fds : Descriptors} {es : List Event} {digits k : Bytes}
    {e : DataEntry} {t : Nat} (writes : Writes fds es digits k e t) :
    e.timeout = deadline (unsigned (toInt digits)) t := by
  cases writes with
  | set last performed written =>
    obtain ⟨-, -, buf, command, -, read⟩ := of_perform performed
    cases command
    rw [← set_timeout read written]
    rfl
  | password caches => rw [passwordEntry, timeout_of_cachesPass caches]
  | environment caches => rw [environmentEntry, timeout_of_cachesPass caches]

private theorem stored_of_cachesPass {fds : Descriptors} {es : List Event} {digits : Bytes}
    {h : ConnectionHandler} {sys : SysCalls} {command user : Bytes} {env : List Bytes}
    (caches : CachesPass fds digits h sys command user env es) :
    (Kdesud.after fds es).repo.stored (commandKey 0 h command user) =
        some (passwordEntry sys h) ∧
      (Kdesud.after fds es).repo.stored (commandKey 2 h command user) =
        some (environmentEntry sys h env) := by
  have other : commandKey 2 h command user ≠ commandKey 0 h command user :=
    ne_makeKey (by decide) (by decide) (by decide) (makeKey_inNamespace 2 _ _ _) _ _ _
  cases caches with
  | intro passed written latest performed caches =>
    rw [Kdesud.after, run_snoc, stored_step, stored_step, performed]
    simp only [storedAfter, if_pos caches, if_true, if_neg other, and_self]

theorem stored_of_writes {fds : Descriptors} {es : List Event} {digits k : Bytes}
    {e : DataEntry} {t : Nat} (writes : Writes fds es digits k e t) :
    (Kdesud.after fds es).repo.stored k = some e := by
  cases writes with
  | set last performed written =>
    rw [last, Kdesud.after, run_snoc, stored_step, performed]
    simp only [storedAfter, if_true]
  | password caches => exact (stored_of_cachesPass caches).1
  | environment caches => exact (stored_of_cachesPass caches).2

private theorem survives_iff {d : Kdesud} {k : Bytes} {e : DataEntry}
    (running : d.running = true) (stored : d.repo.stored k = some e) (c : Nat) :
    (step d (.expire c)).1.repo.stored k = some e ↔ c % 2 ^ 32 < e.timeout := by
  have expires : action d (.expire c) = .expire c := by rw [action, if_pos running]
  rw [stored_step, expires]
  simp only [stored, Option.some.injEq, exists_eq_left']
  split_ifs with due
  · simpa using due
  · simpa using due

/-- A number of digits that an int cannot hold gives no timeout at all. -/
private theorem deadline_of_digits {digits : Bytes} {t : Nat} (positive : 1 ≤ numeral digits)
    (early : t < 2 ^ 31) :
    deadline (unsigned (toInt digits)) t =
      if numeral digits < 2 ^ 31 then t + numeral digits else unsignedMax := by
  simp only [toInt]
  split_ifs with fits
  · have small : unsigned (numeral digits : Int) = numeral digits := by
      rw [unsigned]
      omega
    rw [small, deadline, if_neg (by omega)]
    omega
  · rfl

/-- From any state in which it is still stored, the entry of a SET, or of a PASS and the EXEC that
caches it, survives the `expire` calls that come before its time and no others exactly if its
numeral fits an int, or its time is not over before the last clock. -/
theorem timeout_kept_iff (fds : Descriptors) {es : List Event} {digits k : Bytes}
    {e : DataEntry} {t : Nat} (writes : Writes fds es digits k e t)
    (positive : 1 ≤ numeral digits) (early : t < 2 ^ 31) (later : List Event)
    (kept : (Kdesud.after fds (es ++ later)).repo.stored k = some e)
    (running : (Kdesud.after fds (es ++ later)).running = true) :
    (∀ c, t ≤ c → c < 2 ^ 32 - 1 →
        ((Kdesud.after fds (es ++ later ++ [.expire c])).repo.stored k = some e ↔
          c < t + numeral digits)) ↔
      numeral digits < 2 ^ 31 ∨ 2 ^ 32 - 1 ≤ t + numeral digits := by
  have deadline := (timeout_of_writes writes).trans (deadline_of_digits positive early)
  have survives (c : Nat) (clock : c < 2 ^ 32 - 1) :
      (Kdesud.after fds (es ++ later ++ [.expire c])).repo.stored k = some e ↔ c < e.timeout := by
    rw [Kdesud.after, run_snoc, survives_iff running kept, Nat.mod_eq_of_lt (by omega)]
  constructor
  · intro means
    by_contra neither
    obtain ⟨large, reached⟩ := not_or.mp neither
    have beyond := means (t + numeral digits) (Nat.le_add_right _ _) (by omega)
    rw [survives _ (by omega), deadline, if_neg large, unsignedMax] at beyond
    omega
  · intro fits c from_t clock
    rw [survives c clock, deadline]
    split_ifs with small
    · exact Iff.rfl
    · rw [unsignedMax]
      omega

def atHundred : SysCalls := ⟨1000, 100, 100, none⟩

def settingLine (digits : Bytes) : Bytes := ascii "SET a b c " ++ digits ++ [newline]

def settingFor (digits : Bytes) : List Event :=
  [.accept 6 1000 0, .command 6 (settingLine digits) atHundred]

private theorem writes_settingFor {digits : Bytes} {timeout : Int}
    (performed : action (.after .lowest [.accept 6 1000 0])
        (.command 6 (settingLine digits) atHundred) =
      .perform 6 (.new 6 1000 0) atHundred
        (.set (ascii "a") (ascii "b") (ascii "c") timeout))
    (written : timeoutDigits (settingLine digits) = some digits) :
    Writes .lowest (settingFor digits) digits (variableKey (ascii "a"))
      (variableEntry atHundred (ascii "b") (ascii "c") timeout) 100 := by
  refine .set ?_ performed written
  rfl

theorem timeout_kept_iff_twoHours :
    (∀ c, 100 ≤ c → c < 2 ^ 32 - 1 →
        ((Kdesud.after .lowest (settingFor (ascii "7200") ++ [] ++ [.expire c])).repo.stored
            (variableKey (ascii "a")) =
          some (variableEntry atHundred (ascii "b") (ascii "c") 7200) ↔
          c < 100 + numeral (ascii "7200"))) ↔
      numeral (ascii "7200") < 2 ^ 31 ∨ 2 ^ 32 - 1 ≤ 100 + numeral (ascii "7200") :=
  timeout_kept_iff .lowest (writes_settingFor (by decide +kernel) (by decide +kernel))
    (by decide +kernel) (by decide) [] (by decide +kernel) (by decide +kernel)

/-- A timeout of 2147483648 seconds never ends. -/
theorem large_timeout_endless : ¬∀ fds es digits k e t later c, Writes fds es digits k e t →
    1 ≤ numeral digits → t < 2 ^ 31 →
    (Kdesud.after fds (es ++ later)).repo.stored k = some e →
    (Kdesud.after fds (es ++ later)).running = true → t ≤ c → c < 2 ^ 32 - 1 →
    ((Kdesud.after fds (es ++ later ++ [.expire c])).repo.stored k = some e ↔
      c < t + numeral digits) := by
  intro means
  have ends := means .lowest (settingFor (ascii "2147483648")) (ascii "2147483648")
    (variableKey (ascii "a")) (variableEntry atHundred (ascii "b") (ascii "c") 0) 100 []
    (2 ^ 31 + 100)
    (writes_settingFor (by decide +kernel) (by decide +kernel))
    (by decide +kernel) (by decide) (by decide +kernel) (by decide +kernel) (by decide)
    (by decide)
  exact absurd ends (by decide +kernel)

end KDESu.Daemon.Timeouts
