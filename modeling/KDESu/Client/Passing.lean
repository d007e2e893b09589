/- KDESu/Client/Passing
   source: src/client.cpp, src/kdesud/handler.cpp, src/suprocess.cpp, src/sshprocess.cpp
   digest: A password on its way from a client's PASS to the terminal of su or ssh. -/

import KDESu.Client.Ordering
import KDESu.Daemon.PasswordLifetime
import KDESu.Process.Silencing

set_option autoImplicit false
set_option relaxedAutoImplicit false

namespace KDESu.Client.Passing

open KDESu.ByteArrays
open KDESu.Library.Histories (Moment history_snoc)
open KDESu.Client.Requesting (Call)
open KDESu.Client.Ordering
open KDESu.Process.Launching
open KDESu.Process.Conversing
open KDESu.Process.Waiting (Settings toTerminal)
open KDESu.Process.Executing
open KDESu.Process.Remote
open KDESu.Process.Calling
open KDESu.Process.Erasing
open KDESu.Process.Silencing
open KDESu.Daemon.Handling (Child SysCalls cachedPass)
open KDESu.Daemon.Requests (pass_of_started)
open KDESu.Daemon.EventLoop
open KDESu.Daemon.Entries (makeKey_inNamespace)
open KDESu.Daemon.Repositories (Repository)
open KDESu.Daemon.PasswordLifetime
open KDESu.Daemon.Requests (Request envCheck)
open KDESu.Daemon.Sessions (startedBy of_startedBy settings shows_run)

theorem told_pass_plain {calls : List Call} {pass : Bytes}
    (given : (told calls).pass = some pass) : (0 : UInt8) ∉ pass := by
  induction calls using List.reverseRecOn with
  | nil => cases given
  | append_singleton calls call ih =>
    rw [told, List.map_append, settings, List.foldl_append] at given
    cases call with
    | setPass own timeout =>
      obtain rfl := Option.some.inj given
      exact own.2
    | _ => exact ih given

/-- A PASS that the daemon performed gave this password. -/
def Given (past : List (Moment Kdesud Event)) (password : Bytes) : Prop :=
  ∃ m ∈ past, ∃ fd h sys timeout, acted m = .perform fd h sys (.pass password timeout)

theorem given_snoc {past : List (Moment Kdesud Event)} {password : Bytes}
    (given : Given past password) (m : Moment Kdesud Event) : Given (past ++ [m]) password := by
  obtain ⟨m', earlier, gave⟩ := given
  exact ⟨m', List.mem_append_left _ earlier, gave⟩

theorem given_of_ledger (past : List (Moment Kdesud Event)) :
    (∀ fd g, (ledger past).session fd = some g → Given past g.password) ∧
      ∀ k g, (ledger past).cached k = some g → Given past g.password := by
  induction past using List.reverseRecOn with
  | nil =>
    constructor
    · intro fd g known
      cases known
    · intro k g known
      cases known
  | append_singleton past m ih =>
    obtain ⟨sessions, entries⟩ := ih
    refine ⟨fun fd g known => ?_, fun k g known => ?_⟩
    · rw [ledger_snoc, session_note] at known
      split at known
      · split_ifs at known
        exact given_snoc (sessions fd g known) m
      · rename_i fd' h sys password timeout performed
        split_ifs at known
        · cases known
          exact ⟨m, List.mem_append_right _ (List.mem_singleton_self m), fd', h, sys, timeout,
            performed⟩
        · exact given_snoc (sessions fd g known) m
      · exact given_snoc (sessions fd g known) m
    · rw [ledger_snoc, cached_note] at known
      split at known
      · split_ifs at known
        · exact given_snoc (sessions _ g known) m
        · exact given_snoc (entries k g known) m
      · exact given_snoc (entries k g known) m

/-- Where the password of a child is from: the calls of its client, or the entry that is found under
the key of its command, which a PASS gave. -/
inductive PassedFrom (past : List (Moment Kdesud Event)) (d : Kdesud) (fd : Nat)
    (calls : List Call) (prog user : Bytes) (env : List Bytes) (pass : Bytes) : Prop
  | told (given : (told calls).pass = some pass) (whole : constData pass = pass)
  | kept (h : Daemon.Handling.ConnectionHandler) (live : d.handlerAt fd = some h)
      (found : cachedPass h d.repo prog user (envCheck env) = some pass)
      (given : Given past pass)

theorem passedFrom_of_started (fds : Descriptors) (es : List Event) {fd : Nat}
    {calls : List Call} {prog user options : Bytes} {env : List Bytes} {sys : SysCalls} {c : Child}
    (lines : linesOn fd es = calls.map Call.line)
    (started : startedBy ⟨Kdesud.after fds es,
      .command fd (Call.exec prog user options env).line sys⟩ = some c) :
    PassedFrom (Kdesud.past fds es) (Kdesud.after fds es) fd calls prog user env c.pass := by
  obtain ⟨fd', h, sys', command, user', options', env', performed, child⟩ := of_startedBy started
  obtain ⟨running, live, buf, same, -, read⟩ := of_perform performed
  cases same
  cases request_of_line read
  have pass := pass_of_started child
  cases found : cachedPass h (Kdesud.after fds es).repo prog user (envCheck env) with
  | some other =>
    rw [found, Option.some_or] at pass
    have kept := found.trans pass
    have stored := (cachedPass_eq_some.mp kept).2
    rw [Repository.find_eq, Option.bind_eq_some_iff] at stored
    obtain ⟨e, present, value⟩ := stored
    rw [(accounted_run fds es).cached _ e (makeKey_inNamespace 0 _ _ _) present,
      Option.map_eq_some_iff] at value
    obtain ⟨g, known, own⟩ := value
    exact .kept h live kept (own ▸ (given_of_ledger (Kdesud.past fds es)).2 _ g known)
  | none =>
    have shows := shows_run fds es live
    have own : h.m_Pass = (told calls).pass := by
      rw [shows.pass, requests_of_calls fds es running (by simp [live]) lines, told]
    rw [found, Option.none_or, own] at pass
    exact .told pass ((constData_eq_iff _).mpr (told_pass_plain pass))

/-- In any run of the daemon, whatever other clients do: the password of a child is the one that its
client's own calls have set last, byte for byte, or one that a PASS of the run gave and that is
found under the key of its command; and whatever su or ssh and the terminal do, the child writes
this password up to its first NUL at most once, behind a prompt, and only when the terminal that it
looked at had come to be silent. -/
theorem password_handed (fds : Descriptors) (es : List Event) {fd : Nat}
    {calls : List Call} {prog user options : Bytes} {env : List Bytes} {sys : SysCalls} {c : Child}
    (lines : linesOn fd es = calls.map Call.line)
    (started : startedBy ⟨Kdesud.after fds es,
      .command fd (Call.exec prog user options env).line sys⟩ = some c)
    (superUserCommand : Bytes) (looks : List Look) (around : Surroundings) (settings : Settings)
    (m_erase : Bool) :
    PassedFrom (Kdesud.past fds es) (Kdesud.after fds es) fd calls prog user env c.pass ∧
    (∀ (p : SuProcess) (check : CheckMode) (a : Attempt) (called : Called),
      waitSlave superUserCommand looks = some a.waits.waitSlave →
      suExec p around settings m_erase check (some c.pass) a = some called →
        FedInSilence superUserCommand looks (suAsks a) (constData c.pass) called) ∧
    ∀ (p : SshProcess) (texts : SshTexts) (check : Int) (a : SshAttempt) (called : SshCalled),
      waitSlave superUserCommand looks = some a.waitSlave →
      sshExec p around settings m_erase texts check c.pass a = some called →
        FedInSilence superUserCommand looks (sshAsks check a) (constData c.pass)
          called.toCalled :=
  ⟨passedFrom_of_started fds es lines started, fun _ _ _ _ => su_fed, fun _ _ _ _ _ => ssh_fed⟩

theorem password_handed_twoClients :
    PassedFrom (Kdesud.past .lowest twoClients) (Kdesud.after .lowest twoClients) 6
        itsCalls (ascii "vi x") (ascii "root") [ascii "EDITOR=vi"] (ascii "pw") ∧
      (∃ called, suExec asRoot surroundings toTerminal false .NoCheck (some (ascii "pw"))
          (suSays suGrants) = some called ∧
        FedInSilence (ascii "su") silenced (suAsks (suSays suGrants)) (ascii "pw") called) ∧
      ∃ called, sshExec asGuest surroundings toTerminal false ⟨[], [], []⟩ 0 (ascii "pw")
          (sshSays sshGrants) = some called ∧
        FedInSilence (ascii "su") silenced (sshAsks 0 (sshSays sshGrants)) (ascii "pw")
          called.toCalled := by
  have lines : linesOn 6 twoClients = itsCalls.map Call.line := by decide +kernel
  have started : startedBy ⟨Kdesud.after .lowest twoClients, itsExec⟩ = some itsChild := by
    decide +kernel
  obtain ⟨origin, su, ssh⟩ := password_handed .lowest twoClients lines started (ascii "su") silenced
    surroundings toTerminal false
  have waited : waitSlave (ascii "su") silenced = some 0 := by decide +kernel
  obtain ⟨called, returns⟩ := Option.isSome_iff_exists.mp (show (suExec asRoot surroundings
    toTerminal false .NoCheck (some (ascii "pw")) (suSays suGrants)).isSome by decide +kernel)
  obtain ⟨called', returns'⟩ := Option.isSome_iff_exists.mp (show (sshExec asGuest surroundings
    toTerminal false ⟨[], [], []⟩ 0 (ascii "pw") (sshSays sshGrants)).isSome by decide +kernel)
  exact ⟨origin, ⟨called, returns, su _ _ _ _ waited returns⟩,
    called', returns', ssh _ _ _ _ _ waited returns'⟩

end KDESu.Client.Passing
