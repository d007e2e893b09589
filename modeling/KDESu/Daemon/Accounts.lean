/- KDESu/Daemon/Accounts
   source: src/kdesud/handler.cpp, src/suprocess.cpp, src/sshprocess.cpp
   digest: The account of an EXEC in the repository's keys and on the command line it starts. -/

import KDESu.Daemon.Entries
import KDESu.Process.Launching

set_option autoImplicit false
set_option relaxedAutoImplicit false

namespace KDESu.Daemon.Accounts

open KDESu.ByteArrays
open KDESu.Process.Launching
open KDESu.Daemon.Handling (ConnectionHandler Process process authUser)

/-- The process that the daemon's child sets up when the host is empty. -/
def suProcess (sys : Installation) (command user : Bytes) (xOnly : Bool) (priority scheduler : Int)
    (environment : List Bytes) : SuProcess :=
  let proc := SuProcess.new sys [] []
  let stub := (proc.stub.setCommand command).setUser user
  let stub := if xOnly then stub.setXOnly true else stub
  let stub := ((stub.setPriority priority).setScheduler scheduler).setEnvironment environment
  { proc with stub := stub }

/-- The process that it sets up for a host: neither the priority nor the scheduler goes along. -/
def sshProcess (command user host : Bytes) : SshProcess :=
  let proc := SshProcess.new [] [] []
  { proc with stub := (proc.stub.setCommand command).setUser user, host := host }

/-- The command line of the daemon's child, if it starts one, and the account named there. -/
def started (sys : Installation) : Process → Option (CommandLine × Option Bytes)
  | .su command user xOnly priority scheduler environment =>
      let (proc, line) :=
        (suProcess sys command user xOnly priority scheduler environment).exec sys
      line.map fun line => (line, proc.superUserCommand.target line.args)
  | .ssh command user host =>
      ((sshProcess command user host).exec sys).map fun line => (line, sshTarget line.args)

/-- Whether the session's scheduler or priority asks for root. -/
def Elevated (h : ConnectionHandler) : Prop :=
  h.m_Scheduler ≠ Handling.SchedNormal ∨ 50 < h.m_Priority

instance elevatedDecidable (h : ConnectionHandler) : Decidable (Elevated h) :=
  inferInstanceAs (Decidable (_ ∨ _))

/-- The account in the keys is the account of SuProcess: clamping the priority to 0 through 100
keeps it on its side of 50. -/
private theorem account_suProcess (sys : Installation) (h : ConnectionHandler)
    (command user : Bytes) (xOnly : Bool) (environment : List Bytes) :
    (suProcess sys command user xOnly h.m_Priority h.m_Scheduler environment).account =
      authUser h user := by
  have clamped : (if h.m_Priority > 100 then 100 else if h.m_Priority < 0 then 0
      else h.m_Priority) > 50 ↔ 50 < h.m_Priority := by
    split_ifs <;> omega
  cases xOnly <;>
    simp only [suProcess, SuProcess.account, StubProcess.setCommand, StubProcess.setUser,
      StubProcess.setXOnly, StubProcess.setPriority, StubProcess.setScheduler,
      StubProcess.setEnvironment, clamped, authUser] <;> rfl

private theorem account_of_started {sys : Installation} {h : ConnectionHandler}
    {command user options : Bytes} {env : List Bytes} {line : CommandLine}
    {account : Option Bytes}
    (launched : started sys (process h command user options env) = some (line, account)) :
    account = some (constData (if h.m_Host = [] then authUser h user else user)) := by
  simp only [process] at launched
  split_ifs at launched ⊢ with local_host
  · obtain ⟨line', ran, same⟩ := Option.map_eq_some_iff.mp launched
    cases same
    refine (SuProcess.target_exec ran).trans ?_
    rw [account_suProcess]
  · obtain ⟨line', ran, same⟩ := Option.map_eq_some_iff.mp launched
    cases same
    rw [SshProcess.target_exec ran]
    rfl

/-- When an EXEC starts a command line, the account named there is the account of its keys
exactly if the user holds no NUL, or, with the scheduler or the priority asking for root, the
host is empty or the user is root up to a NUL. -/
theorem account_on_command_line_iff (sys : Installation) (h : ConnectionHandler)
    (command user options : Bytes) (env : List Bytes) {line : CommandLine}
    {account : Option Bytes}
    (launched : started sys (process h command user options env) = some (line, account)) :
    account = some (authUser h user) ↔
      (Elevated h → h.m_Host = [] ∨ constData user = ascii "root") ∧
        (¬Elevated h → (0 : UInt8) ∉ user) := by
  rw [account_of_started launched, Option.some.injEq]
  by_cases elevated : Elevated h
  · have root : authUser h user = ascii "root" := if_pos elevated
    have plain : constData (ascii "root") = ascii "root" := by decide
    by_cases local_host : h.m_Host = []
    · simp [elevated, local_host, root, plain]
    · simp [elevated, local_host, root]
  · have same : authUser h user = user := if_neg elevated
    simp only [same, ite_self, constData_eq_iff, elevated]
    simp

def installation : Installation where
  default_super_user_command := .su
  default_stub_path := ascii "/usr/libexec/kf6/kdesu_stub"
  super_user_command := some (ascii "sudo")
  kdesu_stub_path := none
  command := none
  findExecutable := fun name => ascii "/usr/bin/" ++ name

theorem account_on_command_line_sudo :
    some (ascii "root") = some (authUser (.new 6 1000 0) (ascii "root")) := by
  have launched : started installation
      (process (.new 6 1000 0) (ascii "ls") (ascii "root") [] []) =
        some (⟨ascii "/usr/bin/sudo", [ascii "-u", ascii "root",
          ascii "/usr/libexec/kf6/kdesu_stub", ascii "-"]⟩, some (ascii "root")) := by
    decide +kernel
  exact (account_on_command_line_iff installation (.new 6 1000 0) (ascii "ls") (ascii "root") []
    [] launched).mpr ⟨by decide +kernel, by decide +kernel⟩

/-- With a host and a raised priority, root's keys hold the password of another account. -/
theorem remote_password_kept_for_root : ¬∀ sys h command user options env line account,
    started sys (process h command user options env) = some (line, account) →
      account = some (authUser h user) := by
  intro agree
  have same := agree installation
    { ConnectionHandler.new 6 1000 0 with m_Host := ascii "far", m_Priority := 60 }
    (ascii "ls") (ascii "bob") [] []
    ⟨ascii "/usr/bin/ssh", [ascii "-l", ascii "bob", ascii "-o", ascii "StrictHostKeyChecking=no",
      ascii "far", ascii "kdesu_stub"]⟩ (some (ascii "bob")) (by decide +kernel)
  exact absurd same (by decide +kernel)

end KDESu.Daemon.Accounts
