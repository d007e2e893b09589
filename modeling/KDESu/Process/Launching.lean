/- KDESu/Process/Launching
   source: src/ptyprocess.cpp, src/stubprocess.cpp, src/suprocess.cpp, src/sshprocess.cpp
   digest: The command lines that SuProcess::exec and SshProcess::exec start. -/

import KDESu.ByteArrays

set_option autoImplicit false
set_option relaxedAutoImplicit false

namespace KDESu.Process.Launching

open KDESu.ByteArrays

/-- What the callee of `execv` sees of a QByteArray: the bytes before its first NUL. -/
def constData (s : Bytes) : Bytes := s.takeWhile (· ≠ 0)

theorem constData_eq_iff (s : Bytes) : constData s = s ↔ (0 : UInt8) ∉ s := by
  rw [constData, List.takeWhile_eq_self_iff]
  constructor
  · intro plain member
    exact absurd (plain 0 member) (by decide)
  · intro free c member
    refine decide_eq_true fun zero => free ?_
    exact zero ▸ member

theorem constData_append_nul {s : Bytes} (free : (0 : UInt8) ∉ s) (later : Bytes) :
    constData (s ++ 0 :: later) = s := by
  have plain : ∀ c ∈ s, decide (c ≠ 0) = true := by
    intro c member
    refine decide_eq_true fun zero => free ?_
    exact zero ▸ member
  rw [constData, List.takeWhile_append_of_pos plain, List.takeWhile_cons_of_neg (by simp),
    List.append_nil]

def SchedNormal : Int := 0
def SchedRealtime : Int := 1

/-- The commands that SuProcess knows; any other entry of the configuration is replaced. -/
inductive SuperUserCommand
  | su | sudo | doas
  deriving DecidableEq, Repr

def SuperUserCommand.name : SuperUserCommand → Bytes
  | .su => ascii "su"
  | .sudo => ascii "sudo"
  | .doas => ascii "doas"

def SuperUserCommand.isPrivilegeEscalation : SuperUserCommand → Bool
  | .su => false
  | .sudo | .doas => true

/-- The build's defaults, the group `super-user-command` of the configuration with `none` for
an entry that is not there, and `QStandardPaths::findExecutable`. -/
structure Installation where
  default_super_user_command : SuperUserCommand
  default_stub_path : Bytes
  super_user_command : Option Bytes
  kdesu_stub_path : Option Bytes
  command : Option Bytes
  findExecutable : Bytes → Bytes

structure StubProcess where
  m_command : Bytes
  m_user : Bytes
  m_scheduler : Int
  m_priority : Int
  m_XOnly : Bool
  env : List Bytes
  deriving DecidableEq, Repr

namespace StubProcess

def new : StubProcess where
  m_command := []
  m_user := ascii "root"
  m_scheduler := SchedNormal
  m_priority := 50
  m_XOnly := true
  env := []

def setCommand (p : StubProcess) (command : Bytes) : StubProcess := { p with m_command := command }

def setUser (p : StubProcess) (user : Bytes) : StubProcess := { p with m_user := user }

def setXOnly (p : StubProcess) (xonly : Bool) : StubProcess := { p with m_XOnly := xonly }

def setPriority (p : StubProcess) (prio : Int) : StubProcess :=
  { p with m_priority := if prio > 100 then 100 else if prio < 0 then 0 else prio }

def setScheduler (p : StubProcess) (sched : Int) : StubProcess := { p with m_scheduler := sched }

def setEnvironment (p : StubProcess) (env : List Bytes) : StubProcess := { p with env := env }

end StubProcess

structure CommandLine where
  path : Bytes
  args : List Bytes
  deriving DecidableEq, Repr

/-- `PtyProcess::exec` up to `execv`: nothing runs when the program is not found. -/
def execv (sys : Installation) (command : Bytes) (args : List Bytes) : Option CommandLine :=
  if contains command (ascii "/") then some ⟨constData command, args.map constData⟩
  else
    let file := sys.findExecutable command
    if file = [] then none else some ⟨constData file, args.map constData⟩

structure SuProcess where
  stub : StubProcess
  superUserCommand : SuperUserCommand
  deriving DecidableEq, Repr

namespace SuProcess

def new (sys : Installation) (user command : Bytes) : SuProcess where
  stub := { StubProcess.new with m_user := user, m_command := command }
  superUserCommand :=
    match sys.super_user_command with
    | none => sys.default_super_user_command
    | some entry =>
        if entry = ascii "su" then .su
        else if entry = ascii "sudo" then .sudo
        else if entry = ascii "doas" then .doas
        else sys.default_super_user_command

/-- `exec` turns to su for every user but root. -/
def chooseCommand (p : SuProcess) : SuProcess :=
  if p.stub.m_user ≠ ascii "root" then { p with superUserCommand := .su } else p

def account (p : SuProcess) : Bytes :=
  if p.stub.m_scheduler ≠ SchedNormal ∨ p.stub.m_priority > 50 then ascii "root"
  else p.stub.m_user

def args (sys : Installation) (p : SuProcess) : List Bytes :=
  (if p.superUserCommand.isPrivilegeEscalation then [ascii "-u"] else []) ++ [p.account] ++
    (if p.superUserCommand = .su then [ascii "-c"] else []) ++
    [sys.kdesu_stub_path.getD sys.default_stub_path, ascii "-"]

/-- `SuProcess::exec` up to the start of its command. -/
def exec (sys : Installation) (p : SuProcess) : SuProcess × Option CommandLine :=
  let p := p.chooseCommand
  let command := sys.command.getD (sys.findExecutable p.superUserCommand.name)
  (p, if command = [] then none else execv sys command (p.args sys))

end SuProcess

structure SshProcess where
  stub : StubProcess
  host : Bytes
  d_stub : Bytes
  deriving DecidableEq, Repr

namespace SshProcess

def new (host user command : Bytes) : SshProcess where
  stub := { StubProcess.new with m_user := user, m_command := command }
  host := host
  d_stub := ascii "kdesu_stub"

def args (p : SshProcess) : List Bytes :=
  [ascii "-l", p.stub.m_user, ascii "-o", ascii "StrictHostKeyChecking=no", p.host, p.d_stub]

def exec (sys : Installation) (p : SshProcess) : Option CommandLine :=
  execv sys (ascii "ssh") p.args

end SshProcess

/-- The account on a command line of su, sudo or doas. -/
def SuperUserCommand.target : SuperUserCommand → List Bytes → Option Bytes
  | .su, user :: _ => some user
  | .sudo, _ :: user :: _ => some user
  | .doas, _ :: user :: _ => some user
  | _, _ => none

def sshTarget : List Bytes → Option Bytes
  | _ :: user :: _ => some user
  | _ => none

theorem args_of_execv {sys : Installation} {command : Bytes} {args : List Bytes}
    {line : CommandLine} (started : execv sys command args = some line) :
    line.args = args.map constData := by
  simp only [execv] at started
  split_ifs at started <;> cases started <;> rfl

theorem SuProcess.target_exec {sys : Installation} {p : SuProcess} {line : CommandLine}
    (started : (p.exec sys).2 = some line) :
    (p.exec sys).1.superUserCommand.target line.args = some (constData p.account) := by
  simp only [SuProcess.exec] at started ⊢
  split_ifs at started
  rw [args_of_execv started]
  have same : p.chooseCommand.account = p.account := by
    simp only [SuProcess.chooseCommand]
    split_ifs <;> rfl
  simp only [SuProcess.args, same]
  cases p.chooseCommand.superUserCommand <;> rfl

theorem SshProcess.target_exec {sys : Installation} {p : SshProcess} {line : CommandLine}
    (started : p.exec sys = some line) : sshTarget line.args = some (constData p.stub.m_user) := by
  rw [args_of_execv started]
  rfl

end KDESu.Process.Launching
