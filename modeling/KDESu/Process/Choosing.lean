/- KDESu/Process/Choosing
   source: src/suprocess.cpp
   digest: What SuProcess::exec starts after earlier calls, and whose password that asks for. -/

import KDESu.Process.Launching
import KDESu.Library.Histories

set_option autoImplicit false
set_option relaxedAutoImplicit false

namespace KDESu.Process.Choosing

open KDESu.ByteArrays
open KDESu.Library.Histories
open KDESu.Process.Launching

/-- The calls that change what `exec` looks at, and `exec` itself, also as `checkInstall` and
`checkNeedPassword`. -/
inductive Call
  | setUser (user : Bytes)
  | setPriority (prio : Int)
  | setScheduler (sched : Int)
  | exec
  deriving DecidableEq, Repr

/-- The program and the arguments that `exec` passes to `StubProcess::exec`. -/
def chosen (sys : Installation) (p : SuProcess) : Bytes × List Bytes :=
  (sys.command.getD (sys.findExecutable p.chooseCommand.superUserCommand.name),
    p.chooseCommand.args sys)

def call (sys : Installation) (p : SuProcess) : Call → SuProcess × Option CommandLine
  | .setUser user => ({ p with stub := p.stub.setUser user }, none)
  | .setPriority prio => ({ p with stub := p.stub.setPriority prio }, none)
  | .setScheduler sched => ({ p with stub := p.stub.setScheduler sched }, none)
  | .exec => p.exec sys

abbrev called (sys : Installation) (user command : Bytes) (calls : List Call) : SuProcess :=
  run (call sys) (.new sys user command) calls

abbrev callsMade (sys : Installation) (user command : Bytes) (calls : List Call) :
    List (Moment SuProcess Call) :=
  history (call sys) (.new sys user command) calls

def inForce (p : SuProcess) : Bytes × Int × Int :=
  (p.stub.m_user, p.stub.m_priority, p.stub.m_scheduler)

/-- The super user command that the constructor takes from the configuration. -/
def configured (sys : Installation) : SuperUserCommand :=
  (SuProcess.new sys [] []).superUserCommand

def ForOther (m : Moment SuProcess Call) : Prop :=
  m.event = .exec ∧ m.before.stub.m_user ≠ ascii "root"

instance forOtherDecidable (m : Moment SuProcess Call) : Decidable (ForOther m) :=
  inferInstanceAs (Decidable (_ ∧ _))

def ServedOther (sys : Installation) (user command : Bytes) (calls : List Call) : Prop :=
  ∃ m ∈ callsMade sys user command calls, ForOther m

instance servedOtherDecidable (sys : Installation) (user command : Bytes) (calls : List Call) :
    Decidable (ServedOther sys user command calls) :=
  inferInstanceAs (Decidable (∃ m ∈ _, ForOther m))

private theorem superUserCommand_call (sys : Installation) (p : SuProcess) (c : Call) :
    (call sys p c).1.superUserCommand =
      if ForOther ⟨p, c⟩ then .su else p.superUserCommand := by
  cases c with
  | setUser | setPriority | setScheduler => simp [call, ForOther]
  | exec =>
    simp only [call, SuProcess.exec, SuProcess.chooseCommand, ForOther, true_and]
    split_ifs <;> rfl

theorem superUserCommand_called (sys : Installation) (user command : Bytes) (calls : List Call) :
    (called sys user command calls).superUserCommand =
      if ServedOther sys user command calls then .su else configured sys := by
  refine run_induction (P := fun h p => p.superUserCommand =
    if ∃ m ∈ h, ForOther m then .su else configured sys) ?_ ?_ calls
  · simp [configured, SuProcess.new]
  · intro h p c before
    rw [superUserCommand_call, before]
    simp only [List.mem_append, List.mem_singleton, or_and_right, exists_or, exists_eq_left]
    by_cases now : ForOther ⟨p, c⟩
    · simp [now]
    · simp [now]

section

variable {sys : Installation} {p q : SuProcess} (same : inForce p = inForce q)

include same

private theorem user_same : p.stub.m_user = q.stub.m_user := congrArg Prod.fst same

private theorem account_same : p.chooseCommand.account = q.chooseCommand.account := by
  have stub (r : SuProcess) : r.chooseCommand.stub = r.stub := by
    simp only [SuProcess.chooseCommand]
    split_ifs <;> rfl
  obtain ⟨user, rest⟩ := Prod.mk.inj same
  obtain ⟨priority, scheduler⟩ := Prod.mk.inj rest
  simp only [SuProcess.account, stub, user, priority, scheduler]

theorem chosen_of_command
    (command : p.chooseCommand.superUserCommand = q.chooseCommand.superUserCommand) :
    chosen sys p = chosen sys q := by
  simp only [chosen, SuProcess.args, command, account_same same]

theorem chosen_of_other (other : p.stub.m_user ≠ ascii "root") : chosen sys p = chosen sys q := by
  refine chosen_of_command same ?_
  have other' : q.stub.m_user ≠ ascii "root" := user_same same ▸ other
  simp only [SuProcess.chooseCommand, if_pos other, if_pos other']

theorem command_of_chosen (root : p.stub.m_user = ascii "root")
    (alike : chosen sys p = chosen sys q) :
    p.superUserCommand = .su ↔ q.superUserCommand = .su := by
  have root' : q.stub.m_user = ascii "root" := user_same same ▸ root
  have kept (r : SuProcess) (user : r.stub.m_user = ascii "root") : r.chooseCommand = r := by
    rw [SuProcess.chooseCommand, if_neg (not_not.mpr user)]
  have name (r : SuProcess) (user : r.stub.m_user = ascii "root") : r.account = ascii "root" := by
    rw [SuProcess.account, user, ite_self]
  have args : p.args sys = q.args sys := by
    have second := congrArg Prod.snd alike
    rwa [chosen, chosen, kept p root, kept q root'] at second
  have apart : ascii "-u" ≠ ascii "root" := by decide
  simp only [SuProcess.args, name p root, name q root'] at args
  cases one : p.superUserCommand <;> cases two : q.superUserCommand <;>
    simp [one, two, SuperUserCommand.isPrivilegeEscalation, apart, apart.symm] at args ⊢

end

/-- Of two objects with the same configuration and the same settings in force, whatever was called
on them before, `exec` makes the same choice exactly if su is configured, the user is not root,
or both or neither have served another user than root. -/
theorem choice_alike_iff (sys : Installation) (user command user' command' : Bytes)
    (calls calls' : List Call)
    (same : inForce (called sys user command calls) =
      inForce (called sys user' command' calls')) :
    chosen sys (called sys user command calls) = chosen sys (called sys user' command' calls') ↔
      configured sys = .su ∨ (called sys user command calls).stub.m_user ≠ ascii "root" ∨
        (ServedOther sys user command calls ↔ ServedOther sys user' command' calls') := by
  have left := superUserCommand_called sys user command calls
  have right := superUserCommand_called sys user' command' calls'
  constructor
  · intro alike
    by_cases other : (called sys user command calls).stub.m_user ≠ ascii "root"
    · exact Or.inr (Or.inl other)
    · have tells := command_of_chosen same (not_not.mp other) alike
      rw [left, right] at tells
      by_cases su : configured sys = .su
      · exact Or.inl su
      · refine Or.inr (Or.inr ?_)
        split_ifs at tells with served served'
        · exact iff_of_true served served'
        · exact absurd (tells.mp rfl) su
        · exact absurd (tells.mpr rfl) su
        · exact iff_of_false served ‹_›
  · have chosen_alike (kept : (called sys user command calls).superUserCommand =
        (called sys user' command' calls').superUserCommand) :
        chosen sys (called sys user command calls) =
          chosen sys (called sys user' command' calls') := by
      refine chosen_of_command same ?_
      simp only [SuProcess.chooseCommand, user_same same]
      split_ifs
      · rfl
      · exact kept
    rintro (su | other | served)
    · refine chosen_alike ?_
      rw [left, right, su, ite_self, ite_self]
    · exact chosen_of_other same other
    · refine chosen_alike ?_
      rw [left, right]
      simp only [served]

def sudoConfigured : Installation where
  default_super_user_command := .su
  default_stub_path := ascii "/usr/libexec/kdesu_stub"
  super_user_command := some (ascii "sudo")
  kdesu_stub_path := none
  command := none
  findExecutable name := ascii "/usr/bin/" ++ name

def rootAgain : List Call :=
  [.setUser (ascii "alice"), .exec, .setUser (ascii "root")]

theorem choice_alike_iff_root :
    chosen sudoConfigured (called sudoConfigured (ascii "root") [] [.exec]) =
        chosen sudoConfigured (called sudoConfigured (ascii "root") [] []) ↔
      configured sudoConfigured = .su ∨
        (called sudoConfigured (ascii "root") [] [.exec]).stub.m_user ≠ ascii "root" ∨
        (ServedOther sudoConfigured (ascii "root") [] [.exec] ↔
          ServedOther sudoConfigured (ascii "root") [] []) :=
  choice_alike_iff sudoConfigured _ _ _ _ _ _ (by decide +kernel)

/-- What `exec` starts is no function of the configuration and the settings in force. -/
theorem choice_remembers_other : ¬∃ choice : Installation → Bytes × Int × Int → Bytes × List Bytes,
    ∀ sys user command calls, chosen sys (called sys user command calls) =
      choice sys (inForce (called sys user command calls)) := by
  rintro ⟨choice, all⟩
  have again := all sudoConfigured (ascii "root") [] rootAgain
  have fresh := all sudoConfigured (ascii "root") [] []
  have same : inForce (called sudoConfigured (ascii "root") [] rootAgain) =
      inForce (called sudoConfigured (ascii "root") [] []) := by decide +kernel
  rw [same, ← fresh] at again
  exact absurd again (by decide +kernel)

section

variable {QString : Type} [DecidableEq QString] (fromUtf8 : Bytes → QString) (loginName : QString)

/-- `SuProcess::useUsersOwnPassword`, with the login name that KUser gives. -/
def useUsersOwnPassword (p : SuProcess) : Bool :=
  if p.superUserCommand.isPrivilegeEscalation && p.stub.m_user == ascii "root" then true
  else loginName == fromUtf8 p.stub.m_user

/-- The account that su is given on the next `exec`. -/
def targetAccount (sys : Installation) (p : SuProcess) : Option Bytes :=
  SuperUserCommand.su.target ((p.chooseCommand.args sys).map constData)

/-- The next `exec` asks for the password of the invoking user: sudo and doas do, and su does for
the invoking user's own account. -/
def AsksForOwn (sys : Installation) (p : SuProcess) : Prop :=
  p.chooseCommand.superUserCommand = .sudo ∨ p.chooseCommand.superUserCommand = .doas ∨
    (p.chooseCommand.superUserCommand = .su ∧
      (targetAccount sys p).map fromUtf8 = some loginName)

/-- `exec` asks for an account other than `m_user` to run with a special priority or scheduler. -/
def Special (p : SuProcess) : Prop :=
  p.stub.m_scheduler ≠ SchedNormal ∨ p.stub.m_priority > 50

instance specialDecidable (p : SuProcess) : Decidable (Special p) :=
  inferInstanceAs (Decidable (_ ∨ _))

/-- The name that su reads for a user other than root. -/
def givenName (p : SuProcess) : Bytes :=
  if Special p then ascii "root" else constData p.stub.m_user

variable {fromUtf8 loginName}

private theorem escalation_iff (command : SuperUserCommand) :
    command.isPrivilegeEscalation = true ↔ command ≠ .su := by
  cases command <;> simp [SuperUserCommand.isPrivilegeEscalation]

private theorem useUsersOwnPassword_true (p : SuProcess) :
    useUsersOwnPassword fromUtf8 loginName p = true ↔
      (p.superUserCommand ≠ .su ∧ p.stub.m_user = ascii "root") ∨
        fromUtf8 p.stub.m_user = loginName := by
  simp only [useUsersOwnPassword, Bool.and_eq_true, beq_iff_eq, escalation_iff]
  split_ifs with escalates
  · simp [escalates]
  · simp only [beq_iff_eq, escalates, false_or]
    exact eq_comm

omit [DecidableEq QString] in
private theorem asksForOwn_iff (sys : Installation) (p : SuProcess) :
    AsksForOwn fromUtf8 loginName sys p ↔ p.chooseCommand.superUserCommand ≠ .su ∨
      fromUtf8 (constData p.account) = loginName := by
  have same : p.chooseCommand.account = p.account := by
    simp only [SuProcess.chooseCommand]
    split_ifs <;> rfl
  cases command : p.chooseCommand.superUserCommand <;>
    simp [AsksForOwn, targetAccount, SuProcess.args, command, same, SuperUserCommand.target,
      SuperUserCommand.isPrivilegeEscalation]

private theorem read_alike_iff {one other name : QString} :
    (one = name ↔ other = name) ↔ one = other ∨ (name ≠ one ∧ name ≠ other) := by
  constructor
  · intro alike
    by_cases named : one = name
    · exact Or.inl (named.trans (alike.mp named).symm)
    · exact Or.inr ⟨Ne.symm named, fun back => named (alike.mpr back.symm)⟩
  · rintro (same | ⟨not_one, not_other⟩)
    · rw [same]
    · exact iff_of_false (Ne.symm not_one) (Ne.symm not_other)

/-- `useUsersOwnPassword` agrees with the next `exec` exactly if the user is root, or the name that
su reads (root if something special is asked for, else the user's up to its NUL) stands for the
same login name as the user's, or the invoking user has neither of the two. -/
theorem useUsersOwnPassword_iff (fromUtf8 : Bytes → QString) (loginName : QString)
    (sys : Installation) (p : SuProcess) :
    (useUsersOwnPassword fromUtf8 loginName p = true ↔ AsksForOwn fromUtf8 loginName sys p) ↔
      p.stub.m_user = ascii "root" ∨ fromUtf8 p.stub.m_user = fromUtf8 (givenName p) ∨
        (loginName ≠ fromUtf8 p.stub.m_user ∧ loginName ≠ fromUtf8 (givenName p)) := by
  have account : constData p.account = givenName p := by
    have name : p.account = if Special p then ascii "root" else p.stub.m_user := rfl
    rw [name, apply_ite constData]
    rfl
  rw [useUsersOwnPassword_true, asksForOwn_iff, account, SuProcess.chooseCommand]
  by_cases root : p.stub.m_user = ascii "root"
  · -- both look at the configured command, and su would get the name root
    have named : givenName p = ascii "root" := by
      rw [givenName, root]
      exact ite_self _
    simp only [root, named, ne_eq, not_true, if_false, and_true, true_or]
  · -- `exec` has turned to su, and the user is compared with the name that su gets
    simp only [root, ne_eq, not_false_eq_true, if_true, not_true, and_false, false_or]
    exact read_alike_iff

/-- Alice runs something as herself with a high priority: su asks for the password of root. -/
theorem priority_asks_for_root : ¬∀ (QString : Type) [DecidableEq QString]
    (fromUtf8 : Bytes → QString) (loginName : QString) (sys : Installation) (p : SuProcess),
    useUsersOwnPassword fromUtf8 loginName p = true ↔ AsksForOwn fromUtf8 loginName sys p := by
  intro agrees
  have asks := (agrees Bytes id (ascii "alice") sudoConfigured
    ⟨(StubProcess.new.setUser (ascii "alice")).setPriority 60, .sudo⟩).mp (by decide +kernel)
  rw [asksForOwn_iff] at asks
  exact absurd asks (by decide +kernel)

end

end KDESu.Process.Choosing
