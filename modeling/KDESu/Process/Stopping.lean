/- KDESu/Process/Stopping
   source: src/suprocess.cpp, src/sshprocess.cpp, src/sshprocess.h
   digest: The signals that exec sends, and the child that a check for a password leaves. -/

import KDESu.Process.Calling

set_option autoImplicit false
set_option relaxedAutoImplicit false

namespace KDESu.Process.Stopping

open KDESu.ByteArrays
open KDESu.Library.Histories
open KDESu.Process.Launching
open KDESu.Process.Reading
open KDESu.Process.Conversing
open KDESu.Process.Exiting
open KDESu.Process.Waiting
open KDESu.Process.Executing
open KDESu.Process.Remote
open KDESu.Process.Calling

/-- A prompt comes before the stub's line. -/
def asksForPassword (lines : List Bytes) : Bool :=
  (lines.takeWhile (· ≠ ascii "kdesu_stub")).any isPrompt

def SshAsks (a : SshAttempt) : Prop := a.launched = true ∧ asksForPassword a.pty.lines = true

/-- The child has been sent a signal that ends it. -/
def Terminated (c : Called) : Prop := SIGTERM ∈ c.signals ∨ SIGKILL ∈ c.signals

private theorem follow_needs_iff {terminal : Bool} {waitSlave : Int} {password : Bytes}
    {texts : SshTexts} {lines : List Bytes} {ret : SshEnd × SshTexts} {written : List Bytes}
    (followed : follow (hearSsh terminal waitSlave password 2) ⟨0, texts⟩ lines =
      some (ret, written)) : ret.1 = .needsPassword ↔ asksForPassword lines = true := by
  induction lines generalizing texts written with
  | nil =>
    cases followed
    simp [asksForPassword]
  | cons line lines ih =>
    simp only [follow, hearSsh, if_true] at followed
    by_cases stub : line = ascii "kdesu_stub"
    · simp only [stub, if_true] at followed
      cases followed
      simp [asksForPassword, stub]
    by_cases prompt : isPrompt line = true
    · simp only [stub, prompt, if_false, if_true] at followed
      cases followed
      simp [asksForPassword, stub, prompt]
    · simp only [stub, prompt, if_false, Bool.false_eq_true] at followed
      obtain ⟨⟨ret', written'⟩, later, equal⟩ := Option.map_eq_some_iff.mp followed
      cases equal
      simpa [asksForPassword, stub, prompt] using ih later

private theorem su_terminated {p : SuProcess} {around : Surroundings} {settings : Settings}
    {m_erase : Bool} {a : Attempt} {c : Called}
    (plain : p.chooseCommand.superUserCommand.isPrivilegeEscalation = false)
    (launched : a.launched = true)
    (returns : SuProcess.checkNeedPassword p around settings m_erase a = some c)
    (needs : c.ret = SuErrors.killme.toInt) : Terminated c := by
  simp only [SuProcess.checkNeedPassword, suExec, launched, plain, Bool.not_true,
    Bool.false_eq_true, if_false, if_true, Option.bind_eq_some_iff, Prod.exists] at returns
  obtain ⟨ret, fed, pty, su, returns⟩ := returns
  by_cases killme : ret = .killme
  · simp only [killme, reduceCtorEq, if_false, if_true] at returns
    split_ifs at returns
    · cases Option.some.inj returns
      cases needs
    · obtain ⟨iret, -, rfl⟩ := Option.map_eq_some_iff.mp returns
      exact Or.inr List.mem_cons_self
  · simp only [killme, if_false] at returns
    have other : c.ret = ret.toInt := by
      split_ifs at returns <;> exact (Option.some.inj returns) ▸ rfl
    rw [other] at needs
    cases ret with
    | killme => exact absurd rfl killme
    | error | ok | notauthorized => cases needs

private theorem ssh_terminated_iff {p : SshProcess} {around : Surroundings} {settings : Settings}
    {m_erase : Bool} {texts : SshTexts} {a : SshAttempt} {c : SshCalled}
    (returns : SshProcess.checkNeedPassword p around settings m_erase texts a = some c) :
    (c.ret = SshNeedsPassword → Terminated c.toCalled) ↔ ¬SshAsks a := by
  cases launched : a.launched with
  | false =>
    simp only [SshProcess.checkNeedPassword, sshExec, launched, Bool.not_false, if_true,
      OfNat.ofNat_ne_zero, if_false, Option.some.injEq] at returns
    subst returns
    exact iff_of_true (fun needs => by cases needs) (by simp [SshAsks, launched])
  | true =>
    simp only [SshProcess.checkNeedPassword, sshExec, launched, Bool.not_true,
      Bool.false_eq_true, if_false, if_true, OfNat.ofNat_ne_zero, Option.bind_eq_some_iff,
      Prod.exists] at returns
    obtain ⟨ssh, texts', fed, pty, conversed, returns⟩ := returns
    have asks := follow_needs_iff (follow_of_converseSsh conversed)
    have never : ssh.toInt ≠ 1 := by
      cases ssh <;> decide
    rw [if_neg never, ite_self] at returns
    cases Option.some.inj returns
    have needs : ssh.toInt = SshNeedsPassword ↔ ssh = .needsPassword := by
      cases ssh <;> decide
    simp [SshAsks, launched, ← asks, needs, Terminated]

/-- A check that reports the need of a password has sent its child a signal that ends it: always
with plain su, and with ssh exactly if it does not report it. -/
theorem reported_child_terminated_iff (around : Surroundings) (settings : Settings)
    (m_erase : Bool) :
    (∀ (p : SuProcess) (a : Attempt) (c : Called),
      p.chooseCommand.superUserCommand.isPrivilegeEscalation = false → a.launched = true →
      SuProcess.checkNeedPassword p around settings m_erase a = some c →
        c.ret = SuErrors.killme.toInt → Terminated c) ∧
    ∀ (p : SshProcess) (texts : SshTexts) (a : SshAttempt) (c : SshCalled),
      SshProcess.checkNeedPassword p around settings m_erase texts a = some c →
        ((c.ret = SshNeedsPassword → Terminated c.toCalled) ↔ ¬SshAsks a) :=
  ⟨fun _ _ _ => su_terminated, fun _ _ _ _ => ssh_terminated_iff⟩

def suAtPrompt : Attempt :=
  { suSays [ascii "Password: "] with
    moves := [.finish (.killed SIGKILL false), .select .timeout, .wait] }

def sshPrints (reads : List Bytes) : SshAttempt := ⟨true, .new reads, 0, [], []⟩

theorem reported_child_terminated_iff_prompt :
    (∃ c, SuProcess.checkNeedPassword asRoot surroundings toTerminal false suAtPrompt = some c ∧
      c.ret = SuErrors.killme.toInt ∧ Terminated c) ∧
    ∃ c, SshProcess.checkNeedPassword asGuest surroundings toTerminal false ⟨[], [], []⟩
      (sshPrints [ascii "kdesu_stub\n"]) = some c ∧
        (c.ret = SshNeedsPassword → Terminated c.toCalled) := by
  constructor
  · have returns : SuProcess.checkNeedPassword asRoot surroundings toTerminal false suAtPrompt =
        some ⟨1, [], none, [], [SIGKILL]⟩ := by
      decide +kernel
    exact ⟨_, returns, rfl, (reported_child_terminated_iff surroundings toTerminal false).1 _ _ _
      (by decide) rfl returns rfl⟩
  · have returns : SshProcess.checkNeedPassword asGuest surroundings toTerminal false ⟨[], [], []⟩
        (sshPrints [ascii "kdesu_stub\n"]) = some ⟨⟨0, [], none, [0], []⟩, ⟨[], [], []⟩⟩ := by
      decide +kernel
    have silent : asksForPassword (sshPrints [ascii "kdesu_stub\n"]).pty.lines = false := by
      decide +kernel
    refine ⟨_, returns, ((reported_child_terminated_iff surroundings toTerminal false).2 _ _ _ _
      returns).mpr fun asks => ?_⟩
    exact absurd (silent.symm.trans asks.2) (by decide)

/-- ssh asks for a password, which is reported, and waits on. -/
theorem asking_ssh_left_waiting : ¬∀ p around settings m_erase texts a c,
    SshProcess.checkNeedPassword p around settings m_erase texts a = some c →
      c.ret = SshNeedsPassword → Terminated c.toCalled := by
  intro terminated
  have returns : SshProcess.checkNeedPassword asGuest surroundings toTerminal false ⟨[], [], []⟩
      (sshPrints [ascii "Password: "]) =
        some ⟨⟨2, [], none, [0], []⟩, ⟨ascii "Password: ", [], []⟩⟩ := by
    decide +kernel
  exact absurd (terminated _ _ _ _ _ _ _ returns rfl) (by simp [Terminated])

end KDESu.Process.Stopping
