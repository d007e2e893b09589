/- KDESu/Process/Checking
   source: src/suprocess.cpp, src/sshprocess.cpp, src/stubprocess.cpp, src/ptyprocess.cpp
   digest: When a failed conversation with the stub is reported as success. -/

import KDESu.Process.Calling

set_option autoImplicit false
set_option relaxedAutoImplicit false

namespace KDESu.Process.Checking

open KDESu.ByteArrays
open KDESu.Library.Histories
open KDESu.Process.Launching
open KDESu.Process.Reading
open KDESu.Process.Conversing
open KDESu.Process.Exiting
open KDESu.Process.Waiting
open KDESu.Process.Executing
open KDESu.Process.Remote
open KDESu.Process.Calling

def Fails (m : Moment Watch Move) : Prop :=
  m.before.phase = .selecting ∧ m.event = .select .failed

def SelectFails (settings : Settings) (start : Watch) (moves : List Move) : Prop :=
  ∃ m ∈ history (Watch.step settings) start moves, Fails m

def Reaped (w : Watch) : Prop := ∃ t, w.child = .gone t

/-- Where a wait can be: under way, back from a failed `select`, or back with the child waited
for. A child that was gone before it gives ECHILD, and that is 0. -/
private inductive WaitState (start : Watch) (failed : Prop) (w : Watch) : Prop
  | live (phase : ∀ ret, w.phase ≠ .returned ret) (smooth : ¬failed)
      (child : Reaped w ↔ Reaped start) : WaitState start failed w
  | broken (phase : w.phase = .returned (-1)) (fails : failed)
      (child : Reaped w ↔ Reaped start) : WaitState start failed w
  | back (t : Termination) (ret : Int) (phase : w.phase = .returned ret) (smooth : ¬failed)
      (gone : w.child = .gone t) (early : Reaped start → ret = 0)
      (late : ¬Reaped start → ret = t.verdict) : WaitState start failed w

section

variable {settings : Settings} {start w : Watch} {failed : Prop}

private theorem returned_step {ret : Int} (back : w.phase = .returned ret) (m : Move) :
    (w.step settings m).1.phase = .returned ret ∧ (Reaped (w.step settings m).1 ↔ Reaped w) ∧
      ∀ t, w.child = .gone t → (w.step settings m).1.child = .gone t := by
  have moved := moved_step settings w m
  generalize (w.step settings m).1 = w' at moved ⊢
  cases moved with
  | idle | write => exact ⟨back, Iff.rfl, fun t gone => gone⟩
  | finish running =>
    refine ⟨back, by simp [Reaped, running], fun t gone => ?_⟩
    exact absurd (running.symm.trans gone) (by simp)
  | ready here | timeout here | interrupted here | failed here | read here | readFails here
  | runs here | reaped here | lost here => exact absurd (back.symm.trans here) (by simp)

private theorem live_step (phase : ∀ ret, w.phase ≠ .returned ret) (smooth : ¬failed)
    (child : Reaped w ↔ Reaped start) (m : Move) :
    WaitState start (failed ∨ Fails ⟨w, m⟩) (w.step settings m).1 := by
  have quiet (other : m ≠ .select .failed) : ¬(failed ∨ Fails ⟨w, m⟩) := by
    rintro (fails | ⟨-, fails⟩)
    · exact smooth fails
    · exact other fails
  have moved := moved_step settings w m
  generalize (w.step settings m).1 = w' at moved ⊢
  cases moved with
  | idle out =>
    refine .live phase ?_ child
    rintro (fails | ⟨selecting, rfl⟩)
    · exact smooth fails
    · exact out selecting
  | write => exact .live phase (quiet (by simp)) child
  | finish running => exact .live phase (quiet (by simp)) (by simpa [Reaped, running] using child)
  | ready here answered =>
    refine .live (by simp) (quiet ?_) child
    rcases answered with rfl | ⟨rfl, -⟩ <;> simp
  | timeout | interrupted => exact .live (by simp) (quiet (by simp)) child
  | failed here => exact .broken rfl (Or.inr ⟨here, rfl⟩) child
  | read here amount =>
    exact .live (copy_live here) (quiet (by simp)) (by simpa [Reaped] using child)
  | readFails here =>
    exact .live (copy_live here) (quiet (by simp)) (by simpa [Reaped] using child)
  | runs here running => exact .live (by simp) (quiet (by simp)) child
  | @reaped here t zombie =>
    have fresh : ¬Reaped start := fun early => by simpa [Reaped, zombie] using child.mpr early
    exact .back t _ rfl (quiet (by simp)) rfl (fun early => absurd early fresh) fun _ => rfl
  | @lost here t gone =>
    have early : Reaped start := child.mp ⟨t, gone⟩
    exact .back t 0 rfl (quiet (by simp)) gone (fun _ => rfl) fun fresh => absurd early fresh

private theorem waitState_step (state : WaitState start failed w) (m : Move) :
    WaitState start (failed ∨ Fails ⟨w, m⟩) (w.step settings m).1 := by
  cases state with
  | live phase smooth child => exact live_step phase smooth child m
  | broken phase fails child =>
    obtain ⟨phase', child', -⟩ := returned_step phase m
    exact .broken phase' (Or.inl fails) (child'.trans child)
  | back t ret phase smooth gone early late =>
    obtain ⟨phase', -, gone'⟩ := returned_step phase m
    have quiet : ¬(failed ∨ Fails ⟨w, m⟩) := by
      rintro (fails | ⟨selecting, -⟩)
      · exact smooth fails
      · exact absurd (phase.symm.trans selecting) (by simp)
    exact .back t ret phase' quiet (gone' t gone) early late

end

private theorem waitState_run (settings : Settings) {start : Watch}
    (selecting : start.phase = .selecting) (moves : List Move) :
    WaitState start (SelectFails settings start moves) (run (Watch.step settings) start moves) := by
  refine run_induction (P := fun h w => WaitState start (∃ m ∈ h, Fails m) w) ?_ ?_ moves
  · exact .live (by simp [selecting]) (by simp) Iff.rfl
  · intro h w m state
    have snoc : (∃ m' ∈ h ++ [⟨w, m⟩], Fails m') ↔ (∃ m' ∈ h, Fails m') ∨ Fails ⟨w, m⟩ := by
      simp only [List.mem_append, List.mem_singleton, or_and_right, exists_or, exists_eq_left]
    rw [snoc]
    exact waitState_step state m

/-- How a child ends that runs before these moves: its first end counts. -/
def ending (moves : List Move) : Option Termination :=
  moves.findSome? fun m => match m with
    | .finish t => some t
    | _ => none

/-- The child is as these moves have left it. -/
private def EndsAs (moves : List Move) (w : Watch) : Prop :=
  match w.child with
  | .running => ending moves = none
  | .zombie t | .gone t => ending moves = some t

private theorem endsAs_step {settings : Settings} {moves : List Move} {w : Watch}
    (ends : EndsAs moves w) (m : Move) : EndsAs (moves ++ [m]) (w.step settings m).1 := by
  have snoc : ending (moves ++ [m]) = (ending moves).or (ending [m]) := List.findSome?_append
  rw [EndsAs, child_step, snoc]
  cases state : w.child with
  | running =>
    have running : ending moves = none := by simpa [EndsAs, state] using ends
    rw [running]
    cases m with
    | wait =>
      simp only
      split_ifs <;> rfl
    | write | finish | select | read | readFails => rfl
  | zombie t | gone t =>
    have ended : ending moves = some t := by simpa [EndsAs, state] using ends
    rw [ended]
    cases m with
    | wait =>
      simp only
      split_ifs <;> rfl
    | write | finish | select | read | readFails => rfl

private theorem endsAs_run {settings : Settings} {before : List Move} {w : Watch}
    (ends : EndsAs before w) (moves : List Move) :
    EndsAs (before ++ moves) (run (Watch.step settings) w moves) := by
  induction moves using List.reverseRecOn with
  | nil =>
    rw [List.append_nil]
    exact ends
  | append_singleton moves m ih =>
    rw [run_snoc, ← List.append_assoc]
    exact endsAs_step ih m

/-- The wait of `exec` behind a stub that was refused, the second one, does not return 0: its
`select` fails, or that of the first one has failed and the child ends with another code. -/
def LastWaitFails (settings : Settings) (inputBuffer : Bytes) (a : SshAttempt) : Prop :=
  SelectFails (lastSettings settings 0) (again (after settings inputBuffer a.moves)) a.later ∨
    SelectFails settings (.start inputBuffer) a.moves ∧
      ∃ code ≠ 0, ending (a.moves ++ a.later) = some (.exited code)

private theorem returned_of_result {w : Watch} {ret : Int} (returns : result w = some ret) :
    w.phase = .returned ret := by
  simp only [result] at returns
  split at returns
  · next back => rw [back, Option.some.inj returns]
  · cases returns

private theorem verdict_ne_zero_iff (t : Termination) :
    t.verdict ≠ 0 ↔ ∃ code ≠ 0, t = .exited code := by
  cases t with
  | exited code =>
    have zero : code.toNat = 0 ↔ code = 0 := by
      rw [← UInt8.toNat_inj, UInt8.toNat_zero]
    simp [Termination.verdict, zero]
  | killed signal core => simp [Termination.verdict]

/-- What the second wait returns, when the first has returned. -/
private theorem lastWait_ne_zero_iff {settings : Settings} {inputBuffer : Bytes}
    {a : SshAttempt} {first ret : Int}
    (before : result (after settings inputBuffer a.moves) = some first)
    (returns : lastWait settings 0 (again (after settings inputBuffer a.moves)) a.later =
      some ret) : ret ≠ 0 ↔ LastWaitFails settings inputBuffer a := by
  have earlier := @waitState_run settings (.start inputBuffer) rfl a.moves
  have later := @waitState_run (lastSettings settings 0)
    (again (after settings inputBuffer a.moves)) rfl a.later
  have left : EndsAs a.moves (again (after settings inputBuffer a.moves)) :=
    @endsAs_run settings [] (.start inputBuffer) rfl a.moves
  have ended : EndsAs (a.moves ++ a.later) (run (Watch.step (lastSettings settings 0))
      (again (after settings inputBuffer a.moves)) a.later) := endsAs_run left a.later
  obtain ⟨ret', waited, rfl⟩ := Option.map_eq_some_iff.mp returns
  have back := returned_of_result waited
  have young : ¬Reaped (.start inputBuffer) := by simp [Reaped, Watch.start]
  simp only [zero_ne_one, if_false, LastWaitFails]
  cases later with
  | live phase => exact absurd back (phase ret')
  | broken phase fails =>
    cases back.symm.trans phase
    exact iff_of_true (by decide) (Or.inl fails)
  | back t ret phase smooth gone early late =>
    cases back.symm.trans phase
    rw [or_iff_right smooth]
    cases earlier with
    | live phase => exact absurd (returned_of_result before) (phase first)
    | broken phase fails child =>
      have fresh : ¬Reaped (again (after settings inputBuffer a.moves)) := mt child.mp young
      have same : ending (a.moves ++ a.later) = some t := by simpa [EndsAs, gone] using ended
      simp only [late fresh, verdict_ne_zero_iff, same, Option.some.injEq]
      exact (and_iff_right fails).symm
    | back t' ret' phase smooth' gone' =>
      have reaped : Reaped (again (after settings inputBuffer a.moves)) := ⟨t', gone'⟩
      exact iff_of_false (not_not.mpr (early reaped)) fun both => smooth' both.1

def requests (lines : List Bytes) : List Bytes :=
  (lines.dropWhile (· ≠ ascii "kdesu_stub")).tail

/-- Among its requests the stub has one that is not known, with no `end` in front of it. -/
def AsksUnknown (around : Surroundings) (p : StubProcess) (lines : List Bytes) : Prop :=
  ∃ line ≠ ascii "end",
    (requests lines).find? (fun request => (answer around p request).isNone) = some line

section

variable {around : Surroundings} {p : StubProcess} {check : Bool} {lines : List Bytes} {ret : Int}
  {written : List Bytes}

private theorem follow_requests
    (followed : follow (hearStub around p check) .serving lines = some (ret, written)) :
    ret = 1 ↔ ∃ line ≠ ascii "end",
      lines.find? (fun request => (answer around p request).isNone) = some line := by
  induction lines generalizing written with
  | nil =>
    cases followed
    simp
  | cons line lines ih =>
    simp only [follow, hearStub] at followed
    cases known : answer around p line with
    | some said =>
      rw [known] at followed
      obtain ⟨⟨ret', written'⟩, later, equal⟩ := Option.map_eq_some_iff.mp followed
      cases equal
      rw [List.find?_cons_of_neg (by simp [known])]
      exact ih later
    | none =>
      rw [known] at followed
      simp only [Option.some.injEq, Prod.mk.injEq] at followed
      obtain ⟨rfl, -⟩ := followed
      rw [List.find?_cons_of_pos (by simp [known])]
      by_cases last : line = ascii "end" <;> simp [last, eq_comm]

private theorem follow_stub
    (followed : follow (hearStub around p check) .greeting lines = some (ret, written)) :
    ret = 1 ↔ AsksUnknown around p lines := by
  induction lines generalizing written with
  | nil =>
    cases followed
    simp [AsksUnknown, requests]
  | cons line lines ih =>
    simp only [follow, hearStub] at followed
    by_cases stub : line = ascii "kdesu_stub"
    · simp only [stub, if_true] at followed
      obtain ⟨⟨ret', written'⟩, later, equal⟩ := Option.map_eq_some_iff.mp followed
      cases equal
      simpa [AsksUnknown, requests, stub] using follow_requests later
    · simp only [stub, if_false] at followed
      obtain ⟨⟨ret', written'⟩, later, equal⟩ := Option.map_eq_some_iff.mp followed
      cases equal
      simpa [AsksUnknown, requests, stub] using ih later

end

private theorem refused_iff {around : Surroundings} {p : StubProcess} {check : Bool}
    {pty left : Pty} {ret : Int} {written : List Bytes}
    (returns : converseStub around p check pty = some (ret, written, left)) :
    ret = 1 ↔ AsksUnknown around p pty.lines :=
  follow_stub (follow_of_converseStub returns)

/-- What ssh leaves to the conversation with the stub, if it has let one begin. -/
def sshLeaves (settings : Settings) (texts : SshTexts) (check : Int) (password : Bytes)
    (a : SshAttempt) : Option Pty :=
  if a.launched then
    (converseSsh settings.m_terminal a.waitSlave password check texts a.pty).bind
      fun ((ret, _), _, pty) => if ret = .failed then none else some pty
  else none

def checking (settings : Settings) (check : Int) : Settings :=
  if check = 0 then settings else { settings with m_terminal := true }

private theorem su_reports {p : SuProcess} {around : Surroundings} {settings : Settings}
    {m_erase : Bool} {check : CheckMode} {password : QByteArray} {a : Attempt} {c : Called}
    (used : check ≠ .NeedPassword)
    (returns : suExec p around settings m_erase check password a = some c) (zero : c.ret = 0) :
    c.stub = some 0 := by
  cases launched : a.launched with
  | false =>
    simp only [suExec, launched, Bool.not_false, if_true, Option.some.injEq] at returns
    subst returns
    have failed : (if check = .NoCheck then -1 else SuNotFound) ≠ 0 := by
      split_ifs <;> decide
    exact absurd zero failed
  | true =>
    simp only [suExec, launched, used, Bool.not_true, Bool.false_eq_true, if_false,
      Option.bind_eq_some_iff, Prod.exists] at returns
    obtain ⟨ret, fed, pty, su, returns⟩ := returns
    generalize (if check = .NoCheck then settings else { settings with m_terminal := true }) =
      settings at returns
    by_cases error : ret = .error
    · rw [if_pos error, Option.some.injEq] at returns
      subst returns error
      cases zero
    rw [if_neg error] at returns
    by_cases ok : ret = .ok
    · rw [if_neg (not_not.mpr ok), Option.bind_eq_some_iff] at returns
      obtain ⟨⟨iret, written, left⟩, stub, returns⟩ := returns
      rcases converseStub_result stub with rfl | rfl | rfl
      · cases Option.some.inj returns
        cases zero
      · simp only [lt_irrefl, zero_ne_one, if_false] at returns
        split_ifs at returns
        all_goals
          obtain ⟨_, -, rfl⟩ := Option.map_eq_some_iff.mp returns
          rfl
      · obtain ⟨_, -, rfl⟩ := Option.map_eq_some_iff.mp returns
        cases zero
    · rw [if_pos ok] at returns
      split_ifs at returns
      · obtain ⟨_, -, rfl⟩ := Option.map_eq_some_iff.mp returns
        cases zero
      · cases Option.some.inj returns
        cases zero

private theorem ssh_reports_iff {p : SshProcess} {around : Surroundings} {settings : Settings}
    {m_erase : Bool} {texts : SshTexts} {check : Int} {password : Bytes} {a : SshAttempt}
    {c : SshCalled} (used : check = 0 ∨ check = 1)
    (returns : sshExec p around settings m_erase texts check password a = some c) :
    (c.ret = 0 → c.stub = some 0) ↔
      ∀ pty, sshLeaves (checking settings check) texts check password a = some pty →
        AsksUnknown (surroundingsOfSsh around) p.stub pty.lines →
          check = 0 ∧ ∀ ret written left,
            converseStub (surroundingsOfSsh around) p.stub (check ≠ 0) pty =
              some (ret, written, left) → LastWaitFails settings left.inputBuffer a := by
  have other : check ≠ 2 := by omega
  cases launched : a.launched with
  | false =>
    simp only [sshExec, launched, Bool.not_false, if_true, Option.some.injEq] at returns
    subst returns
    have failed : (if check = 0 then -1 else SshNotFound) ≠ 0 := by
      split_ifs <;> decide
    exact iff_of_true (fun zero => absurd zero failed) (by simp [sshLeaves, launched])
  | true =>
    simp only [sshExec, launched, other, Bool.not_true, Bool.false_eq_true, if_false,
      Option.bind_eq_some_iff, Prod.exists] at returns
    obtain ⟨ssh, texts', fed, pty, conversed, returns⟩ := returns
    simp only [sshLeaves, checking, launched, if_true, conversed, Option.bind_some]
    by_cases failed : ssh = .failed
    · subst failed
      cases Option.some.inj returns
      have negative : SshEnd.failed.toInt ≠ 0 := by decide
      exact iff_of_true (fun zero => absurd zero negative) (by simp)
    have passed : ¬ssh.toInt < 0 := by
      cases ssh <;> first | decide | exact absurd rfl failed
    rw [if_neg passed, Option.bind_eq_some_iff] at returns
    obtain ⟨⟨stub, written, left⟩, answered, returns⟩ := returns
    simp only [failed, if_false, Option.some.injEq, forall_eq', ← refused_iff answered, answered,
      Prod.mk.injEq, and_imp]
    rcases converseStub_result answered with rfl | rfl | rfl
    · cases Option.some.inj returns
      exact iff_of_true (fun zero => by cases zero) (by simp)
    · simp only [lt_irrefl, zero_ne_one, if_false] at returns
      obtain ⟨_, -, rfl⟩ := Option.map_eq_some_iff.mp returns
      exact iff_of_true (fun _ => rfl) (by simp)
    · obtain ⟨first, before, returns⟩ := Option.bind_eq_some_iff.mp returns
      obtain ⟨ret, last, rfl⟩ := Option.map_eq_some_iff.mp returns
      rcases used with rfl | rfl
      · have wait := lastWait_ne_zero_iff before last
        simp [wait]
      · obtain ⟨_, -, rfl⟩ := Option.map_eq_some_iff.mp last
        simp

/-- When `exec` runs a command or checks a password, su returns 0 only behind a conversation with
the stub that has returned 0. ssh does so exactly if the stub asks nothing unknown, or if a command
was run and the second wait fails or finds another code than 0. -/
theorem failed_stub_reported_iff (around : Surroundings) (settings : Settings) (m_erase : Bool) :
    (∀ (p : SuProcess) (check : CheckMode) (password : QByteArray) (a : Attempt) (c : Called),
      check ≠ .NeedPassword → suExec p around settings m_erase check password a = some c →
        c.ret = 0 → c.stub = some 0) ∧
    ∀ (p : SshProcess) (texts : SshTexts) (check : Int) (password : Bytes) (a : SshAttempt)
      (c : SshCalled), check = 0 ∨ check = 1 →
      sshExec p around settings m_erase texts check password a = some c →
        ((c.ret = 0 → c.stub = some 0) ↔
          ∀ pty, sshLeaves (checking settings check) texts check password a = some pty →
            AsksUnknown (surroundingsOfSsh around) p.stub pty.lines →
              check = 0 ∧ ∀ ret written left,
                converseStub (surroundingsOfSsh around) p.stub (check ≠ 0) pty =
                  some (ret, written, left) → LastWaitFails settings left.inputBuffer a) :=
  ⟨fun _ _ _ _ _ => su_reports, fun _ _ _ _ _ _ => ssh_reports_iff⟩

def sshRefuses (moves later : List Move) : SshAttempt :=
  ⟨true, .new [ascii "kdesu_stub\n", ascii "bogus\n"], 0, moves, later⟩

theorem failed_stub_reported_iff_broken :
    (∃ c, suExec asRoot surroundings toTerminal true .Install (some secret.text)
      (suSays [ascii "kdesu_stub\n", ascii "end\n"]) = some c ∧ c.ret = 0 ∧ c.stub = some 0) ∧
    ∃ c, sshExec asGuest surroundings toTerminal true ⟨[], [], []⟩ 0 secret.text
      (sshRefuses [.select .failed] [.finish (.exited 5), .select .timeout, .wait]) = some c ∧
        c.stub = some 1 ∧ (c.ret = 0 → c.stub = some 0) := by
  constructor
  · have returns : suExec asRoot surroundings toTerminal true .Install (some secret.text)
        (suSays [ascii "kdesu_stub\n", ascii "end\n"]) =
          some ⟨0, [], some 0, List.replicate 7 0, []⟩ := by
      decide +kernel
    exact ⟨_, returns, rfl,
      (failed_stub_reported_iff _ _ _).1 _ _ _ _ _ (by decide) returns rfl⟩
  · have returns : sshExec asGuest surroundings toTerminal true ⟨[], [], []⟩ 0 secret.text
        (sshRefuses [.select .failed] [.finish (.exited 5), .select .timeout, .wait]) =
          some ⟨⟨5, [], some 1, List.replicate 7 0, [SIGTERM]⟩, ⟨[], [], []⟩⟩ := by
      decide +kernel
    refine ⟨_, returns, rfl,
      ((failed_stub_reported_iff _ _ _).2 _ _ _ _ _ _ (Or.inl rfl) returns).mpr ?_⟩
    intro pty leaves asks
    refine ⟨rfl, fun ret written left answered => Or.inr ⟨?_, 5, by decide, rfl⟩⟩
    exact ⟨_, List.mem_cons_self, rfl, rfl⟩

/-- The check of a password comes to 0 when the stub was killed for its request. -/
theorem refused_stub_accepted : ¬∀ p around settings m_erase texts password a c,
    sshExec p around settings m_erase texts 1 password a = some c →
      c.ret = 0 → c.stub = some 0 := by
  intro reports
  have returns : sshExec asGuest surroundings toTerminal true ⟨[], [], []⟩ 1 secret.text
      (sshRefuses [.finish (.killed ⟨15, by decide, by decide⟩ false), .select .timeout, .wait]
        [.select .timeout, .wait]) =
          some ⟨⟨0, [], some 1, List.replicate 7 0, [SIGTERM]⟩, ⟨[], [], []⟩⟩ := by
    decide +kernel
  exact absurd (reports _ _ _ _ _ _ _ _ returns rfl) (by decide)

end KDESu.Process.Checking
