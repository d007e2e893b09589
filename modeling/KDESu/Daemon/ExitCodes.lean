/- KDESu/Daemon/ExitCodes
   source: src/kdesud/kdesud.cpp, src/kdesud/handler.cpp
   digest: Children and their exit codes: which session gets them, and in answer to what. -/

import KDESu.Daemon.EventLoop

set_option autoImplicit false
set_option relaxedAutoImplicit false

namespace KDESu.Daemon.ExitCodes

open KDESu.ByteArrays
open KDESu.Library.Histories
open KDESu.Daemon.Repositories (Repository)
open KDESu.Daemon.Handling
open KDESu.Daemon.Requests
open KDESu.Daemon.EventLoop

def startedChild (fd : Nat) (m : Moment Kdesud Event) : Option Pid :=
  match acted m with
  | .perform fd' h sys request =>
      if fd' = fd then (perform sys h m.before.repo request).child.map Child.pid else none
  | _ => none

/-- The operating system gives no child a pid that it still holds for another. -/
def forksFresh (m : Moment Kdesud Event) : Bool :=
  match acted m with
  | .perform fd _ _ _ => ∀ pid ∈ startedChild fd m, pid ∉ m.before.children
  | _ => true

def AcceptedOn (fd : Nat) (m : Moment Kdesud Event) : Prop :=
  ∃ uid uninitialised, acted m = .accept fd uid uninitialised

def Reaped (pid : Pid) (m : Moment Kdesud Event) : Prop :=
  ∃ status, acted m = .reap pid status

/-- The present connection of the descriptor started the child, which still runs. -/
def Runs (fd : Nat) (pid : Pid) (past : List (Moment Kdesud Event)) : Prop :=
  Since (fun m => startedChild fd m = some pid) (fun m => AcceptedOn fd m ∨ Reaped pid m) past

/-- The present connection of the descriptor started a child that exited with this status. -/
def Exited (fd : Nat) (pid : Pid) (status : Nat) (past : List (Moment Kdesud Event)) : Prop :=
  SinceAt (fun pre m => acted m = .reap pid status ∧ Runs fd pid pre) (AcceptedOn fd) past

/-- What routes an exit code to its session, in a state and its history. -/
structure Routed (past : List (Moment Kdesud Event)) (d : Kdesud) : Prop where
  distinct : ∀ fd fd' h h', d.handlerAt fd = some h → d.handlerAt fd' = some h' →
    h.m_pid ≠ 0 → h.m_pid = h'.m_pid → fd = fd'
  running : ∀ fd h, d.handlerAt fd = some h → h.m_pid ≠ 0 →
    ∃ pid : Pid, h.m_pid = pid.1 ∧ pid ∈ d.children ∧ Runs fd pid past
  stored : ∀ fd h, d.handlerAt fd = some h → h.m_hasExitCode = true →
    ∃ pid status, h.m_exitCode = WEXITSTATUS status ∧ Exited fd pid status past

theorem Routed.waiting {past : List (Moment Kdesud Event)} {d : Kdesud} (routed : Routed past d)
    {fd : Nat} {h : ConnectionHandler} (live : d.handlerAt fd = some h) {pid : Pid}
    (waits : h.m_pid = pid.1) : d.waiting pid = some fd := by
  cases found : d.waiting pid with
  | none => exact absurd waits (waiting_eq_none found live)
  | some j =>
    obtain ⟨h', live', waits'⟩ := waiting_eq_some found
    have positive : h.m_pid ≠ 0 := by
      rw [waits]
      exact Nat.ne_of_gt pid.2
    rw [routed.distinct fd j h h' live live' positive (waits.trans waits'.symm)]

theorem handlerOf_pid (sys : SysCalls) (h : ConnectionHandler) (repo : Repository)
    (request : Request) :
    (handlerOf h (perform sys h repo request).child request).m_pid =
      ((perform sys h repo request).child.map (fun c => c.pid.1)).getD h.m_pid := by
  cases started : (perform sys h repo request).child with
  | some c =>
    obtain ⟨command, user, options, env, rfl⟩ := perform_child sys h repo started
    rfl
  | none => cases request <;> rfl

theorem handlerOf_exitCode (h : ConnectionHandler) (child : Option Child)
    (request : Request) :
    (handlerOf h child request).m_hasExitCode = h.m_hasExitCode ∧
      (handlerOf h child request).m_exitCode = h.m_exitCode := by
  cases request
  case exec => cases child <;> exact ⟨rfl, rfl⟩
  all_goals exact ⟨rfl, rfl⟩

/-- What a nonzero `m_pid` can be after a step: what it was, of a child that the step does
not touch, or the pid of a new child. -/
private theorem pid_origin {past : List (Moment Kdesud Event)} {d : Kdesud} {ev : Event}
    (routed : Routed past d) {fd : Nat} {h' : ConnectionHandler}
    (live : (step d ev).1.handlerAt fd = some h') (busy : h'.m_pid ≠ 0) :
    (∃ h, d.handlerAt fd = some h ∧ h.m_pid = h'.m_pid ∧ ¬AcceptedOn fd ⟨d, ev⟩ ∧
      ∀ pid : Pid, h.m_pid = pid.1 → ¬Reaped pid ⟨d, ev⟩) ∨
    ∃ pid : Pid, h'.m_pid = pid.1 ∧ startedChild fd ⟨d, ev⟩ = some pid := by
  have origin := handler_origin live
  simp only [AcceptedOn, Reaped, startedChild, acted]
  generalize action d ev = a at origin ⊢
  cases origin with
  | kept live accepted performed reaped =>
    refine Or.inl ⟨h', live, rfl, ?_, ?_⟩
    · rintro ⟨uid, uninitialised, rfl⟩
      exact accepted uid uninitialised rfl
    · rintro pid waits ⟨status, rfl⟩
      exact reaped pid status rfl (routed.waiting live waits)
  | accepted uid uninitialised new => exact absurd (by rw [new]; rfl) busy
  | performed h sys request live after =>
    have pid := handlerOf_pid sys h d.repo request
    rw [← after] at pid
    cases started : (perform sys h d.repo request).child with
    | none =>
      rw [started] at pid
      exact Or.inl ⟨h, live, pid.symm, by simp, by simp⟩
    | some c =>
      rw [started] at pid
      exact Or.inr ⟨c.pid, pid, by simp [started]⟩
  | reaped h pid status live waits after => exact absurd (by rw [after]; rfl) busy

private theorem startedChild_unique {fd fd' : Nat} {m : Moment Kdesud Event} {pid pid' : Pid}
    (started : startedChild fd m = some pid) (started' : startedChild fd' m = some pid') :
    fd = fd' := by
  simp only [startedChild] at started started'
  generalize acted m = a at started started'
  cases a with
  | perform j h sys request =>
    simp only at started started'
    split_ifs at started started' with here here'
    exact here.symm.trans here'
  | _ => cases started

private theorem startedChild_fresh {m : Moment Kdesud Event} (fresh : forksFresh m = true)
    {fd : Nat} {pid : Pid} (started : startedChild fd m = some pid) :
    pid ∉ m.before.children := by
  simp only [forksFresh, startedChild] at fresh started
  cases performed : acted m with
  | perform j h sys request =>
    simp only [performed] at fresh started
    split_ifs at started with here
    simp only [if_true, decide_eq_true_eq] at fresh
    exact fresh pid started
  | _ => simp [performed] at started

private theorem running_kept {d : Kdesud} {ev : Event} {pid : Pid} (runs : pid ∈ d.children)
    (unreaped : ¬Reaped pid ⟨d, ev⟩) : pid ∈ (step d ev).1.children := by
  simp only [Reaped, acted] at unreaped
  rw [children_step]
  cases performed : action d ev with
  | reap pid' status =>
    refine List.mem_filter.mpr ⟨runs, ?_⟩
    have other : pid ≠ pid' := by
      rintro rfl
      exact unreaped ⟨status, performed⟩
    simpa using other
  | perform => exact List.mem_append_left _ runs
  | _ => exact runs

private theorem running_started {d : Kdesud} {ev : Event} {fd : Nat} {pid : Pid}
    (started : startedChild fd ⟨d, ev⟩ = some pid) : pid ∈ (step d ev).1.children := by
  simp only [startedChild, acted] at started
  rw [children_step]
  cases performed : action d ev with
  | perform j h sys request =>
    simp only [performed] at started
    split_ifs at started
    exact List.mem_append_right _ (by simp [started])
  | _ => simp [performed] at started

private theorem pid_apart {past : List (Moment Kdesud Event)} {d : Kdesud} {ev : Event}
    (routed : Routed past d) (fresh : forksFresh ⟨d, ev⟩ = true) {fd fd' : Nat}
    {h : ConnectionHandler} (live : d.handlerAt fd = some h) (busy : h.m_pid ≠ 0) {pid : Pid}
    (started : startedChild fd' ⟨d, ev⟩ = some pid) : h.m_pid ≠ pid.1 := by
  intro same
  obtain ⟨pid', equal, runs, -⟩ := routed.running fd h live busy
  have clash : pid' = pid := Subtype.ext (equal.symm.trans same)
  exact absurd (clash ▸ runs) (startedChild_fresh fresh started)

section

variable {past : List (Moment Kdesud Event)} {d : Kdesud} {ev : Event} (routed : Routed past d)

include routed

private theorem distinct_step (fresh : forksFresh ⟨d, ev⟩ = true) {fd fd' : Nat}
    {h h' : ConnectionHandler} (live : (step d ev).1.handlerAt fd = some h)
    (live' : (step d ev).1.handlerAt fd' = some h') (busy : h.m_pid ≠ 0)
    (same : h.m_pid = h'.m_pid) : fd = fd' := by
  have busy' : h'.m_pid ≠ 0 := same ▸ busy
  rcases pid_origin routed live busy with ⟨old, before, kept, -, -⟩ | ⟨pid, new, started⟩
  · have held : old.m_pid ≠ 0 := kept ▸ busy
    rcases pid_origin routed live' busy' with ⟨old', before', kept', -, -⟩ | ⟨pid, new, started⟩
    · exact routed.distinct fd fd' old old' before before' held
        (kept.trans (same.trans kept'.symm))
    · exact absurd (kept.trans (same.trans new)) (pid_apart routed fresh before held started)
  · rcases pid_origin routed live' busy' with ⟨old', before', kept', -, -⟩ | ⟨pid', -, started'⟩
    · have held : old'.m_pid ≠ 0 := kept' ▸ busy'
      exact absurd (kept'.trans (same.symm.trans new))
        (pid_apart routed fresh before' held started)
    · exact startedChild_unique started started'

private theorem runs_step {fd : Nat} {h : ConnectionHandler}
    (live : (step d ev).1.handlerAt fd = some h) (busy : h.m_pid ≠ 0) :
    ∃ pid : Pid, h.m_pid = pid.1 ∧ pid ∈ (step d ev).1.children ∧
      Runs fd pid (past ++ [⟨d, ev⟩]) := by
  rcases pid_origin routed live busy with ⟨old, before, kept, apart, unreaped⟩ |
    ⟨pid, new, started⟩
  · obtain ⟨pid, equal, runs, since⟩ := routed.running fd old before (kept ▸ busy)
    refine ⟨pid, kept ▸ equal, running_kept runs (unreaped pid equal), ?_⟩
    rw [Runs, since_snoc, ← Runs]
    exact Or.inr ⟨since, fun ends => ends.elim apart (unreaped pid equal)⟩
  · refine ⟨pid, new, running_started started, ?_⟩
    rw [Runs, since_snoc]
    exact Or.inl started

private theorem code_step {fd : Nat} {h' : ConnectionHandler}
    (live : (step d ev).1.handlerAt fd = some h') (exited : h'.m_hasExitCode = true) :
    ∃ pid status, h'.m_exitCode = WEXITSTATUS status ∧
      Exited fd pid status (past ++ [⟨d, ev⟩]) := by
  simp only [Exited, sinceAt_snoc]
  have origin := handler_origin live
  generalize performed : action d ev = a at origin
  cases origin with
  | kept before accepted _ _ =>
    obtain ⟨pid, status, code, since⟩ := routed.stored fd h' before exited
    refine ⟨pid, status, code, Or.inr ⟨since, ?_⟩⟩
    rintro ⟨uid, uninitialised, new⟩
    exact accepted uid uninitialised (performed.symm.trans new)
  | accepted uid uninitialised new =>
    rw [new] at exited
    cases exited
  | performed h sys request before after =>
    obtain ⟨has, value⟩ := handlerOf_exitCode h (perform sys h d.repo request).child request
    rw [after, has] at exited
    obtain ⟨pid, status, code, since⟩ := routed.stored fd h before exited
    refine ⟨pid, status, by rw [after, value, code], Or.inr ⟨since, ?_⟩⟩
    rintro ⟨uid, uninitialised, new⟩
    cases performed.symm.trans new
  | reaped h pid status before waits after =>
    obtain ⟨same, here, equal⟩ := waiting_eq_some waits
    obtain rfl : same = h := Option.some.inj (here.symm.trans before)
    obtain ⟨pid', equal', -, runs⟩ := routed.running fd same before
      (by rw [equal]; exact Nat.ne_of_gt pid.2)
    obtain rfl : pid' = pid := Subtype.ext (equal'.symm.trans equal)
    exact ⟨pid', status, by rw [after]; rfl, Or.inl ⟨performed, runs⟩⟩

private theorem routed_step (fresh : forksFresh ⟨d, ev⟩ = true) :
    Routed (past ++ [⟨d, ev⟩]) (step d ev).1 where
  distinct _ _ _ _ live live' busy same := distinct_step routed fresh live live' busy same
  running _ _ live busy := runs_step routed live busy
  stored _ _ live exited := code_step routed live exited

end

theorem routed_run (fds : Descriptors) (es : List Event)
    (fresh : ∀ m ∈ Kdesud.past fds es, forksFresh m = true) :
    Routed (Kdesud.past fds es) (Kdesud.after fds es) := by
  refine run_induction_under (P := Routed) ⟨?_, ?_, ?_⟩ ?_ es fresh
  · intro fd fd' h h' live
    cases live
  · intro fd h live
    cases live
  · intro fd h live
    cases live
  · intro past d ev routed new
    exact routed_step routed new

private theorem sent_of_routed {past : List (Moment Kdesud Event)} {d : Kdesud} {ev : Event}
    (routed : Routed past d) {fd : Nat} {code : Int}
    (sent : (fd, .exitCode code) ∈ (step d ev).2) :
    ∃ pid status, code = WEXITSTATUS status ∧ Exited fd pid status (past ++ [⟨d, ev⟩]) := by
  simp only [Exited, sinceAt_snoc]
  have origin := exitCode_origin sent
  generalize performed : action d ev = a at origin
  cases origin with
  | asked h sys live exited stored =>
    obtain ⟨pid, status, value, since⟩ := routed.stored fd h live exited
    refine ⟨pid, status, stored.trans value, Or.inr ⟨since, ?_⟩⟩
    rintro ⟨uid, uninitialised, new⟩
    cases performed.symm.trans new
  | reaped h pid status live waits value =>
    obtain ⟨same, here, equal⟩ := waiting_eq_some waits
    obtain rfl : same = h := Option.some.inj (here.symm.trans live)
    obtain ⟨pid', equal', -, runs⟩ := routed.running fd same live
      (by rw [equal]; exact Nat.ne_of_gt pid.2)
    obtain rfl : pid' = pid := Subtype.ext (equal'.symm.trans equal)
    exact ⟨pid', status, value, Or.inl ⟨performed, runs⟩⟩

/-- The pids that handlers wait for are distinct and of running children that each handler's
own connection started, and an exit code is stored in and sent to no other handler. -/
theorem exit_statuses_routed (fds : Descriptors) (es : List Event) (ev : Event)
    (fresh : ∀ m ∈ Kdesud.past fds (es ++ [ev]), forksFresh m = true) :
    Routed (Kdesud.past fds (es ++ [ev])) (Kdesud.after fds (es ++ [ev])) ∧
      ∀ fd code, (fd, .exitCode code) ∈ (step (Kdesud.after fds es) ev).2 →
        ∃ pid status, code = WEXITSTATUS status ∧
          Exited fd pid status (Kdesud.past fds (es ++ [ev])) := by
  refine ⟨routed_run fds (es ++ [ev]) fresh, fun fd code sent => ?_⟩
  rw [Kdesud.past, history_snoc] at fresh ⊢
  have earlier := routed_run fds es (fun m member => fresh m (List.mem_append_left _ member))
  exact sent_of_routed earlier sent

def twoChildren : List Event :=
  [.accept 6 1000 0, .accept 7 1000 0, .command 6 (ascii "PASS pw 60\n") ⟨1000, 100, 100, none⟩,
    .command 6 (ascii "EXEC ls root\n") ⟨1000, 101, 101, some 77⟩, .hangup 6,
    .accept 6 1000 0,
    .command 6 (ascii "EXEC ls root\n") ⟨1000, 102, 102, some 78⟩,
    .command 6 (ascii "EXIT\n") ⟨1000, 103, 103, none⟩, .reap 77 256]

theorem exit_statuses_routed_twoChildren : ∃ pid status, 3 = WEXITSTATUS status ∧
    Exited 6 pid status
      (Kdesud.past .lowest (twoChildren ++ [.reap 78 768])) :=
  (exit_statuses_routed .lowest twoChildren (.reap 78 768)
    (by decide +kernel)).2 6 3 (by decide +kernel)

/-- A connection's children in the order of their start, each with its exit code once it has
one; for each EXIT the number of children started before it; and the exit codes sent. -/
structure Ledger where
  started : List (Pid × Option Int)
  asked : List Nat
  answered : List Int

namespace Ledger

def empty : Ledger := ⟨[], [], []⟩

def requested (L : Ledger) (child : Option Child) (request : Request) : Ledger :=
  { L with
    started := L.started ++ (child.map fun c => (c.pid, none)).toList
    asked := if request = .exit then L.asked ++ [L.started.length] else L.asked }

def exited (L : Ledger) (pid : Pid) (code : Int) : Ledger :=
  { L with started := L.started.map fun c => if c = (pid, none) then (pid, some code) else c }

/-- Every exit code sent answers an EXIT, the first the first and so on, with the code of the
last child that had been started when the EXIT arrived. -/
def Matched (L : Ledger) : Prop :=
  L.answered.length ≤ L.asked.length ∧
    ∀ (i : Nat) (code : Int), L.answered[i]? = some code →
      ∃ (n : Nat) (pid : Pid),
        L.asked[i]? = some (n + 1) ∧ L.started[n]? = some (pid, some code)

end Ledger

def codeOf : Reply → Option Int
  | .exitCode code => some code
  | .respond .. => none

def exitCodesTo (fd : Nat) (replies : List (Nat × Reply)) : List Int :=
  replies.filterMap fun reply => if reply.1 = fd then codeOf reply.2 else none

def record (fd : Nat) (L : Ledger) (m : Moment Kdesud Event) : Ledger :=
  let L := match acted m with
    | .accept fd' _ _ => if fd' = fd then Ledger.empty else L
    | .perform fd' h sys request =>
        if fd' = fd then L.requested (perform sys h m.before.repo request).child request else L
    | .reap pid status => L.exited pid (WEXITSTATUS status)
    | _ => L
  { L with answered := L.answered ++ exitCodesTo fd (step m.before m.event).2 }

def ledger (fd : Nat) (past : List (Moment Kdesud Event)) : Ledger :=
  past.foldl (record fd) .empty

theorem ledger_snoc (fd : Nat) (past : List (Moment Kdesud Event)) (m : Moment Kdesud Event) :
    ledger fd (past ++ [m]) = record fd (ledger fd past) m := by
  simp only [ledger, List.foldl_append, List.foldl_cons, List.foldl_nil]

def startsChild (sys : SysCalls) (h : ConnectionHandler) (repo : Repository) : Request → Bool
  | .exec command user _ env =>
      sys.fork.isSome && ((cachedPass h repo command user (envCheck env)).isSome || h.m_Pass.isSome)
  | _ => false

/-- The condition on a request: no child is started after an EXIT, and no EXIT arrives while
the session has an old exit code and runs a new child. -/
def steady (m : Moment Kdesud Event) : Bool :=
  match acted m with
  | .perform _ h sys request =>
      (h.m_needExitCode = true → startsChild sys h m.before.repo request = false) ∧
        (request = .exit → h.m_hasExitCode = true → h.m_pid = 0)
  | _ => true

/-- What the fields of a live handler say of its ledger, while the requests are steady. -/
structure Tracks (L : Ledger) (h : ConnectionHandler) : Prop where
  pending : h.m_pid ≠ 0 → ∃ before pid, L.started = before ++ [(pid, none)] ∧ pid.1 = h.m_pid
  settled : h.m_pid = 0 → ∀ before c, L.started = before ++ [c] → c.2 = some h.m_exitCode
  idle : L.started = [] → h.m_hasExitCode = false
  needed : h.m_needExitCode = true ↔ L.asked ≠ []
  latest : ∀ n ∈ L.asked, n = L.started.length
  bounded : L.answered.length ≤ L.asked.length
  answers : ∀ code ∈ L.answered,
    code = h.m_exitCode ∧ h.m_pid = 0 ∧ h.m_hasExitCode = true

theorem Tracks.matched {L : Ledger} {h : ConnectionHandler} (tracks : Tracks L h) :
    L.Matched := by
  refine ⟨tracks.bounded, fun i code at_i => ?_⟩
  obtain ⟨inside, equal⟩ := List.getElem?_eq_some_iff.mp at_i
  obtain ⟨value, done, has⟩ := tracks.answers code (equal ▸ List.getElem_mem inside)
  have asked : i < L.asked.length := lt_of_lt_of_le inside tracks.bounded
  rcases List.eq_nil_or_concat' L.started with none_started | ⟨before, c, started⟩
  · have idle := tracks.idle none_started
    rw [has] at idle
    cases idle
  · have exit_code := tracks.settled done before c started
    refine ⟨before.length, c.1, ?_, ?_⟩
    · have latest := tracks.latest _ (List.getElem_mem asked)
      rw [List.getElem?_eq_getElem asked, latest, started]
      simp
    · rw [started, List.getElem?_append_right (Nat.le_refl _), Nat.sub_self, value, ← exit_code]
      rfl

private theorem exitCodesTo_map (fd fd' : Nat) (sent : List Reply) :
    exitCodesTo fd (sent.map (fd', ·)) = if fd' = fd then sent.filterMap codeOf else [] := by
  simp only [exitCodesTo, List.filterMap_map, Function.comp_def]
  split_ifs
  · rfl
  · exact List.filterMap_none sent

private theorem perform_codes (sys : SysCalls) (h : ConnectionHandler) (repo : Repository)
    (request : Request) :
    (perform sys h repo request).sent.filterMap codeOf =
      if request = .exit ∧ h.m_hasExitCode = true then [h.m_exitCode] else [] := by
  rcases perform_sent sys h repo request with ⟨rfl, replies⟩ | ⟨other, ok, s, replies⟩
  · rw [replies]
    cases h.m_hasExitCode <;> rfl
  · rw [replies, if_neg fun exit => other exit.1]
    rfl

private theorem drop_codes {d : Kdesud} {ev : Event} {fd : Nat} {sent : List Reply}
    (dropped : action d ev = .drop fd sent) : sent.filterMap codeOf = [] := by
  apply List.filterMap_eq_nil_iff.mpr
  intro reply member
  cases reply with
  | respond => rfl
  | exitCode code => exact absurd member (of_drop dropped code)

private theorem record_kept {d : Kdesud} {ev : Event} {fd : Nat} (L : Ledger)
    (accepted : ∀ uid uninitialised, action d ev ≠ .accept fd uid uninitialised)
    (performed : ∀ h sys request, action d ev ≠ .perform fd h sys request)
    (reaped : ∀ pid status, action d ev = .reap pid status → d.waiting pid ≠ some fd) :
    record fd L ⟨d, ev⟩ =
      match action d ev with
      | .reap pid status => L.exited pid (WEXITSTATUS status)
      | _ => L := by
  simp only [record, replies_step, acted]
  cases acts : action d ev with
  | idle | expire => simp [repliesOf, exitCodesTo]
  | accept fd' uid uninitialised =>
    have other : fd' ≠ fd := by
      rintro rfl
      exact accepted uid uninitialised acts
    simp [repliesOf, exitCodesTo, other]
  | drop fd' sent =>
    simp only [repliesOf, exitCodesTo_map, drop_codes acts]
    split_ifs <;> simp
  | perform fd' h sys request =>
    have other : fd' ≠ fd := by
      rintro rfl
      exact performed h sys request acts
    simp [repliesOf, exitCodesTo_map, other]
  | reap pid status =>
    have unheard := reaped pid status acts
    simp only [repliesOf]
    cases waits : d.waiting pid with
    | none => simp [exitCodesTo]
    | some j =>
      have other : j ≠ fd := by
        rintro rfl
        exact unheard waits
      obtain ⟨h, live, -⟩ := waiting_eq_some waits
      simp [live, exitCodesTo_map, other]

private theorem record_performed {d : Kdesud} {ev : Event} {fd : Nat} (L : Ledger)
    {h : ConnectionHandler} {sys : SysCalls} {request : Request}
    (performed : action d ev = .perform fd h sys request) :
    record fd L ⟨d, ev⟩ =
      { L.requested (perform sys h d.repo request).child request with
        answered := L.answered ++
          if request = .exit ∧ h.m_hasExitCode = true then [h.m_exitCode] else [] } := by
  simp only [record, replies_step, acted, performed, repliesOf, exitCodesTo_map, if_true,
    perform_codes]
  rfl

private theorem record_reaped {d : Kdesud} {ev : Event} {fd : Nat} (L : Ledger)
    {h : ConnectionHandler} {pid : Pid} {status : Nat} (acts : action d ev = .reap pid status)
    (waits : d.waiting pid = some fd) (live : d.handlerAt fd = some h) :
    record fd L ⟨d, ev⟩ =
      { L.exited pid (WEXITSTATUS status) with
        answered := L.answered ++
          if h.m_needExitCode = true then [WEXITSTATUS status] else [] } := by
  have codes : (sendExitCode (reaped h status)).filterMap codeOf =
      if h.m_needExitCode = true then [WEXITSTATUS status] else [] := by
    have same : (reaped h status).m_needExitCode = h.m_needExitCode := rfl
    rw [sendExitCode, same]
    split_ifs <;> rfl
  simp only [record, replies_step, acted, acts, repliesOf, waits, live, exitCodesTo_map, if_true,
    codes]
  rfl

namespace Ledger

theorem Matched.exited {L : Ledger} (matched : L.Matched) (pid : Pid) (code : Int) :
    (L.exited pid code).Matched := by
  refine ⟨matched.1, fun i code' at_i => ?_⟩
  obtain ⟨n, pid', asked, started⟩ := matched.2 i code' at_i
  refine ⟨n, pid', asked, ?_⟩
  simp [Ledger.exited, started]

end Ledger

private theorem Tracks.exited {L : Ledger} {h : ConnectionHandler} (tracks : Tracks L h)
    {pid : Pid} (other : h.m_pid ≠ pid.1) (code : Int) : Tracks (L.exited pid code) h where
  pending := by
    intro busy
    obtain ⟨before, pid', started, equal⟩ := tracks.pending busy
    have different : pid' ≠ pid := by
      rintro rfl
      exact other equal.symm
    exact ⟨before.map fun c => if c = (pid, none) then (pid, some code) else c, pid',
      by simp [Ledger.exited, started, different], equal⟩
  settled := by
    intro done before c started
    rcases List.eq_nil_or_concat' L.started with none_started | ⟨front, last, last_started⟩
    · simp [Ledger.exited, none_started] at started
    · have exit_code := tracks.settled done front last last_started
      have unchanged : last ≠ (pid, none) := by
        rintro rfl
        cases exit_code
      simp only [Ledger.exited, last_started, List.map_append, List.map_cons, List.map_nil,
        if_neg unchanged] at started
      obtain ⟨-, same⟩ := List.append_inj' started rfl
      rw [← List.singleton_inj.mp same, exit_code]
  idle := by
    intro none_started
    exact tracks.idle (List.map_eq_nil_iff.mp none_started)
  needed := tracks.needed
  latest := by
    intro n member
    rw [tracks.latest n member]
    exact (List.length_map _).symm
  bounded := tracks.bounded
  answers := tracks.answers

private theorem startsChild_of_child {sys : SysCalls} {h : ConnectionHandler}
    {repo : Repository} {request : Request} {c : Child}
    (started : (perform sys h repo request).child = some c) :
    startsChild sys h repo request = true := by
  obtain ⟨command, user, options, env, rfl⟩ := perform_child sys h repo started
  simp only [perform, execCommand, launch] at started
  simp only [startsChild]
  cases forked : sys.fork with
  | none =>
    simp only [forked] at started
    split at started
    · cases started
    · split at started <;> cases started
  | some pid =>
    cases cached : cachedPass h repo command user (envCheck env) with
    | some pass => rfl
    | none =>
      cases pass : h.m_Pass with
      | some pass => rfl
      | none =>
        simp only [cached, pass] at started
        cases started

private theorem Tracks.start {L : Ledger} {h : ConnectionHandler} (tracks : Tracks L h)
    (unneeded : h.m_needExitCode = false) (pid : Pid) :
    Tracks { L with started := L.started ++ [(pid, none)] } { h with m_pid := pid.1 } := by
  have asked : L.asked = [] := by
    by_contra requests
    rw [tracks.needed.mpr requests] at unneeded
    cases unneeded
  have answered : L.answered = [] := by
    have bounded := tracks.bounded
    rw [asked, List.length_nil] at bounded
    exact List.length_eq_zero_iff.mp (Nat.le_zero.mp bounded)
  constructor
  case pending => exact fun _ => ⟨L.started, pid, rfl, rfl⟩
  case settled => exact fun done => absurd done (Nat.ne_of_gt pid.2)
  case idle => exact fun none_started => absurd none_started (by simp)
  case needed => exact tracks.needed
  case latest => simp [asked]
  case bounded => exact tracks.bounded
  case answers => simp [answered]

private theorem Tracks.ask {L : Ledger} {h : ConnectionHandler} (tracks : Tracks L h)
    (current : h.m_hasExitCode = true → h.m_pid = 0) :
    Tracks
      { L with
        asked := L.asked ++ [L.started.length]
        answered := L.answered ++ if h.m_hasExitCode = true then [h.m_exitCode] else [] }
      { h with m_needExitCode := true } := by
  constructor
  case pending => exact tracks.pending
  case settled => exact tracks.settled
  case idle => exact tracks.idle
  case needed => simp
  case latest =>
    intro n member
    rcases List.mem_append.mp member with old | new
    · exact tracks.latest n old
    · exact List.mem_singleton.mp new
  case bounded =>
    have bounded := tracks.bounded
    simp only [List.length_append, List.length_singleton]
    split_ifs <;> simp only [List.length_singleton, List.length_nil] <;> omega
  case answers =>
    intro code member
    rcases List.mem_append.mp member with old | new
    · exact tracks.answers code old
    · split_ifs at new with has
      · exact ⟨List.mem_singleton.mp new, current has, has⟩
      · cases new

private theorem Tracks.requested {L : Ledger} {h : ConnectionHandler} (tracks : Tracks L h)
    (sys : SysCalls) (repo : Repository) (request : Request)
    (unneeded : h.m_needExitCode = true → startsChild sys h repo request = false)
    (current : request = .exit → h.m_hasExitCode = true → h.m_pid = 0) :
    Tracks
      { L.requested (perform sys h repo request).child request with
        answered := L.answered ++
          if request = .exit ∧ h.m_hasExitCode = true then [h.m_exitCode] else [] }
      (handlerOf h (perform sys h repo request).child request) := by
  cases started : (perform sys h repo request).child with
  | some c =>
    have starts := startsChild_of_child started
    obtain ⟨command, user, options, env, rfl⟩ := perform_child sys h repo started
    have unasked : h.m_needExitCode = false := by
      by_contra needed
      rw [unneeded (by simpa using needed)] at starts
      cases starts
    simpa [Ledger.requested, handlerOf] using tracks.start unasked c.pid
  | none =>
    cases request with
    | exit => simpa [Ledger.requested, handlerOf] using tracks.ask (current rfl)
    | _ =>
      simp only [Ledger.requested, reduceCtorEq, false_and, if_false, Option.map_none,
        Option.toList_none, List.append_nil]
      exact ⟨tracks.pending, tracks.settled, tracks.idle, tracks.needed, tracks.latest,
        tracks.bounded, tracks.answers⟩

private theorem Tracks.reap {L : Ledger} {h : ConnectionHandler} (tracks : Tracks L h)
    {pid : Pid} (waits : h.m_pid = pid.1) (status : Nat) :
    Tracks
      { L.exited pid (WEXITSTATUS status) with
        answered := L.answered ++
          if h.m_needExitCode = true then [WEXITSTATUS status] else [] }
      (reaped h status) := by
  have busy : h.m_pid ≠ 0 := by
    rw [waits]
    exact Nat.ne_of_gt pid.2
  obtain ⟨before, pid', started, equal⟩ := tracks.pending busy
  obtain rfl : pid' = pid := Subtype.ext (equal.trans waits)
  have answered : L.answered = [] := by
    apply List.eq_nil_iff_forall_not_mem.mpr
    intro code member
    exact busy (tracks.answers code member).2.1
  constructor
  case pending => exact fun running => absurd rfl running
  case settled =>
    intro _ front c after
    simp only [Ledger.exited, started, List.map_append, List.map_cons, List.map_nil,
      if_true] at after
    obtain ⟨-, same⟩ := List.append_inj' after rfl
    rw [← List.singleton_inj.mp same]
    rfl
  case idle => simp [Ledger.exited, started]
  case needed => exact tracks.needed
  case latest =>
    intro n member
    rw [tracks.latest n member]
    exact (List.length_map _).symm
  case bounded =>
    rw [answered, List.nil_append]
    split_ifs with needed
    · exact List.length_pos_iff.mpr (tracks.needed.mp needed)
    · exact Nat.zero_le _
  case answers =>
    intro code member
    rw [answered, List.nil_append] at member
    split_ifs at member
    · exact ⟨List.mem_singleton.mp member, rfl, rfl⟩
    · cases member

private theorem Tracks.new (fd : Nat) (uid uninitialised : Int) :
    Tracks .empty (.new fd uid uninitialised) where
  pending := fun running => absurd rfl running
  settled := by simp [Ledger.empty]
  idle := fun _ => rfl
  needed := by simp [Ledger.empty, ConnectionHandler.new]
  latest := by simp [Ledger.empty]
  bounded := Nat.le_refl 0
  answers := by simp [Ledger.empty]

private theorem tracks_step {past : List (Moment Kdesud Event)} {d : Kdesud} {ev : Event}
    (routed : Routed past d) (regular : steady ⟨d, ev⟩ = true) {fd : Nat} {L : Ledger}
    (tracks : ∀ h, d.handlerAt fd = some h → Tracks L h) {h' : ConnectionHandler}
    (live : (step d ev).1.handlerAt fd = some h') : Tracks (record fd L ⟨d, ev⟩) h' := by
  have origin := handler_origin live
  generalize acts : action d ev = a at origin
  cases origin with
  | kept before accepted performed reaped =>
    rw [record_kept L (acts ▸ accepted) (acts ▸ performed) (acts ▸ reaped), acts]
    cases a with
    | reap pid status =>
      refine (tracks h' before).exited ?_ _
      intro waits
      exact reaped pid status rfl (routed.waiting before waits)
    | _ => exact tracks h' before
  | accepted uid uninitialised new =>
    have fresh : record fd L ⟨d, ev⟩ = .empty := by
      simp [record, replies_step, acted, acts, repliesOf, exitCodesTo, Ledger.empty]
    rw [fresh, new]
    exact .new fd uid uninitialised
  | performed h sys request before after =>
    simp only [steady, acted, acts, decide_eq_true_eq] at regular
    rw [record_performed L acts, after]
    exact (tracks h before).requested sys d.repo request regular.1 regular.2
  | reaped h pid status before waits after =>
    obtain ⟨same, here, equal⟩ := waiting_eq_some waits
    obtain rfl : same = h := Option.some.inj (here.symm.trans before)
    rw [record_reaped L acts waits before, after]
    exact (tracks same before).reap equal status

private theorem ledger_step {past : List (Moment Kdesud Event)} {d : Kdesud} {ev : Event}
    (routed : Routed past d) (regular : steady ⟨d, ev⟩ = true) {fd : Nat} {L : Ledger}
    (matched : L.Matched) (tracks : ∀ h, d.handlerAt fd = some h → Tracks L h) :
    (record fd L ⟨d, ev⟩).Matched ∧
      ∀ h, (step d ev).1.handlerAt fd = some h → Tracks (record fd L ⟨d, ev⟩) h := by
  refine ⟨?_, fun h live => tracks_step routed regular tracks live⟩
  cases live : (step d ev).1.handlerAt fd with
  | some h => exact (tracks_step routed regular tracks live).matched
  | none =>
    -- no action on the descriptor but its closing leaves it without a handler
    rw [handlerAt_step] at live
    rw [record_kept L]
    case accepted =>
      intro uid uninitialised acts
      simp [acts, handlerAfter] at live
    case performed =>
      intro h sys request acts
      simp [acts, handlerAfter] at live
    case reaped =>
      intro pid status acts waits
      obtain ⟨h, before, -⟩ := waiting_eq_some waits
      simp [acts, handlerAfter, waits, before] at live
    split
    · exact matched.exited _ _
    · exact matched

private theorem ledger_run (fds : Descriptors) (es : List Event)
    (regular : ∀ m ∈ Kdesud.past fds es, forksFresh m = true ∧ steady m = true) (fd : Nat) :
    Routed (Kdesud.past fds es) (Kdesud.after fds es) ∧
      (ledger fd (Kdesud.past fds es)).Matched ∧
      ∀ h, (Kdesud.after fds es).handlerAt fd = some h →
        Tracks (ledger fd (Kdesud.past fds es)) h := by
  refine run_induction_under
    (P := fun past d => Routed past d ∧ (ledger fd past).Matched ∧
      ∀ h, d.handlerAt fd = some h → Tracks (ledger fd past) h) ⟨?_, ?_, ?_⟩ ?_ es regular
  · exact routed_run fds [] (by simp [history])
  · exact ⟨Nat.le_refl 0, by simp [ledger, Ledger.empty]⟩
  · intro h live
    cases live
  · rintro past d ev ⟨routed, matched, tracks⟩ ⟨fresh, constant⟩
    rw [ledger_snoc]
    exact ⟨routed_step routed fresh, ledger_step routed constant matched tracks⟩

/-- In every run in which no child is started on a connection that has sent EXIT, and no EXIT
finds an old exit code beside a running child, every exit code answers its EXIT. -/
theorem exit_codes_matched (fds : Descriptors) (es : List Event)
    (fresh : ∀ m ∈ Kdesud.past fds es, forksFresh m = true)
    (regular : ∀ m ∈ Kdesud.past fds es, steady m = true) (fd : Nat) :
    (ledger fd (Kdesud.past fds es)).Matched :=
  (ledger_run fds es (fun m member => ⟨fresh m member, regular m member⟩) fd).2.1

def steadySession : List Event :=
  [.accept 6 1000 0, .command 6 (ascii "PASS pw 60\n") ⟨1000, 100, 100, none⟩,
    .command 6 (ascii "EXEC ls root\n") ⟨1000, 101, 101, some 77⟩,
    .reap 77 256,
    .command 6 (ascii "EXEC ls root\n") ⟨1000, 102, 102, some 78⟩,
    .command 6 (ascii "PING\n") ⟨1000, 103, 103, none⟩, .reap 78 768,
    .command 6 (ascii "EXIT\n") ⟨1000, 104, 104, none⟩,
    .command 6 (ascii "EXIT\n") ⟨1000, 105, 105, none⟩]

theorem exit_codes_matched_steadySession :
    (ledger 6 (Kdesud.past .lowest steadySession)).answered = [3, 3] ∧
      (ledger 6 (Kdesud.past .lowest steadySession)).Matched :=
  ⟨by decide +kernel,
    exit_codes_matched .lowest steadySession (by decide +kernel) (by decide +kernel) 6⟩

def exitOfFirst : List Event :=
  [.accept 6 1000 0, .command 6 (ascii "PASS pw 60\n") ⟨1000, 100, 100, none⟩,
    .command 6 (ascii "EXEC ls root\n") ⟨1000, 101, 101, some 77⟩,
    .command 6 (ascii "EXIT\n") ⟨1000, 102, 102, none⟩, .reap 77 256,
    .command 6 (ascii "EXEC ls root\n") ⟨1000, 103, 103, some 78⟩,
    .reap 78 768]

/-- The exit code of the second command is sent though nobody asked for it. -/
theorem exit_code_sent_unasked : ¬∀ (fds : Descriptors) (es : List Event),
    (∀ m ∈ Kdesud.past fds es, forksFresh m = true) →
      ∀ fd, (ledger fd (Kdesud.past fds es)).Matched := by
  intro always
  have matched := always .lowest exitOfFirst (by decide +kernel) 6
  have counts : (ledger 6 (Kdesud.past .lowest exitOfFirst)).asked.length <
      (ledger 6 (Kdesud.past .lowest exitOfFirst)).answered.length := by
    decide +kernel
  exact Nat.not_lt.mpr matched.1 counts

end KDESu.Daemon.ExitCodes
