/- KDESu/Daemon/Refusing
   source: src/kdesud/handler.cpp, src/kdesud/repo.cpp
   digest: What a command that is refused leaves behind in the repository. -/

import KDESu.Daemon.Entries

set_option autoImplicit false
set_option relaxedAutoImplicit false

namespace KDESu.Daemon.Refusing

open KDESu.ByteArrays
open KDESu.Library.Histories
open KDESu.Daemon.Repositories (DataEntry Repository)
open KDESu.Daemon.Repositories.Repository
open KDESu.Daemon.Handling
open KDESu.Daemon.Requests
open KDESu.Daemon.EventLoop
open KDESu.Daemon.Entries

/-- A command that answers NO or returns -1. -/
def Refused (o : Outcome) : Prop := (∃ s, .respond .Res_NO s ∈ o.sent) ∨ o.ending = .error

def SameEntries (r s : Repository) : Prop := ∀ k, r.stored k = s.stored k

/-- An EXEC that caches its password and then finds no process to run in. -/
def CachesInVain (sys : SysCalls) (h : ConnectionHandler) (repo : Repository) :
    Request → Prop
  | .exec command user _ env => Caches h repo command user env ∧ sys.fork = none
  | _ => False

section

variable {sys : SysCalls} {h : ConnectionHandler} {repo : Repository}

private theorem caches_changes {command user : Bytes} {env : List Bytes}
    (caches : Caches h repo command user env) :
    ¬SameEntries (cachePass sys h repo command user (envCheck env)) repo := by
  intro same
  have password := same (commandKey 0 h command user)
  have record := same (commandKey 2 h command user)
  have apart : commandKey 2 h command user ≠ commandKey 0 h command user :=
    ne_makeKey (by decide) (by decide) (by decide) (makeKey_inNamespace 2 _ _ _) _ _ _
  rw [stored_cachePass, if_pos rfl] at password
  rw [stored_cachePass, if_neg apart, if_pos rfl] at record
  obtain ⟨none_cached, held⟩ := caches
  have matches_record : (repo.find (commandKey 2 h command user)).eq (envCheck env) = true := by
    rw [find_eq, ← record]
    exact (QByteArray.eq_iff _ _).mpr rfl
  rw [cachedPass] at none_cached
  rw [commandKey] at matches_record
  rw [if_pos matches_record, find_eq, ← commandKey, ← password] at none_cached
  exact held none_cached

private theorem report_keeps {result : Repository × Int}
    (fails : result.2 < 0 → result.1 = repo) (refused : Refused (report h result)) :
    (report h result).repo = repo := by
  rcases refused with ⟨s, sent⟩ | ended
  · apply fails
    by_contra succeeds
    simp [report, answer, succeeds] at sent
  · cases ended

private theorem launch_refused {command user options : Bytes} {env : List Bytes} {pass : Bytes} :
    Refused (launch sys h repo command user options env pass) ↔ sys.fork = none := by
  simp only [launch, Refused]
  cases sys.fork <;> simp [answer]

private theorem exec_keeps_iff (command user options : Bytes) (env : List Bytes) :
    (Refused (perform sys h repo (.exec command user options env)) →
        SameEntries (perform sys h repo (.exec command user options env)).repo repo) ↔
      ¬(Caches h repo command user env ∧ sys.fork = none) := by
  rw [exec_repo]
  by_cases caches : Caches h repo command user env
  · obtain ⟨pass, held⟩ := Option.ne_none_iff_exists'.mp caches.2
    have launched : perform sys h repo (.exec command user options env) =
        launch sys h (cachePass sys h repo command user (envCheck env)) command user options env
          pass := by
      simp only [perform, execCommand, caches.1, held]
    rw [launched, launch_refused]
    simp [caches, caches_changes caches]
  · simp [caches, SameEntries]

theorem refused_keeps_iff (request : Request) :
    (Refused (perform sys h repo request) →
        SameEntries (perform sys h repo request).repo repo) ↔
      ¬CachesInVain sys h repo request := by
  cases request
  case exec command user options env => exact exec_keeps_iff command user options env
  all_goals refine iff_of_true ?_ not_false
  case delCmd command user =>
    intro refused k
    exact congrArg (·.stored k) (report_keeps remove_of_fails refused)
  case delVar name =>
    intro refused k
    exact congrArg (·.stored k) (report_keeps remove_of_fails refused)
  case delGroup group =>
    intro refused k
    exact congrArg (·.stored k) (report_keeps removeGroup_of_fails refused)
  case delSpecialKey key =>
    intro refused k
    exact congrArg (·.stored k) (report_keeps removeSpecialKey_of_fails refused)
  case set name value group timeout =>
    intro refused
    simp [Refused, perform, setVariable, answer] at refused
  case get | getKeys =>
    intro _ k
    simp only [perform, deliver]
    split_ifs <;> rfl
  all_goals exact fun _ _ => rfl

end

/-- What a step owes the repository: a command that is refused leaves it alone. -/
def RefusesCleanly (m : Moment Kdesud Event) : Prop :=
  ∀ fd buf sys h, m.event = .command fd buf sys → m.before.running = true →
    m.before.handlerAt fd = some h → Refused (doCommand sys h m.before.repo buf) →
      SameEntries (doCommand sys h m.before.repo buf).repo m.before.repo

/-- The step performs an EXEC that caches its password although `fork` will fail. -/
def LaunchFails (m : Moment Kdesud Event) : Prop :=
  ∃ fd h sys request, acted m = .perform fd h sys request ∧
    CachesInVain sys h m.before.repo request

private theorem refusesCleanly_iff (m : Moment Kdesud Event) :
    RefusesCleanly m ↔ ¬LaunchFails m := by
  constructor
  · rintro cleanly ⟨fd, h, sys, request, performed, in_vain⟩
    obtain ⟨running, live, buf, event, me, read⟩ := of_perform performed
    have keeps := cleanly fd buf sys h event running live
    rw [doCommand_of_request me m.before.repo read] at keeps
    exact (refused_keeps_iff request).mp keeps in_vain
  · intro launches fd buf sys h event running live
    by_cases me : peerIsMe sys h
    · cases read : readRequest buf with
      | some request =>
        rw [doCommand_of_request me m.before.repo read]
        refine (refused_keeps_iff request).mpr fun in_vain => ?_
        refine launches ⟨fd, h, sys, request, ?_, in_vain⟩
        simp [acted, action, event, running, live, commandAction, me, read]
      | none =>
        obtain ⟨h', -, refused⟩ := doCommand_of_none me m.before.repo read
        rw [refused]
        exact fun _ _ => rfl
    · rw [doCommand_of_stranger me]
      exact fun _ _ => rfl

/-- All commands of a run are refused cleanly exactly if none of them is an EXEC that caches its
password although `fork` will fail. -/
theorem refused_commands_keep_repository_iff (fds : Descriptors) (es : List Event) :
    (∀ m ∈ Kdesud.past fds es, RefusesCleanly m) ↔
      ∀ m ∈ Kdesud.past fds es, ¬LaunchFails m :=
  forall₂_congr fun m _ => refusesCleanly_iff m

def passSession : List Event :=
  [.accept 6 1000 0, .command 6 (ascii "PASS pw 60\n") ⟨1000, 100, 100, none⟩]

/-- An EXEC for which `fork` finds no process is answered NO, and its password stays behind. -/
theorem password_left_by_refused_exec : ¬∀ fds es, ∀ m ∈ Kdesud.past fds es,
    RefusesCleanly m := by
  intro cleanly
  let exec : Event := .command 6 (ascii "EXEC ls root\n") ⟨1000, 101, 101, none⟩
  let d := Kdesud.after .lowest passSession
  have last : (⟨d, exec⟩ : Moment Kdesud Event) ∈
      Kdesud.past .lowest (passSession ++ [exec]) := by
    rw [Kdesud.past, history_snoc]
    exact List.mem_append_right _ List.mem_cons_self
  let h : ConnectionHandler :=
    { ConnectionHandler.new 6 1000 0 with m_Pass := some (ascii "pw"), m_Timeout := 60 }
  have live : d.handlerAt 6 = some h := by decide +kernel
  have answered : Refused (doCommand ⟨1000, 101, 101, none⟩ h d.repo (ascii "EXEC ls root\n")) :=
    Or.inl ⟨[], by decide +kernel⟩
  have same := cleanly _ _ _ last 6 _ _ h rfl (by decide +kernel) live answered
    (makeKey 0 [] (ascii "root") (ascii "ls"))
  exact absurd (congrArg Option.isSome same) (by decide +kernel)

end KDESu.Daemon.Refusing
