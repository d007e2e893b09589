/- KDESu/Daemon/Deleting
   source: src/kdesud/handler.cpp, src/kdesud/repo.cpp, src/client.h
   digest: A DEL and the EXEC behind it, which look for the password under different keys. -/

import KDESu.Daemon.PasswordCache

set_option autoImplicit false
set_option relaxedAutoImplicit false

namespace KDESu.Daemon.Deleting

open KDESu.ByteArrays
open KDESu.Library.Histories
open KDESu.Library.Separators
open KDESu.Daemon.Repositories (DataEntry Repository)
open KDESu.Daemon.Repositories.Repository
open KDESu.Daemon.Handling
open KDESu.Daemon.Requests
open KDESu.Daemon.EventLoop
open KDESu.Daemon.Entries
open KDESu.Daemon.PasswordCache

/-- The session runs commands as they come: with the normal scheduler and no higher priority than
the default. -/
def Ordinary (h : ConnectionHandler) : Prop :=
  h.m_Scheduler = SchedNormal ∧ h.m_Priority ≤ 50

theorem authUser_ordinary {h : ConnectionHandler} (ordinary : Ordinary h) (user : Bytes) :
    authUser h user = user := by
  obtain ⟨scheduler, priority⟩ := ordinary
  refine if_neg ?_
  rintro (other | higher)
  · exact other scheduler
  · omega

theorem authUser_root {h : ConnectionHandler} (special : ¬Ordinary h) (user : Bytes) :
    authUser h user = ascii "root" := by
  refine if_pos ?_
  by_contra neither
  rw [not_or, not_not] at neither
  exact special ⟨neither.1, by omega⟩

/-- A password of root's that an EXEC can use: it is stored for the command on this host, next to
the environment of the EXEC, or next to no record when none of it counts. -/
structure RootCached (repo : Repository) (host command : Bytes) (env : List Bytes) : Prop where
  password : ∃ e, repo.stored (makeKey 0 host (ascii "root") command) = some e ∧ e.value ≠ none
  record : QByteArray.data ((repo.stored (makeKey 2 host (ascii "root") command)).bind
    DataEntry.value) = fenced asterisk (keptEnv env)

section

variable {h : ConnectionHandler} {repo : Repository} {command user : Bytes} {env : List Bytes}

private theorem cachedPass_of_absent (absent : repo.stored (commandKey 0 h command user) = none) :
    cachedPass h repo command user (envCheck env) = none := by
  rw [cachedPass, ← commandKey, ← commandKey, find_eq repo (commandKey 0 h command user), absent]
  exact ite_self none

private theorem cachedPass_root (special : ¬Ordinary h) :
    cachedPass h repo command user (envCheck env) = none ↔
      ¬RootCached repo h.m_Host command env := by
  have same : (repo.find (makeKey 2 h.m_Host (ascii "root") command)).eq (envCheck env) = true ↔
      QByteArray.data ((repo.stored (makeKey 2 h.m_Host (ascii "root") command)).bind
        DataEntry.value) = fenced asterisk (keptEnv env) := by
    rw [QByteArray.eq_iff, find_eq, envCheck_data]
  rw [cachedPass, authUser_root special, find_eq repo (makeKey 0 h.m_Host (ascii "root") command)]
  constructor
  · rintro nothing ⟨⟨e, present, filled⟩, record⟩
    rw [if_pos (same.mpr record), present] at nothing
    exact filled nothing
  · intro uncached
    split_ifs with found
    · cases present : repo.stored (makeKey 0 h.m_Host (ascii "root") command) with
      | none => rfl
      | some e =>
        by_contra filled
        exact uncached ⟨⟨e, present, filled⟩, same.mp found⟩
    · rfl

private theorem exec_sent (passless : h.m_Pass = none) (sys : SysCalls) (options : Bytes) :
    (perform sys h repo (.exec command user options env)).sent = [.respond .Res_NO []] ↔
      cachedPass h repo command user (envCheck env) = none ∨ sys.fork = none := by
  simp only [perform, execCommand]
  cases cached : cachedPass h repo command user (envCheck env) with
  | none => simp [passless, answer]
  | some pass =>
    cases forked : sys.fork with
    | none => simp [launch, forked, answer]
    | some pid => simp [launch, forked, answer]

end

def quiet (fd : Nat) : Event → Bool
  | .command .. => false
  | .accept fd' .. | .hangup fd' => fd' ≠ fd
  | _ => true

/-- The session on a descriptor still has this host, and nothing is stored under the key. -/
structure Deleted (fd : Nat) (host key : Bytes) (d : Kdesud) : Prop where
  host : ∀ h, d.handlerAt fd = some h → h.m_Host = host
  gone : d.repo.stored key = none

section

variable {fd : Nat} {host key : Bytes} {d : Kdesud} {ev : Event}

private theorem performs_nothing (calm : quiet fd ev = true) (fd' : Nat) (h : ConnectionHandler)
    (sys : SysCalls) (request : Request) : action d ev ≠ .perform fd' h sys request := by
  intro performed
  obtain ⟨-, -, buf, rfl, -⟩ := of_perform performed
  cases calm

private theorem accepts_elsewhere (calm : quiet fd ev = true) (uid uninitialised : Int) :
    action d ev ≠ .accept fd uid uninitialised := by
  intro accepted
  cases ev with
  | accept fd' =>
    simp only [action] at accepted
    split_ifs at accepted
    cases accepted
    simp [quiet] at calm
  | command => cases calm
  | expire | reap =>
    simp only [action] at accepted
    split_ifs at accepted
  | hangup fd' =>
    simp only [action] at accepted
    split_ifs at accepted
    cases found : d.handlerAt fd' <;> simp [found] at accepted

private theorem deleted_step (deleted : Deleted fd host key d) (calm : quiet fd ev = true) :
    Deleted fd host key (step d ev).1 := by
  constructor
  case host =>
    intro h' live
    have origin := handler_origin live
    generalize acts : action d ev = a at origin
    cases origin with
    | kept before => exact deleted.host h' before
    | accepted uid uninitialised => exact absurd acts (accepts_elsewhere calm _ _)
    | performed h sys request => exact absurd acts (performs_nothing calm _ _ _ _)
    | reaped h pid status before _ after =>
      rw [after]
      exact deleted.host h before
  case gone =>
    rw [Option.eq_none_iff_forall_not_mem]
    intro e present
    rcases stored_origin present with old | added
    · rw [deleted.gone] at old
      cases old
    · generalize acts : action d ev = a at added
      cases added with
      | password | environment | set => exact absurd acts (performs_nothing calm _ _ _ _)

private theorem deleted_run (deleted : Deleted fd host key d) {between : List Event}
    (calm : ∀ ev ∈ between, quiet fd ev = true) : Deleted fd host key (run step d between) := by
  induction between generalizing d with
  | nil => exact deleted
  | cons ev between ih =>
    exact ih (deleted_step deleted (calm ev List.mem_cons_self))
      fun ev' member => calm ev' (List.mem_cons_of_mem ev member)

private theorem deleted_of_del {h : ConnectionHandler} {sys : SysCalls} {command user : Bytes}
    (deletes : action d ev = .perform fd h sys (.delCmd command user)) :
    Deleted fd h.m_Host (makeKey 0 h.m_Host user command) (step d ev).1 := by
  constructor
  case host =>
    intro h' live
    rw [handlerAt_step, deletes, handlerAfter, if_pos rfl, Option.some.injEq, perform_handler]
      at live
    rw [← live]
    rfl
  case gone =>
    rw [stored_step, deletes]
    exact if_pos rfl

end

/-- Behind a DEL an EXEC on a session that never sent PASS is refused if and only if its key is
that of the DEL (the session is ordinary, or the user is root), or `fork` fails, or there is no
password of root's to use. -/
theorem exec_refused_iff (fds : Descriptors) (es between : List Event) {del exec : Event} {fd : Nat}
    {h h' : ConnectionHandler} {sys sys' : SysCalls} {command user options : Bytes}
    {env : List Bytes}
    (deletes : action (Kdesud.after fds es) del = .perform fd h sys (.delCmd command user))
    (calm : ∀ ev ∈ between, quiet fd ev = true)
    (execs : action (Kdesud.after fds (es ++ del :: between)) exec =
      .perform fd h' sys' (.exec command user options env))
    (unsent : ¬SentPass fd (Kdesud.past fds (es ++ del :: between))) :
    (step (Kdesud.after fds (es ++ del :: between)) exec).2 = [(fd, .respond .Res_NO [])] ↔
      Ordinary h' ∨ user = ascii "root" ∨ sys'.fork = none ∨
        ¬RootCached (Kdesud.after fds (es ++ del :: between)).repo h'.m_Host command env := by
  have live := (of_perform execs).2.1
  have passless : h'.m_Pass = none := by
    by_contra holds
    exact unsent ((holds_pass_iff fds _ live).mp holds)
  have reached : Kdesud.after fds (es ++ del :: between) =
      run step (step (Kdesud.after fds es) del).1 between := run_append ..
  have deleted : Deleted fd h.m_Host (makeKey 0 h.m_Host user command)
      (Kdesud.after fds (es ++ del :: between)) := by
    rw [reached]
    exact deleted_run (deleted_of_del deletes) calm
  have gone := deleted.gone
  rw [← deleted.host h' live] at gone
  have refused : (step (Kdesud.after fds (es ++ del :: between)) exec).2 =
      [(fd, .respond .Res_NO [])] ↔
        cachedPass h' (Kdesud.after fds (es ++ del :: between)).repo command user
          (envCheck env) = none ∨ sys'.fork = none := by
    rw [← exec_sent passless sys' options, replies_step, execs]
    simp [repliesOf, List.map_eq_singleton_iff]
  rw [refused]
  by_cases same : authUser h' user = user
  · have absent : (Kdesud.after fds (es ++ del :: between)).repo.stored
        (commandKey 0 h' command user) = none := by
      rw [commandKey, same]
      exact gone
    have nothing : cachedPass h' (Kdesud.after fds (es ++ del :: between)).repo command user
        (envCheck env) = none := cachedPass_of_absent absent
    have key : Ordinary h' ∨ user = ascii "root" := by
      by_contra neither
      rw [not_or] at neither
      exact neither.2 (same.symm.trans (authUser_root neither.1 user))
    exact iff_of_true (Or.inl nothing) (or_assoc.mp (Or.inl key))
  · have special : ¬Ordinary h' := fun ordinary => same (authUser_ordinary ordinary user)
    have other : user ≠ ascii "root" := by
      intro root
      exact same ((authUser_root special user).trans root.symm)
    rw [cachedPass_root special, or_iff_right special, or_iff_right other, or_comm]

private theorem unsent_of_passless {fds : Descriptors} {es : List Event} {fd : Nat}
    {h : ConnectionHandler} (live : (Kdesud.after fds es).handlerAt fd = some h)
    (passless : h.m_Pass = none) : ¬SentPass fd (Kdesud.past fds es) :=
  fun sent => (holds_pass_iff fds es live).mpr sent passless

theorem exec_refused_iff_twoSessions :
    (step (Kdesud.after .lowest (twoSessions (ascii "EXEC ls root\n") ++
        .command 7 (ascii "DEL ls root\n") secondCalls :: [.expire 103, .reap 77 0]))
      (.command 7 (ascii "EXEC ls root\n") secondCalls)).2 = [(7, .respond .Res_NO [])] := by
  have deletes : action (Kdesud.after .lowest (twoSessions (ascii "EXEC ls root\n")))
      (.command 7 (ascii "DEL ls root\n") secondCalls) =
      .perform 7 secondSession secondCalls (.delCmd (ascii "ls") (ascii "root")) := by
    decide +kernel
  have execs : action (Kdesud.after .lowest (twoSessions (ascii "EXEC ls root\n") ++
        .command 7 (ascii "DEL ls root\n") secondCalls :: [.expire 103, .reap 77 0]))
      (.command 7 (ascii "EXEC ls root\n") secondCalls) =
      .perform 7 secondSession secondCalls (.exec (ascii "ls") (ascii "root") [] []) := by
    decide +kernel
  have unsent := unsent_of_passless (of_perform execs).2.1 rfl
  exact (exec_refused_iff .lowest (twoSessions (ascii "EXEC ls root\n"))
    [.expire 103, .reap 77 0] deletes (by decide) execs unsent).mpr (Or.inl ⟨rfl, by decide⟩)

def cachedForRoot : List Event :=
  [.accept 6 1000 0, .command 6 (ascii "PASS pw 60\n") ⟨1000, 100, 100, none⟩,
    .command 6 (ascii "PRIO 60\n") ⟨1000, 100, 100, none⟩,
    .command 6 (ascii "EXEC ls bob\n") ⟨1000, 101, 101, some 77⟩, .accept 7 1000 0,
    .command 7 (ascii "PRIO 60\n") ⟨1000, 101, 101, none⟩]

/-- The DEL deletes bob's password, of which there is none, and the EXEC gets root's. -/
theorem deleted_password_used :
    ¬∀ fds es between del exec fd h h' sys sys' command user options env,
    action (Kdesud.after fds es) del = .perform fd h sys (.delCmd command user) →
    (∀ ev ∈ between, quiet fd ev = true) →
    action (Kdesud.after fds (es ++ del :: between)) exec =
      .perform fd h' sys' (.exec command user options env) →
    ¬SentPass fd (Kdesud.past fds (es ++ del :: between)) →
    (step (Kdesud.after fds (es ++ del :: between)) exec).2 = [(fd, .respond .Res_NO [])] := by
  intro always
  have refused := always .lowest cachedForRoot []
    (.command 7 (ascii "DEL ls bob\n") secondCalls)
    (.command 7 (ascii "EXEC ls bob\n") secondCalls) 7
    { secondSession with m_Priority := 60 } { secondSession with m_Priority := 60 } secondCalls
    secondCalls (ascii "ls") (ascii "bob") [] [] (by decide +kernel) (by simp) (by decide +kernel)
    (unsent_of_passless (h := { secondSession with m_Priority := 60 }) (by decide +kernel) rfl)
  exact absurd refused (by decide +kernel)

end KDESu.Daemon.Deleting
