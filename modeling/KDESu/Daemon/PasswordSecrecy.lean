/- KDESu/Daemon/PasswordSecrecy
   source: src/kdesud/handler.cpp, src/kdesud/repo.cpp, src/kdesud/kdesud.cpp
   digest: Two runs that differ in the passwords of PASS commands answer the same. -/

import KDESu.Daemon.Entries

set_option autoImplicit false
set_option relaxedAutoImplicit false

namespace KDESu.Daemon.PasswordSecrecy

open KDESu.ByteArrays
open KDESu.Library.Histories
open KDESu.Daemon.Repositories (DataEntry Repository)
open KDESu.Daemon.Repositories.Repository
open KDESu.Daemon.Handling
open KDESu.Daemon.Requests
open KDESu.Daemon.EventLoop
open KDESu.Daemon.Entries

def redactPass (pass : QByteArray) : QByteArray := Option.map (fun _ => []) pass

def redactValue (k : Bytes) (value : QByteArray) : QByteArray :=
  if InNamespace 0 k then redactPass value else value

def redactRepo (repo : Repository) : Repository := repo.withValues redactValue

def redactHandler (h : ConnectionHandler) : ConnectionHandler :=
  { h with m_Pass := redactPass h.m_Pass }

def redactRequest : Request → Request
  | .pass _ timeout => .pass [] timeout
  | request => request

def redactAction : Action → Action
  | .perform fd h sys request => .perform fd (redactHandler h) sys (redactRequest request)
  | a => a

def redactDaemon (d : Kdesud) : Kdesud :=
  { d with
    repo := redactRepo d.repo
    handler := d.handler.map (Option.map redactHandler) }

/-- What an outcome shows: all but the passwords. -/
structure View where
  ending : Ending
  handler : ConnectionHandler
  repo : Repository
  sent : List Reply
  pid : Option Pid

def view (o : Outcome) : View :=
  ⟨o.ending, redactHandler o.handler, redactRepo o.repo, o.sent, o.child.map Child.pid⟩

@[simp] theorem redactPass_idem (pass : QByteArray) :
    redactPass (redactPass pass) = redactPass pass := by
  cases pass <;> rfl

@[simp] theorem redactHandler_idem (h : ConnectionHandler) :
    redactHandler (redactHandler h) = redactHandler h := by
  simp [redactHandler]

@[simp] theorem redactRepo_idem (repo : Repository) :
    redactRepo (redactRepo repo) = redactRepo repo := by
  refine Repository.ext ?_ rfl
  apply KDESu.Library.OrderedMaps.OrderedMap.ext_entries
  simp only [redactRepo, withValues, KDESu.Library.OrderedMaps.OrderedMap.mapValues,
    List.map_map, Function.comp_def, redactValue]
  refine List.map_congr_left fun e _ => ?_
  split_ifs <;> simp

private theorem redactValue_other {namespac : Int} (sign : 0 ≤ namespac) (other : namespac ≠ 0)
    (a b c : Bytes) (value : QByteArray) :
    redactValue (makeKey namespac a b c) value = value := by
  refine if_neg fun inside => ?_
  exact other (namespace_unique sign (by decide) (makeKey_inNamespace namespac a b c) inside)

private theorem redactValue_password (a b c : Bytes) (value : QByteArray) :
    redactValue (makeKey 0 a b c) value = redactPass value :=
  if_pos (makeKey_inNamespace 0 a b c)

private theorem find_other {namespac : Int} (sign : 0 ≤ namespac) (other : namespac ≠ 0)
    (repo : Repository) (a b c : Bytes) :
    (redactRepo repo).find (makeKey namespac a b c) = repo.find (makeKey namespac a b c) := by
  rw [redactRepo, find_withValues, find_eq]
  simp only [redactValue_other sign other]

private theorem find_password (repo : Repository) (a b c : Bytes) :
    (redactRepo repo).find (makeKey 0 a b c) = redactPass (repo.find (makeKey 0 a b c)) := by
  rw [redactRepo, find_withValues, find_eq]
  simp only [redactValue_password]
  cases repo.stored (makeKey 0 a b c) <;> rfl

private theorem cachedPass_redact (h : ConnectionHandler) (repo : Repository)
    (command user : Bytes) (env_check : QByteArray) :
    cachedPass (redactHandler h) (redactRepo repo) command user env_check =
      redactPass (cachedPass h repo command user env_check) := by
  have account : authUser (redactHandler h) user = authUser h user := rfl
  have host : (redactHandler h).m_Host = h.m_Host := rfl
  simp only [cachedPass, account, host]
  rw [find_other (by decide) (by decide), find_password]
  split_ifs <;> rfl

private theorem add_other {namespac : Int} (sign : 0 ≤ namespac) (other : namespac ≠ 0)
    (repo : Repository) (now : Nat) (a b c : Bytes) (data : DataEntry) :
    (redactRepo repo).add now (makeKey namespac a b c) (makeKey_ne_nil _ _ _ _) data =
      redactRepo (repo.add now (makeKey namespac a b c) (makeKey_ne_nil _ _ _ _) data) := by
  have added := add_withValues redactValue repo now (makeKey namespac a b c)
    (makeKey_ne_nil _ _ _ _) data
  rw [redactValue_other sign other] at added
  exact added

private theorem add_password (repo : Repository) (now : Nat) (a b c : Bytes)
    (pass : QByteArray) (timeout : Nat) :
    (redactRepo repo).add now (makeKey 0 a b c) (makeKey_ne_nil _ _ _ _)
        ⟨redactPass pass, [], timeout⟩ =
      redactRepo (repo.add now (makeKey 0 a b c) (makeKey_ne_nil _ _ _ _)
        ⟨pass, [], timeout⟩) := by
  have added := add_withValues redactValue repo now (makeKey 0 a b c)
    (makeKey_ne_nil _ _ _ _) ⟨pass, [], timeout⟩
  rw [redactValue_password] at added
  exact added

private theorem cachePass_redact (sys : SysCalls) (h : ConnectionHandler) (repo : Repository)
    (command user : Bytes) (env_check : QByteArray) :
    cachePass sys (redactHandler h) (redactRepo repo) command user env_check =
      redactRepo (cachePass sys h repo command user env_check) := by
  simp only [cachePass, redactHandler, add_other (by decide : (0 : Int) ≤ 2) (by decide),
    add_password]
  rfl

private theorem answer_view (h : ConnectionHandler) (repo : Repository) (ok : Results)
    (s : Bytes) : view (answer h repo ok s) = view (answer (redactHandler h) (redactRepo repo) ok s)
    := by
  simp [answer, view]

private theorem launch_view (sys : SysCalls) (h : ConnectionHandler) (repo : Repository)
    (command user options : Bytes) (env : List Bytes) (pass pass' : Bytes) :
    view (launch sys h repo command user options env pass) =
      view (launch sys (redactHandler h) (redactRepo repo) command user options env pass') := by
  simp only [launch]
  cases sys.fork with
  | none => exact answer_view h repo .Res_NO []
  | some pid => simp [answer, view, redactHandler]

private theorem exec_view (sys : SysCalls) (h : ConnectionHandler) (repo : Repository)
    (command user options : Bytes) (env : List Bytes) (env_check : QByteArray) :
    view (execCommand sys h repo command user options env env_check) =
      view (execCommand sys (redactHandler h) (redactRepo repo) command user options env
        env_check) := by
  have held : (redactHandler h).m_Pass = redactPass h.m_Pass := rfl
  simp only [execCommand, cachedPass_redact, held]
  cases cachedPass h repo command user env_check with
  | some pass => exact launch_view sys h repo command user options env pass []
  | none =>
    cases h.m_Pass with
    | none => exact answer_view h repo .Res_NO []
    | some pass =>
      simp only [redactPass, Option.map_none, Option.map_some, cachePass_redact]
      exact launch_view sys h _ command user options env pass []

private theorem perform_view (sys : SysCalls) (h : ConnectionHandler) (repo : Repository)
    (request : Request) :
    view (perform sys h repo request) =
      view (perform sys (redactHandler h) (redactRepo repo) (redactRequest request)) := by
  cases request with
  | exec command user options env =>
    exact exec_view sys h repo command user options env (envCheck env)
  | delCmd command user =>
    simp only [perform, redactRequest, redactRepo, remove_withValues]
    exact answer_view h _ _ []
  | delVar name =>
    simp only [perform, redactRequest, redactRepo, remove_withValues]
    exact answer_view h _ _ []
  | delGroup group =>
    simp only [perform, redactRequest, redactRepo, removeGroup_withValues]
    exact answer_view h _ _ []
  | delSpecialKey key =>
    simp only [perform, redactRequest, redactRepo, removeSpecialKey_withValues]
    exact answer_view h _ _ []
  | set name value group timeout =>
    simp only [perform, redactRequest, setVariable]
    rw [add_other (by decide) (by decide)]
    exact answer_view h _ _ []
  | get name =>
    simp only [perform, redactRequest, deliver]
    rw [find_other (by decide) (by decide)]
    split_ifs
    · exact answer_view h repo _ _
    · exact answer_view h repo _ _
  | getKeys group =>
    simp only [perform, redactRequest, deliver, redactRepo, findKeys_withValues]
    split_ifs
    · exact answer_view h repo _ _
    · exact answer_view h repo _ _
  | chkGroup group =>
    simp only [perform, redactRequest, redactRepo, hasGroup_withValues]
    exact answer_view h repo _ []
  | exit =>
    simp [perform, redactRequest, requestExitCode, sendExitCode, view, redactHandler]
  | pass password timeout =>
    simp [perform, redactRequest, answer, view, redactHandler, redactPass]
  | host | prio | sched | ping | stop =>
    simp [perform, redactRequest, answer, view, redactHandler]

@[simp] theorem redactDaemon_idem (d : Kdesud) :
    redactDaemon (redactDaemon d) = redactDaemon d := by
  have handlers (h : Option ConnectionHandler) :
      (h.map redactHandler).map redactHandler = h.map redactHandler := by
    cases h <;> simp
  simp [redactDaemon, Function.comp_def, handlers]

theorem handlerAt_redact (d : Kdesud) (fd : Nat) :
    (redactDaemon d).handlerAt fd = (d.handlerAt fd).map redactHandler := by
  simp only [Kdesud.handlerAt, redactDaemon, List.getElem?_map]
  cases d.handler[fd]? <;> rfl

theorem waiting_redact (d : Kdesud) (pid : Pid) :
    (redactDaemon d).waiting pid = d.waiting pid := by
  have waits (j : Nat) : ((redactDaemon d).handlerAt j).any (fun h => h.m_pid = pid.1) =
      (d.handlerAt j).any (fun h => h.m_pid = pid.1) := by
    rw [handlerAt_redact]
    cases d.handlerAt j <;> rfl
  have size : (redactDaemon d).handler.length = d.handler.length := List.length_map _
  simp only [Kdesud.waiting, waits, size]

private def settled (d : Kdesud) (fd : Nat) (v : View) : Kdesud :=
  let d := { d with
    repo := v.repo
    handler := d.handler.set fd (some v.handler)
    children := d.children ++ v.pid.toList }
  match v.ending with
  | .ok => d
  | .error => d.close fd
  | .exit => { d with running := false }

private theorem settle_redact (d : Kdesud) (fd : Nat) (o : Outcome) :
    redactDaemon (d.settle fd o).1 = settled (redactDaemon d) fd (view o) := by
  simp only [Kdesud.settle, settled, view]
  cases o.ending
  all_goals simp [redactDaemon, Kdesud.store, Kdesud.conclude, Kdesud.close, List.map_set]

private theorem reap_redact (d : Kdesud) (pid : Pid) (status : Nat) :
    redactDaemon (d.reap pid status).1 = redactDaemon ((redactDaemon d).reap pid status).1 ∧
      (d.reap pid status).2 = ((redactDaemon d).reap pid status).2 := by
  have waits : ({ redactDaemon d with
      children := (redactDaemon d).children.filter (· ≠ pid) } : Kdesud).waiting pid =
      ({ d with children := d.children.filter (· ≠ pid) } : Kdesud).waiting pid :=
    waiting_redact d pid
  have live (j : Nat) : ({ redactDaemon d with
      children := (redactDaemon d).children.filter (· ≠ pid) } : Kdesud).handlerAt j =
      (({ d with children := d.children.filter (· ≠ pid) } : Kdesud).handlerAt j).map
        redactHandler :=
    handlerAt_redact d j
  have idle : redactDaemon { d with children := d.children.filter (· ≠ pid) } =
      redactDaemon { redactDaemon d with
        children := (redactDaemon d).children.filter (· ≠ pid) } :=
    (redactDaemon_idem { d with children := d.children.filter (· ≠ pid) }).symm
  simp only [Kdesud.reap, waits]
  cases ({ d with children := d.children.filter (· ≠ pid) } : Kdesud).waiting pid with
  | none => exact ⟨idle, rfl⟩
  | some j =>
    simp only [live]
    cases ({ d with children := d.children.filter (· ≠ pid) } : Kdesud).handlerAt j with
    | none => exact ⟨idle, rfl⟩
    | some h =>
      refine ⟨?_, rfl⟩
      have handlers := congrArg Kdesud.handler (redactDaemon_idem d)
      have same : redactHandler (reaped (redactHandler h) status) =
          redactHandler (reaped h status) := redactHandler_idem (reaped h status)
      simp only [Option.map_some]
      simp only [redactDaemon] at handlers ⊢
      simp [List.map_set, handlers, same]

private theorem act_redact (d : Kdesud) (a : Action) :
    redactDaemon (act d a).1 = redactDaemon (act (redactDaemon d) (redactAction a)).1 ∧
      (act d a).2 = (act (redactDaemon d) (redactAction a)).2 := by
  have handlers := congrArg Kdesud.handler (redactDaemon_idem d)
  cases a with
  | idle => exact ⟨(redactDaemon_idem d).symm, rfl⟩
  | expire now =>
    refine ⟨?_, rfl⟩
    have expired : redactRepo (d.repo.expire now).1 = ((redactRepo d.repo).expire now).1 := by
      rw [redactRepo, redactRepo, expire_withValues]
    simp only [act, redactAction]
    simp only [redactDaemon] at handlers ⊢
    rw [handlers, ← expired, redactRepo_idem]
  | accept fd uid uninitialised =>
    refine ⟨?_, rfl⟩
    have fresh : redactHandler (.new fd uid uninitialised) = .new fd uid uninitialised := rfl
    simp only [act, redactAction, Kdesud.accept]
    simp only [redactDaemon] at handlers ⊢
    simp [List.map_set, fresh, handlers]
  | drop fd sent =>
    refine ⟨?_, rfl⟩
    simp only [act, redactAction, Kdesud.close]
    simp only [redactDaemon] at handlers ⊢
    simp [List.map_set, handlers]
  | reap pid status => exact reap_redact d pid status
  | perform fd h sys request =>
    have shown := perform_view sys h d.repo request
    constructor
    · simp only [act, redactAction]
      rw [settle_redact, settle_redact, shown, redactDaemon_idem]
      rfl
    · exact congrArg (fun v => v.sent.map (fd, ·)) shown

/-- The same event, or the same PASS but for the password. -/
inductive SameButPassword : Event → Event → Prop
  | same (e : Event) : SameButPassword e e
  | pass (fd : Nat) (sys : SysCalls) {buf buf' password password' : Bytes} {timeout : Int}
      (read : readRequest buf = some (.pass password timeout))
      (read' : readRequest buf' = some (.pass password' timeout)) :
      SameButPassword (.command fd buf sys) (.command fd buf' sys)

private theorem commandAction_redact (fd : Nat) (h : ConnectionHandler) (buf : Bytes)
    (sys : SysCalls) :
    redactAction (commandAction fd h buf sys) =
      redactAction (commandAction fd (redactHandler h) buf sys) := by
  have me : peerIsMe sys (redactHandler h) ↔ peerIsMe sys h := Iff.rfl
  simp only [commandAction, me]
  split_ifs
  · cases readRequest buf with
    | none => rfl
    | some request => simp [redactAction]
  · rfl

private theorem action_redact (d : Kdesud) (e : Event) :
    redactAction (action d e) = redactAction (action (redactDaemon d) e) := by
  have running : (redactDaemon d).running = d.running := rfl
  simp only [action, running]
  split_ifs
  · cases e with
    | expire | reap | accept => rfl
    | command fd buf sys =>
      simp only [handlerAt_redact]
      cases d.handlerAt fd with
      | none => rfl
      | some h => exact commandAction_redact fd h buf sys
    | hangup fd =>
      simp only [handlerAt_redact]
      cases d.handlerAt fd <;> rfl
  · rfl

private theorem action_sameButPassword (d : Kdesud) {e e' : Event}
    (same : SameButPassword e e') : redactAction (action d e) = redactAction (action d e') := by
  cases same with
  | same => rfl
  | pass fd sys read read' =>
    simp only [action]
    split_ifs
    · cases d.handlerAt fd with
      | none => rfl
      | some h =>
        simp only [commandAction, read, read']
        split_ifs <;> rfl
    · rfl

private theorem step_alike {d d' : Kdesud} {e e' : Event}
    (alike : redactDaemon d = redactDaemon d') (same : SameButPassword e e') :
    redactDaemon (step d e).1 = redactDaemon (step d' e').1 ∧ (step d e).2 = (step d' e').2 := by
  have actions : redactAction (action d e) = redactAction (action d' e') := by
    rw [action_sameButPassword d same, action_redact d e', alike, ← action_redact d' e']
  obtain ⟨state, replies⟩ := act_redact d (action d e)
  obtain ⟨state', replies'⟩ := act_redact d' (action d' e')
  rw [step_eq_act, step_eq_act, state, state', replies, replies', actions, alike]
  exact ⟨rfl, rfl⟩

/-- The same keys, groups and deadlines, and the same values but those of passwords. -/
def SameButPasswords (r s : Repository) : Prop :=
  ∀ k, (r.stored k).map (fun e => (e.group, e.timeout)) =
      (s.stored k).map (fun e => (e.group, e.timeout)) ∧
    (¬InNamespace 0 k → r.stored k = s.stored k)

private theorem sameButPasswords_of_redact {r s : Repository}
    (alike : redactRepo r = redactRepo s) : SameButPasswords r s := by
  intro k
  have entries : (redactRepo r).stored k = (redactRepo s).stored k := by rw [alike]
  rw [redactRepo, redactRepo, stored_withValues, stored_withValues] at entries
  constructor
  · have frames := congrArg (Option.map fun e : DataEntry => (e.group, e.timeout)) entries
    simpa [Option.map_map, Function.comp_def] using frames
  · intro outside
    simpa [redactValue, outside] using entries

/-- Two runs that differ in the password strings of PASS commands send the same replies to
every connection, and leave the same repository but for the values of passwords. -/
theorem passwords_stay_secret (fds : Descriptors) {es es' : List Event}
    (same : List.Forall₂ SameButPassword es es') :
    outputs step (Kdesud.new fds) es = outputs step (Kdesud.new fds) es' ∧
      SameButPasswords (Kdesud.after fds es).repo (Kdesud.after fds es').repo := by
  obtain ⟨states, replies⟩ := related_runs (R := fun d d' => redactDaemon d = redactDaemon d')
    (E := SameButPassword) (fun d d' e e' alike same => step_alike alike same)
    (rfl : redactDaemon (Kdesud.new fds) = _) same
  exact ⟨replies, sameButPasswords_of_redact (congrArg Kdesud.repo states)⟩

def cachingSession (pass : Bytes) : List Event :=
  [.accept 6 1000 0, .command 6 pass ⟨1000, 100, 100, none⟩,
    .command 6 (ascii "EXEC ls root\n") ⟨1000, 101, 101, some 77⟩, .hangup 6,
    .accept 6 1000 0,
    .command 6 (ascii "EXEC ls root\n") ⟨1000, 102, 102, some 78⟩]

theorem passwords_stay_secret_cachingSession :
    outputs step (Kdesud.new .lowest) (cachingSession (ascii "PASS one 60\n")) =
      outputs step (Kdesud.new .lowest) (cachingSession (ascii "PASS another 60\n")) :=
  (passwords_stay_secret .lowest (.cons (.same _)
    (.cons (.pass 6 ⟨1000, 100, 100, none⟩
        (rfl : readRequest (ascii "PASS one 60\n") = some (.pass (ascii "one") 60))
        (rfl : readRequest (ascii "PASS another 60\n") = some (.pass (ascii "another") 60)))
      (.cons (.same _) (.cons (.same _) (.cons (.same _) (.cons (.same _) .nil))))))).1

end KDESu.Daemon.PasswordSecrecy
