/- KDESu/Daemon/PasswordCache
   source: src/kdesud/handler.cpp, src/kdesud/repo.cpp
   digest: Which EXEC a cached password is reused for, and the record of its environment. -/

import KDESu.Daemon.Entries

set_option autoImplicit false
set_option relaxedAutoImplicit false

namespace KDESu.Daemon.PasswordCache

open KDESu.ByteArrays
open KDESu.Library.Histories
open KDESu.Library.Separators
open KDESu.Daemon.Repositories (DataEntry Repository)
open KDESu.Daemon.Repositories.Repository
open KDESu.Daemon.Handling
open KDESu.Daemon.Requests
open KDESu.Daemon.EventLoop
open KDESu.Daemon.Entries

/-- The environment strings that count: those that are no startup id. -/
def keptEnv (env : List Bytes) : List Bytes :=
  env.filter (fun env_str => ¬ascii "DESKTOP_STARTUP_ID=" <+: env_str)

private theorem foldl_checkEnv (env : List Bytes) (env_check : QByteArray) :
    QByteArray.data (env.foldl checkEnv env_check) =
      env_check.data ++ fenced asterisk (keptEnv env) := by
  induction env generalizing env_check with
  | nil => simp [keptEnv]
  | cons env_str env ih =>
    rw [List.foldl_cons, ih]
    by_cases startup : ascii "DESKTOP_STARTUP_ID=" <+: env_str
    · simp [checkEnv, keptEnv, startup]
    · simp [checkEnv, keptEnv, startup]

theorem envCheck_data (env : List Bytes) :
    QByteArray.data (envCheck env) = fenced asterisk (keptEnv env) :=
  foldl_checkEnv env none

/-- A PASS was performed on the descriptor's present connection. -/
def SentPass (fd : Nat) (past : List (Moment Kdesud Event)) : Prop :=
  Since (fun m => ∃ h sys password timeout, acted m = .perform fd h sys (.pass password timeout))
    (fun m => ∃ uid uninitialised, acted m = .accept fd uid uninitialised) past

private theorem handlerOf_m_Pass (h : ConnectionHandler) (child : Option Child)
    (request : Request) : (handlerOf h child request).m_Pass =
      match request with
      | .pass password _ => some password
      | _ => h.m_Pass := by
  cases request
  case exec => cases child <;> rfl
  all_goals rfl

/-- A session holds a password exactly if it has sent PASS. -/
theorem holds_pass_iff (fds : Descriptors) (es : List Event) {fd : Nat} {h : ConnectionHandler}
    (live : (Kdesud.after fds es).handlerAt fd = some h) :
    h.m_Pass ≠ none ↔ SentPass fd (Kdesud.past fds es) := by
  refine run_induction (P := fun past d => ∀ h, d.handlerAt fd = some h →
    (h.m_Pass ≠ none ↔ SentPass fd past)) ?_ ?_ es h live
  · intro h live
    cases live
  · intro past d ev ih h' live
    have origin := handler_origin live
    rw [SentPass, since_snoc, ← SentPass]
    simp only [acted]
    generalize action d ev = a at origin ⊢
    cases origin with
    | kept before accepted performed _ => simp [ih h' before, accepted, performed]
    | accepted uid uninitialised new => simp [new, ConnectionHandler.new]
    | performed h sys request before after =>
      rw [after, handlerOf_m_Pass]
      cases request <;> simp [ih h before]
    | reaped h pid status before _ after => simp [after, reaped, ih h before]

structure Target where
  host : Bytes
  account : Bytes
  command : Bytes
  env : List Bytes
  deriving DecidableEq

def target (h : ConnectionHandler) (command user : Bytes) (env : List Bytes) : Target :=
  ⟨h.m_Host, authUser h user, command, keptEnv env⟩

def grantedTarget : Action → Option Target
  | .perform _ h _ (.exec command user _ env) =>
      if h.m_Pass = none then none else some (target h command user env)
  | _ => none

/-- If the moment is an EXEC that succeeds on a session without PASS, then an earlier EXEC
with a PASS had the same target. -/
def ReusesRightly (past : List (Moment Kdesud Event)) (m : Moment Kdesud Event) : Prop :=
  ∀ fd h sys command user options env,
    acted m = .perform fd h sys (.exec command user options env) → ¬SentPass fd past →
      (step m.before m.event).2 = [(fd, .respond .Res_OK [])] →
        ∃ m' ∈ past, grantedTarget (acted m') = some (target h command user env)

/-- The texts under which a target is recorded: its key and its joined environment. -/
def Target.texts (t : Target) : Bytes × Bytes :=
  (makeKey 2 t.host t.account t.command, fenced asterisk t.env)

/-- The condition on an EXEC without PASS: no password was given for another target with the
same texts, and where no environment counts, a cached password has its environment record. -/
def unambiguous (past : List (Moment Kdesud Event)) (m : Moment Kdesud Event) : Bool :=
  match acted m with
  | .perform _ h _ (.exec command user _ env) =>
      h.m_Pass = none →
        (∀ m' ∈ past, ∀ t ∈ grantedTarget (acted m'),
          t.texts = (target h command user env).texts → t = target h command user env) ∧
        (keptEnv env = [] → m.before.repo.stored (commandKey 0 h command user) ≠ none →
          m.before.repo.stored (commandKey 2 h command user) ≠ none)
  | _ => true

theorem Target.eq_of_texts {t t' : Target} (free_host : asterisk ∉ t.host)
    (free_account : asterisk ∉ t.account) (free_env : ∀ env_str ∈ t.env, asterisk ∉ env_str)
    (free_host' : asterisk ∉ t'.host) (free_account' : asterisk ∉ t'.account)
    (free_env' : ∀ env_str ∈ t'.env, asterisk ∉ env_str) (same : t.texts = t'.texts) :
    t = t' := by
  obtain ⟨key, joined⟩ := Prod.mk.inj same
  obtain ⟨host, account, command⟩ :=
    makeKey_injective_of_free free_host free_account free_host' free_account' key
  have env := fenced_injective free_env free_env' joined
  cases t
  cases t'
  simp_all

def RecordsGranted (past : List (Moment Kdesud Event)) (repo : Repository) : Prop :=
  ∀ k e, InNamespace 2 k → repo.stored k = some e →
    ∃ m ∈ past, ∃ fd h sys command user options env,
      acted m = .perform fd h sys (.exec command user options env) ∧ h.m_Pass ≠ none ∧
        k = commandKey 2 h command user ∧ e.value = envCheck env

private theorem recordsGranted_run (fds : Descriptors) (es : List Event) :
    RecordsGranted (Kdesud.past fds es) (Kdesud.after fds es).repo := by
  refine run_induction (P := fun past d => RecordsGranted past d.repo) ?_ ?_ es
  · intro k e _ present
    cases present
  · intro past d ev ih k e inside present
    rcases stored_origin present with old | added
    · obtain ⟨m, member, granted⟩ := ih k e inside old
      exact ⟨m, List.mem_append_left _ member, granted⟩
    · refine ⟨⟨d, ev⟩, by simp, ?_⟩
      simp only [acted]
      generalize action d ev = a at added
      cases added with
      | password _ _ _ _ _ _ _ _ key _ =>
        exact absurd key (ne_makeKey (by decide) (by decide) (by decide) inside _ _ _)
      | environment fd h sys command user options env caches key entry =>
        exact ⟨fd, h, sys, command, user, options, env, rfl, caches.2, key, entry ▸ rfl⟩
      | set _ _ _ _ _ _ _ key _ =>
        exact absurd key (ne_makeKey (by decide) (by decide) (by decide) inside _ _ _)

private theorem cached_of_ok {d : Kdesud} {ev : Event} {fd : Nat} {h : ConnectionHandler}
    {sys : SysCalls} {command user options : Bytes} {env : List Bytes}
    (performed : action d ev = .perform fd h sys (.exec command user options env))
    (passless : h.m_Pass = none)
    (answered : (step d ev).2 = [(fd, .respond .Res_OK [])]) :
    d.repo.stored (commandKey 0 h command user) ≠ none ∧
      QByteArray.data (d.repo.find (commandKey 2 h command user)) =
        fenced asterisk (keptEnv env) := by
  rw [replies_step, performed] at answered
  simp only [repliesOf, perform, execCommand] at answered
  split at answered
  case h_2 => simp [passless, answer] at answered
  case h_1 pass found =>
    simp only [cachedPass] at found
    split_ifs at found with same
    refine ⟨?_, ?_⟩
    · intro absent
      have missing := find_eq d.repo (commandKey 0 h command user)
      rw [absent] at missing
      rw [← commandKey, missing] at found
      cases found
    · rw [QByteArray.eq_iff, envCheck_data] at same
      exact same

/-- In every reachable state an unambiguous EXEC reuses a cached password only for the target
that the password was given for. -/
theorem cached_password_reuse (fds : Descriptors) (es : List Event) (ev : Event)
    (clear : unambiguous (Kdesud.past fds es) ⟨Kdesud.after fds es, ev⟩ = true) :
    ReusesRightly (Kdesud.past fds es) ⟨Kdesud.after fds es, ev⟩ := by
  intro fd h sys command user options env performed unsent answered
  have live := (of_perform performed).2.1
  have passless : h.m_Pass = none := by
    by_contra holds
    exact unsent ((holds_pass_iff fds es live).mp holds)
  obtain ⟨cached, same⟩ := cached_of_ok performed passless answered
  simp only [unambiguous, performed, decide_eq_true_eq] at clear
  obtain ⟨apart, recorded⟩ := clear passless
  rw [find_eq] at same
  cases record : (Kdesud.after fds es).repo.stored (commandKey 2 h command user) with
  | none =>
    rw [record] at same
    have bare : keptEnv env = [] := by
      cases kept : keptEnv env with
      | nil => rfl
      | cons f fs => simp [kept] at same
    exact absurd record (recorded bare cached)
  | some e =>
    obtain ⟨m, member, fd', h', sys', command', user', options', env', performed', holds, key,
      value⟩ := recordsGranted_run fds es _ e (makeKey_inNamespace 2 _ _ _) record
    have granted : grantedTarget (acted m) = some (target h' command' user' env') := by
      simp only [performed', grantedTarget, if_neg holds]
    have joined : fenced asterisk (keptEnv env') = fenced asterisk (keptEnv env) := by
      rw [← envCheck_data, ← same, record, Option.bind_some, value]
    have texts : (target h' command' user' env').texts = (target h command user env).texts :=
      Prod.ext key.symm joined
    exact ⟨m, member, granted.trans (congrArg some (apart m member _ granted texts))⟩

def twoSessions (exec : Bytes) : List Event :=
  [.accept 6 1000 0, .command 6 (ascii "PASS pw 60\n") ⟨1000, 100, 100, none⟩,
    .command 6 exec ⟨1000, 101, 101, some 77⟩, .accept 7 1000 0]

def secondSession : ConnectionHandler := .new 7 1000 0

def secondCalls : SysCalls := ⟨1000, 102, 102, some 78⟩

private theorem secondSession_unsent (exec : Bytes)
    (live : (Kdesud.after .lowest (twoSessions exec)).handlerAt 7 = some secondSession) :
    ¬SentPass 7 (Kdesud.past .lowest (twoSessions exec)) := fun sent =>
  (holds_pass_iff .lowest (twoSessions exec) live).mpr sent rfl

theorem cached_password_reuse_twoSessions :
    ∃ m ∈ Kdesud.past .lowest (twoSessions (ascii "EXEC ls root\n")),
      grantedTarget (acted m) = some (target secondSession (ascii "ls") (ascii "root") []) :=
  cached_password_reuse .lowest (twoSessions (ascii "EXEC ls root\n"))
    (.command 7 (ascii "EXEC ls root\n") secondCalls) (by decide +kernel)
    7 secondSession secondCalls (ascii "ls") (ascii "root") [] [] (by decide +kernel)
    (secondSession_unsent _ (by decide +kernel)) (by decide +kernel)

/-- A password for the command `b*c` as `a` is reused for `c` as `a*b`. -/
theorem password_reused_for_other_command : ¬∀ fds es ev,
    ReusesRightly (Kdesud.past fds es) ⟨Kdesud.after fds es, ev⟩ := by
  intro rightly
  have granted := rightly .lowest (twoSessions (ascii "EXEC b*c a\n"))
    (.command 7 (ascii "EXEC c a*b\n") secondCalls) 7 secondSession secondCalls (ascii "c")
    (ascii "a*b") [] [] (by decide +kernel) (secondSession_unsent _ (by decide +kernel))
    (by decide +kernel)
  exact absurd granted (by decide +kernel)

/-- The moment is an EXEC that stores this password and this environment for a command. -/
def StoresPassword (host account command : Bytes) (env : List Bytes) (password : QByteArray)
    (m : Moment Kdesud Event) : Prop :=
  ∃ fd h sys user options, acted m = .perform fd h sys (.exec command user options env) ∧
    Caches h m.before.repo command user env ∧ h.m_Host = host ∧ authUser h user = account ∧
    h.m_Pass = password

def StoresSome (host account command : Bytes) (m : Moment Kdesud Event) : Prop :=
  ∃ env password, StoresPassword host account command env password m

/-- If the password of a command is cached, then the environment is recorded of the EXEC
that stored this password. -/
def Recorded (past : List (Moment Kdesud Event)) (repo : Repository)
    (host account command : Bytes) : Prop :=
  ∀ p, repo.stored (makeKey 0 host account command) = some p →
    ∃ e env, repo.stored (makeKey 2 host account command) = some e ∧ e.value = envCheck env ∧
      Since (StoresPassword host account command env p.value)
        (StoresSome host account command) past

/-- The condition on a step: an expiry that takes a record takes its password too, and so
does a DELS. -/
def KeepsRecords (m : Moment Kdesud Event) : Prop :=
  ∀ host account command p e, asterisk ∉ host → asterisk ∉ account → asterisk ∉ command →
    m.before.repo.stored (makeKey 0 host account command) = some p →
    m.before.repo.stored (makeKey 2 host account command) = some e →
    match acted m with
    | .expire clock => e.timeout ≤ clock % 2 ^ 32 → p.timeout ≤ clock % 2 ^ 32
    | .perform _ _ _ (.delSpecialKey key) =>
        key ≠ [] → key <:+: makeKey 2 host account command →
          key <:+: makeKey 0 host account command
    | _ => True

section

variable {d : Kdesud} {ev : Event} {host account command : Bytes}

private theorem namespaces_differ (a b c a' b' c' : Bytes) :
    makeKey 2 a b c ≠ makeKey 0 a' b' c' :=
  ne_makeKey (by decide) (by decide) (by decide) (makeKey_inNamespace 2 a b c) a' b' c'

private theorem ungrouped (grouped : GroupsOfVariables d.repo) {namespac : Int}
    (sign : 0 ≤ namespac) (other : namespac ≠ 1) {e : DataEntry}
    (present : d.repo.stored (makeKey namespac host account command) = some e) :
    e.group = [] := by
  by_contra named
  obtain ⟨name, equal⟩ := grouped _ e present named
  exact commandKey_ne_variableKey namespac sign other host account command name equal

private theorem stored_of_stores {env : List Bytes} {password : QByteArray}
    (stores : StoresPassword host account command env password ⟨d, ev⟩) :
    (∃ p, (step d ev).1.repo.stored (makeKey 0 host account command) = some p ∧
      p.value = password) ∧
    ∃ e, (step d ev).1.repo.stored (makeKey 2 host account command) = some e ∧
      e.value = envCheck env := by
  obtain ⟨fd, h, sys, user, options, performed, caches, rfl, rfl, rfl⟩ := stores
  rw [acted] at performed
  have other := namespaces_differ h.m_Host (authUser h user) command h.m_Host (authUser h user)
    command
  constructor
  · refine ⟨passwordEntry sys h, ?_, rfl⟩
    rw [stored_step, performed]
    simp only [storedAfter]
    rw [if_pos caches, commandKey, if_pos rfl]
  · refine ⟨environmentEntry sys h env, ?_, rfl⟩
    rw [stored_step, performed]
    simp only [storedAfter]
    rw [if_pos caches, commandKey, if_neg other, commandKey, if_pos rfl]

private theorem keepsRecords_iff (grouped : GroupsOfVariables d.repo) :
    KeepsRecords ⟨d, ev⟩ ↔ ∀ host account command p e,
      asterisk ∉ host → asterisk ∉ account → asterisk ∉ command →
      d.repo.stored (makeKey 0 host account command) = some p →
      d.repo.stored (makeKey 2 host account command) = some e →
      Removed (makeKey 2 host account command) e (action d ev) →
        Removed (makeKey 0 host account command) p (action d ev) := by
  rw [KeepsRecords]
  refine forall₅_congr fun host account command p e => ?_
  refine forall₃_congr fun _ _ _ => forall₂_congr fun cached recorded => ?_
  have group := ungrouped grouped (by decide) (by decide) cached
  have group' := ungrouped grouped (by decide) (by decide) recorded
  rw [acted]
  cases action d ev with
  | idle | reap | accept | drop | expire => simp [Removed]
  | perform fd h sys request =>
    cases request
    case delSpecialKey key =>
      simp only [Removed, group, group', List.nil_prefix, true_and, and_imp]
      exact forall_congr' fun named => by simp [named]
    case delGroup name =>
      refine iff_of_true trivial fun removed => ?_
      exact absurd (removed.2.symm.trans group') removed.1
    case delCmd command' user =>
      exact iff_of_true trivial fun removed => absurd removed (namespaces_differ _ _ _ _ _ _)
    case delVar name =>
      refine iff_of_true trivial fun removed => absurd removed ?_
      exact commandKey_ne_variableKey 2 (by decide) (by decide) _ _ _ name
    all_goals exact iff_of_true trivial False.elim

variable (free_host : asterisk ∉ host) (free_account : asterisk ∉ account)
  (free_command : asterisk ∉ command)

include free_host free_account free_command

private theorem stores_of_key {namespac : Int} {fd : Nat} {h : ConnectionHandler}
    {sys : SysCalls} {command' user options : Bytes} {env : List Bytes}
    (performed : action d ev = .perform fd h sys (.exec command' user options env))
    (caches : Caches h d.repo command' user env)
    (key : makeKey namespac host account command = commandKey namespac h command' user) :
    StoresSome host account command ⟨d, ev⟩ := by
  obtain ⟨rfl, rfl, rfl⟩ := makeKey_injective_of_length free_host free_account free_command key
  exact ⟨env, h.m_Pass, fd, h, sys, user, options, performed, caches, rfl, rfl, rfl⟩

private theorem unadded_of_none (none_stored : ¬StoresSome host account command ⟨d, ev⟩)
    {namespac : Int} (ours : namespac = 0 ∨ namespac = 2) (e : DataEntry) :
    ¬Added d.repo (makeKey namespac host account command) e (action d ev) := by
  intro added
  generalize performed : action d ev = a at added
  cases added with
  | password _ _ _ _ _ _ _ caches key =>
    rcases ours with rfl | rfl
    · exact none_stored (stores_of_key free_host free_account free_command performed caches key)
    · exact namespaces_differ _ _ _ _ _ _ key
  | environment _ _ _ _ _ _ _ caches key =>
    rcases ours with rfl | rfl
    · exact namespaces_differ _ _ _ _ _ _ key.symm
    · exact none_stored (stores_of_key free_host free_account free_command performed caches key)
  | set _ _ _ name _ _ _ key =>
    rcases ours with rfl | rfl
    · exact commandKey_ne_variableKey 0 (by decide) (by decide) _ _ _ name key
    · exact commandKey_ne_variableKey 2 (by decide) (by decide) _ _ _ name key

private theorem record_kept (grouped : GroupsOfVariables d.repo) (keeps : KeepsRecords ⟨d, ev⟩)
    (none_stored : ¬StoresSome host account command ⟨d, ev⟩) {p e : DataEntry}
    (cached : d.repo.stored (makeKey 0 host account command) = some p)
    (stays : (step d ev).1.repo.stored (makeKey 0 host account command) = some p)
    (recorded : d.repo.stored (makeKey 2 host account command) = some e) :
    (step d ev).1.repo.stored (makeKey 2 host account command) = some e := by
  have unadded := fun {namespac : Int} (ours : namespac = 0 ∨ namespac = 2) =>
    unadded_of_none free_host free_account free_command none_stored ours
  have together := (keepsRecords_iff grouped).mp keeps host account command p e free_host
    free_account free_command cached recorded
  have kept := ((stored_of_not_added (unadded (Or.inl rfl)) p).mp stays).2
  exact (stored_of_not_added (unadded (Or.inr rfl)) e).mpr ⟨recorded, fun gone =>
    kept (together gone)⟩

end

private theorem recorded_run {fds : Descriptors} {es : List Event}
    (keeps : ∀ m ∈ Kdesud.past fds es, KeepsRecords m) {host account command : Bytes}
    (free_host : asterisk ∉ host) (free_account : asterisk ∉ account)
    (free_command : asterisk ∉ command) :
    Recorded (Kdesud.past fds es) (Kdesud.after fds es).repo host account command := by
  refine (run_induction_under (P := fun past d => GroupsOfVariables d.repo ∧
    Recorded past d.repo host account command) ?_ ?_ es keeps).2
  · refine ⟨fun k e present => ?_, fun p present => ?_⟩
    · cases present
    · cases present
  · rintro past d ev ⟨grouped, ih⟩ kept
    refine ⟨groupsOfVariables_step grouped ev, fun p present => ?_⟩
    simp only [since_snoc]
    by_cases stores : StoresSome host account command ⟨d, ev⟩
    · obtain ⟨env, password, stores⟩ := stores
      obtain ⟨⟨p', cached, rfl⟩, e, recorded, value⟩ := stored_of_stores stores
      rw [cached] at present
      cases present
      exact ⟨e, env, recorded, value, Or.inl stores⟩
    · have cached := (stored_origin present).resolve_right
        (unadded_of_none free_host free_account free_command stores (Or.inl rfl) p)
      obtain ⟨e, env, recorded, value, since⟩ := ih p cached
      have stays := record_kept free_host free_account free_command grouped kept stores cached
        present recorded
      exact ⟨e, env, stays, value, Or.inr ⟨since, stores⟩⟩

private theorem record_lost {d : Kdesud} {ev : Event} (grouped : GroupsOfVariables d.repo)
    (loses : ¬KeepsRecords ⟨d, ev⟩) :
    ∃ host account command, asterisk ∉ host ∧ asterisk ∉ account ∧ asterisk ∉ command ∧
      (step d ev).1.repo.stored (makeKey 0 host account command) ≠ none ∧
      (step d ev).1.repo.stored (makeKey 2 host account command) = none := by
  simp only [keepsRecords_iff grouped, not_forall] at loses
  obtain ⟨host, account, command, p, e, free_host, free_account, free_command, cached, recorded,
    removed, kept⟩ := loses
  have unadded (k : Bytes) (e : DataEntry) : ¬Added d.repo k e (action d ev) :=
    not_added_of_removed removed
  refine ⟨host, account, command, free_host, free_account, free_command, ?_, ?_⟩
  · rw [(stored_of_not_added (unadded _) p).mpr ⟨cached, kept⟩]
    exact Option.some_ne_none p
  · rw [Option.eq_none_iff_forall_not_mem]
    intro e' present
    obtain ⟨before, stays⟩ := (stored_of_not_added (unadded _) e').mp present
    rw [recorded] at before
    cases before
    exact stays removed

/-- Every cached password has the record of the EXEC that stored it, all along a run, exactly
if every step of the run keeps the records. -/
theorem cached_passwords_recorded_iff (fds : Descriptors) (es : List Event) :
    (∀ pre, pre <+: es → ∀ host account command,
      asterisk ∉ host → asterisk ∉ account → asterisk ∉ command →
        Recorded (Kdesud.past fds pre) (Kdesud.after fds pre).repo host account command) ↔
      ∀ m ∈ Kdesud.past fds es, KeepsRecords m := by
  constructor
  · intro recorded m member
    by_contra loses
    obtain ⟨pre, ev, post, rfl, rfl⟩ := mem_history member
    obtain ⟨host, account, command, free_host, free_account, free_command, cached, lost⟩ :=
      record_lost (groupsOfVariables_run fds pre) loses
    rw [← run_snoc] at cached lost
    obtain ⟨p, present⟩ := Option.ne_none_iff_exists'.mp cached
    obtain ⟨e, env, kept, -⟩ := recorded (pre ++ [ev]) ⟨post, by simp⟩ host account command
      free_host free_account free_command p present
    rw [lost] at kept
    cases kept
  · rintro keeps pre ⟨post, rfl⟩ host account command free_host free_account free_command
    refine recorded_run (fun m member => keeps m ?_) free_host free_account free_command
    rw [Kdesud.past, history_append]
    exact List.mem_append_left _ member

def clockReadings : Event → List Nat
  | .expire clock => [clock]
  | .command _ _ sys => [sys.time₁, sys.time₂]
  | _ => []

/-- DELS of a text that only the key of the record holds leaves the password behind. -/
theorem record_deleted_before_password : ¬∀ fds es host account command,
    (es.flatMap clockReadings).Pairwise (· ≤ ·) →
      asterisk ∉ host → asterisk ∉ account → asterisk ∉ command →
      Recorded (Kdesud.past fds es) (Kdesud.after fds es).repo host account command := by
  intro recorded
  let es := twoSessions (ascii "EXEC ls root\n") ++
    [.command 7 (ascii "DELS \"2*\"\n") secondCalls]
  have cached : ((Kdesud.after .lowest es).repo.stored
      (makeKey 0 [] (ascii "root") (ascii "ls"))).isSome = true := by decide +kernel
  have lost : (Kdesud.after .lowest es).repo.stored
      (makeKey 2 [] (ascii "root") (ascii "ls")) = none := by decide +kernel
  obtain ⟨p, present⟩ := Option.isSome_iff_exists.mp cached
  obtain ⟨e, env, kept, -⟩ := recorded .lowest es [] (ascii "root") (ascii "ls")
    (by decide +kernel) (by decide) (by decide) (by decide) p present
  rw [lost] at kept
  cases kept

end KDESu.Daemon.PasswordCache
