/- KDESu/Daemon/PasswordLifetime
   source: src/kdesud/handler.cpp, src/kdesud/repo.cpp, src/kdesud/kdesud.cpp
   digest: How long commands start on the password of a PASS, from a session or the repository. -/

import KDESu.Daemon.PasswordCache
import KDESu.Daemon.Timeouts

set_option autoImplicit false
set_option relaxedAutoImplicit false

namespace KDESu.Daemon.PasswordLifetime

open KDESu.ByteArrays
open KDESu.Library.Histories
open KDESu.Daemon.Repositories (DataEntry Repository unsignedMax)
open KDESu.Daemon.Repositories.Repository
open KDESu.Daemon.Handling
open KDESu.Daemon.Requests
open KDESu.Daemon.EventLoop
open KDESu.Daemon.Entries
open KDESu.Daemon.PasswordCache
open KDESu.Daemon.Timeouts

/-- What a PASS gives, and when. The timeout is the number in its line. -/
structure Grant where
  password : Bytes
  timeout : Nat
  time : Nat
  deriving DecidableEq, Repr

/-- The second from which on the password is no longer valid. -/
def Grant.ends (g : Grant) : Nat := g.time + g.timeout

def Grant.kept (g : Grant) : Int := if g.timeout < 2 ^ 31 then g.timeout else 0

def writtenTimeout : Event → Nat
  | .command _ buf _ => (timeoutDigits buf).elim 0 numeral
  | _ => 0

/-- The PASS behind the password of each session and of each password entry, and the clock that
`expire` read last. -/
structure Ledger where
  session : Nat → Option Grant
  cached : Bytes → Option Grant
  expired : Option Nat

def Ledger.empty : Ledger := ⟨fun _ => none, fun _ => none, none⟩

def Ledger.note (l : Ledger) (m : Moment Kdesud Event) : Ledger :=
  match acted m with
  | .accept fd _ _ => { l with session := Function.update l.session fd none }
  | .expire now => { l with expired := some now }
  | .perform fd _ sys (.pass password _) =>
      { l with session :=
          Function.update l.session fd (some ⟨password, writtenTimeout m.event, sys.time₁⟩) }
  | .perform fd h _ (.exec command user _ env) =>
      if Caches h m.before.repo command user env then
        { l with cached := Function.update l.cached (commandKey 0 h command user) (l.session fd) }
      else l
  | _ => l

def ledger (past : List (Moment Kdesud Event)) : Ledger := past.foldl Ledger.note Ledger.empty

theorem ledger_snoc (past : List (Moment Kdesud Event)) (m : Moment Kdesud Event) :
    ledger (past ++ [m]) = (ledger past).note m := by
  rw [ledger, List.foldl_append]
  rfl

/-- The PASS on whose account an EXEC takes its password: from the session where it caches it,
from the repository where it finds it. -/
def Ledger.source (l : Ledger) (repo : Repository) (fd : Nat) (h : ConnectionHandler)
    (command user : Bytes) (env : List Bytes) : Option Grant :=
  if Caches h repo command user env then l.session fd else l.cached (commandKey 0 h command user)

/-- The moment is an EXEC that starts a command with the password of a PASS. -/
def StartsOn (g : Grant) (past : List (Moment Kdesud Event)) (m : Moment Kdesud Event) : Prop :=
  ∃ fd h sys command user options env child,
    acted m = .perform fd h sys (.exec command user options env) ∧
    (perform sys h m.before.repo (.exec command user options env)).child = some child ∧
    child.pass = g.password ∧
    (ledger past).source m.before.repo fd h command user env = some g

/-- A timeout that the deadlines of the repository can hold. -/
def Grant.Limited (g : Grant) : Prop := 0 < g.timeout ∧ g.ends < 2 ^ 32 - 1

instance limitedDecidable (g : Grant) : Decidable g.Limited := inferInstanceAs (Decidable (_ ∧ _))

/-- A command starts on a PASS only if the last `expire` ran before its time was over. -/
def StartsInTime (past : List (Moment Kdesud Event)) (m : Moment Kdesud Event) : Prop :=
  ∀ g, StartsOn g past m → g.Limited → ∀ s ∈ (ledger past).expired, s < g.ends

/-- The condition on a step: an EXEC that takes the password of its session does so in the second
of the PASS, whose number an int can hold, and the clock that `expire` reads fits 32 bits. -/
def prompt (past : List (Moment Kdesud Event)) (m : Moment Kdesud Event) : Bool :=
  match acted m with
  | .expire now => now < 2 ^ 32
  | .perform fd h sys (.exec command user _ env) =>
      Caches h m.before.repo command user env →
        ∀ g ∈ (ledger past).session fd, g.Limited → g.timeout < 2 ^ 31 ∧ sys.time₂ ≤ g.time
  | _ => true

theorem session_note (l : Ledger) (m : Moment Kdesud Event) (fd : Nat) :
    (l.note m).session fd =
      match acted m with
      | .accept fd' _ _ => if fd = fd' then none else l.session fd
      | .perform fd' _ sys (.pass password _) =>
          if fd = fd' then some ⟨password, writtenTimeout m.event, sys.time₁⟩ else l.session fd
      | _ => l.session fd := by
  simp only [Ledger.note]
  cases acted m with
  | accept => exact Function.update_apply _ _ _ _
  | perform fd' h sys request =>
    cases request
    case pass => exact Function.update_apply _ _ _ _
    case exec =>
      dsimp only
      split_ifs <;> rfl
    all_goals rfl
  | _ => rfl

theorem cached_note (l : Ledger) (m : Moment Kdesud Event) (k : Bytes) :
    (l.note m).cached k =
      match acted m with
      | .perform fd h _ (.exec command user _ env) =>
          if Caches h m.before.repo command user env ∧ k = commandKey 0 h command user then
            l.session fd
          else l.cached k
      | _ => l.cached k := by
  simp only [Ledger.note]
  cases acted m with
  | perform fd h sys request =>
    cases request
    case exec =>
      dsimp only
      split_ifs <;> simp_all
    all_goals rfl
  | _ => rfl

theorem expired_note (l : Ledger) (m : Moment Kdesud Event) :
    (l.note m).expired =
      match acted m with
      | .expire now => some now
      | _ => l.expired := by
  simp only [Ledger.note]
  cases acted m with
  | perform fd h sys request =>
    cases request
    case exec =>
      dsimp only
      split_ifs <;> rfl
    all_goals rfl
  | _ => rfl

structure Accounted (l : Ledger) (d : Kdesud) : Prop where
  session : ∀ fd h, d.handlerAt fd = some h → h.m_Pass = (l.session fd).map Grant.password ∧
    ∀ g ∈ l.session fd, h.m_Timeout = g.kept
  cached : ∀ k e, InNamespace 0 k → d.repo.stored k = some e →
    e.value = (l.cached k).map Grant.password

inductive PasswordStays (d : Kdesud) (k : Bytes) (e : DataEntry) : Action → Prop
  | caches (fd : Nat) (h : ConnectionHandler) (sys : SysCalls) (command user options : Bytes)
      (env : List Bytes) (caches : Caches h d.repo command user env)
      (key : k = commandKey 0 h command user) (entry : e = passwordEntry sys h) :
      PasswordStays d k e (.perform fd h sys (.exec command user options env))
  | kept {a : Action} (stored : d.repo.stored k = some e)
      (elsewhere : ∀ fd h sys command user options env,
        a = .perform fd h sys (.exec command user options env) →
          ¬(Caches h d.repo command user env ∧ k = commandKey 0 h command user))
      (not_due : ∀ now, a = .expire now → now % 2 ^ 32 < e.timeout) : PasswordStays d k e a

theorem password_origin {d : Kdesud} {ev : Event} {k : Bytes} {e : DataEntry}
    (inside : InNamespace 0 k) (present : (step d ev).1.repo.stored k = some e) :
    PasswordStays d k e (action d ev) := by
  have origin := stored_origin present
  rw [stored_step] at present
  generalize action d ev = a at origin present
  by_cases caching : ∃ fd h sys command user options env,
      a = .perform fd h sys (.exec command user options env) ∧
        Caches h d.repo command user env ∧ k = commandKey 0 h command user
  · obtain ⟨fd, h, sys, command, user, options, env, rfl, caches, key⟩ := caching
    simp only [storedAfter, if_pos caches, if_pos key, Option.some.injEq] at present
    exact .caches fd h sys command user options env caches key present.symm
  · refine .kept ?_ ?_ ?_
    · rcases origin with old | added
      · exact old
      · exfalso
        cases added with
        | password fd h sys command user options env caches key _ =>
          exact caching ⟨fd, h, sys, command, user, options, env, rfl, caches, key⟩
        | environment _ _ _ _ _ _ _ _ key _ =>
          exact absurd key (ne_makeKey (by decide) (by decide) (by decide) inside _ _ _)
        | set _ _ _ _ _ _ _ key _ =>
          exact absurd key (ne_makeKey (by decide) (by decide) (by decide) inside _ _ _)
    · intro fd h sys command user options env performed here
      exact caching ⟨fd, h, sys, command, user, options, env, performed, here⟩
    · rintro now rfl
      dsimp only at present
      split_ifs at present with due
      exact Nat.lt_of_not_le fun late => due ⟨e, present, late⟩

section

variable {l : Ledger} {d : Kdesud} {ev : Event}

private theorem cached_of_kept {k : Bytes}
    (elsewhere : ∀ fd h sys command user options env,
      action d ev = .perform fd h sys (.exec command user options env) →
        ¬(Caches h d.repo command user env ∧ k = commandKey 0 h command user)) :
    (l.note ⟨d, ev⟩).cached k = l.cached k := by
  rw [cached_note]
  simp only [acted]
  split
  · rename_i fd h sys command user options env performed
    exact if_neg (elsewhere fd h sys command user options env performed)
  · rfl

private theorem kept_of_pass {fd : Nat} {h : ConnectionHandler} {sys : SysCalls} {password : Bytes}
    {timeout : Int} (performed : action d ev = .perform fd h sys (.pass password timeout)) :
    timeout = (⟨password, writtenTimeout ev, sys.time₁⟩ : Grant).kept := by
  obtain ⟨-, -, buf, rfl, -, read⟩ := of_perform performed
  obtain ⟨digits, written, rfl⟩ := pass_written read
  simp only [Grant.kept, writtenTimeout, written, Option.elim_some, toInt]

private theorem accounted_step (accounted : Accounted l d) (ev : Event) :
    Accounted (l.note ⟨d, ev⟩) (step d ev).1 where
  session fd h' live := by
    have origin := handler_origin live
    rw [session_note]
    simp only [acted]
    generalize performed : action d ev = a at origin
    cases origin with
    | kept before accepted others _ =>
      have held := accounted.session fd h' before
      split
      · rename_i fd' uid uninitialised _
        have other : fd ≠ fd' := fun here => accepted uid uninitialised (here ▸ rfl)
        rw [if_neg other]
        exact held
      · rename_i fd' h sys password timeout _
        have other : fd ≠ fd' := fun here => others h sys (.pass password timeout) (here ▸ rfl)
        rw [if_neg other]
        exact held
      · exact held
    | accepted uid uninitialised new =>
      simp [new, ConnectionHandler.new]
    | performed h sys request before after =>
      have held := accounted.session fd h before
      rw [after]
      cases request
      case pass password timeout => simp [handlerOf, ← kept_of_pass performed]
      case exec => cases (perform sys h d.repo _).child <;> exact held
      all_goals exact held
    | reaped h pid status before _ after =>
      rw [after]
      exact accounted.session fd h before
  cached k e inside present := by
    have origin := password_origin inside present
    generalize performed : action d ev = a at origin
    cases origin with
    | caches fd h sys command user options env caches key entry =>
      have live := (of_perform performed).2.1
      rw [cached_note]
      simp only [acted, performed]
      rw [if_pos ⟨caches, key⟩, entry]
      exact (accounted.session fd h live).1
    | kept stored elsewhere _ =>
      rw [cached_of_kept (performed ▸ elsewhere)]
      exact accounted.cached k e inside stored

/-- The password entries with a limited PASS behind them end with it, and were not due when
`expire` ran last. -/
def Timely (l : Ledger) (repo : Repository) : Prop :=
  ∀ k e g, InNamespace 0 k → repo.stored k = some e → l.cached k = some g → g.Limited →
    e.timeout ≤ g.ends ∧ ∀ s ∈ l.expired, s < e.timeout

def ClockRuns (l : Ledger) (ev : Event) : Prop := ∀ s ∈ l.expired, ∀ r ∈ clockReadings ev, s ≤ r

private theorem deadline_of_fits {g : Grant} (positive : 0 < g.timeout)
    (held : g.timeout < 2 ^ 31) {time : Nat} (fits : time + g.timeout < 2 ^ 32) :
    deadline (unsigned g.kept) time = time + g.timeout := by
  have same : unsigned g.kept = g.timeout := by
    rw [unsigned, Grant.kept, if_pos held]
    omega
  rw [same, deadline, if_neg (by omega), Nat.mod_eq_of_lt (by omega), Nat.add_comm]

private theorem prompt_exec {past : List (Moment Kdesud Event)} {fd : Nat}
    {h : ConnectionHandler} {sys : SysCalls} {command user options : Bytes} {env : List Bytes}
    {g : Grant} (prompted : prompt past ⟨d, ev⟩ = true)
    (performed : action d ev = .perform fd h sys (.exec command user options env))
    (caches : Caches h d.repo command user env) (granted : (ledger past).session fd = some g)
    (limited : g.Limited) : g.timeout < 2 ^ 31 ∧ sys.time₂ ≤ g.time := by
  simp only [prompt, acted, performed, decide_eq_true_eq] at prompted
  exact prompted caches g granted limited

private theorem clock_perform {fd : Nat} {h : ConnectionHandler} {sys : SysCalls}
    {request : Request} (clock : ClockRuns l ev)
    (performed : action d ev = .perform fd h sys request) {s : Nat} (expired : l.expired = some s) :
    s ≤ sys.time₂ := by
  obtain ⟨-, -, buf, rfl, -⟩ := of_perform performed
  exact clock s expired sys.time₂ (by simp [clockReadings])

private theorem timely_step {past : List (Moment Kdesud Event)}
    (accounted : Accounted (ledger past) d) (timely : Timely (ledger past) d.repo)
    (prompted : prompt past ⟨d, ev⟩ = true) (clock : ClockRuns (ledger past) ev) :
    Timely ((ledger past).note ⟨d, ev⟩) (step d ev).1.repo := by
  intro k e g inside present cached limited
  have origin := password_origin inside present
  generalize performed : action d ev = a at origin
  cases origin with
  | caches fd h sys command user options env caches key entry =>
    have live := (of_perform performed).2.1
    rw [cached_note] at cached
    simp only [acted, performed] at cached
    rw [if_pos ⟨caches, key⟩] at cached
    obtain ⟨held, early⟩ := prompt_exec prompted performed caches cached limited
    obtain ⟨positive, bounded⟩ := limited
    rw [Grant.ends] at bounded ⊢
    have timeout : e.timeout = sys.time₂ + g.timeout := by
      rw [entry, passwordEntry, (accounted.session fd h live).2 g cached]
      exact deadline_of_fits positive held (by omega)
    refine ⟨by omega, ?_⟩
    intro s expired
    rw [expired_note] at expired
    simp only [acted, performed] at expired
    have earlier := clock_perform clock performed expired
    omega
  | kept stored elsewhere not_due =>
    rw [cached_of_kept (performed ▸ elsewhere)] at cached
    obtain ⟨ends, before⟩ := timely k e g inside stored cached limited
    refine ⟨ends, ?_⟩
    rw [expired_note]
    simp only [acted, performed]
    cases a with
    | expire now =>
      simp only [prompt, acted, performed, decide_eq_true_eq] at prompted
      have later := not_due now rfl
      rw [Nat.mod_eq_of_lt prompted] at later
      intro s expired
      cases expired
      exact later
    | _ => exact before

theorem cachedPass_eq_some {h : ConnectionHandler} {repo : Repository} {command user : Bytes}
    {env : List Bytes} {other : Bytes} :
    cachedPass h repo command user (envCheck env) = some other ↔
      (repo.find (commandKey 2 h command user)).data = (envCheck env).data ∧
        repo.find (commandKey 0 h command user) = some other := by
  simp only [cachedPass, QByteArray.eq_iff, commandKey]
  split_ifs with same
  · simp [same]
  · simp [same]

theorem pass_of_child {sys : SysCalls} {h : ConnectionHandler} {repo : Repository}
    {command user options : Bytes} {env : List Bytes} {child : Child}
    (started : (perform sys h repo (.exec command user options env)).child = some child) :
    if Caches h repo command user env then h.m_Pass = some child.pass
    else ∃ e, repo.stored (commandKey 0 h command user) = some e ∧ e.value = some child.pass := by
  have pass := pass_of_started started
  split_ifs with caches
  · rwa [caches.1, Option.none_or] at pass
  · cases found : cachedPass h repo command user (envCheck env) with
    | none =>
      rw [found, Option.none_or] at pass
      exact absurd ⟨found, by simp [pass]⟩ caches
    | some other =>
      rw [found, Option.some_or] at pass
      have stored := (cachedPass_eq_some.mp (found.trans pass)).2
      rwa [find_eq, Option.bind_eq_some_iff] at stored

private theorem startsInTime_of_timely {past : List (Moment Kdesud Event)}
    (timely : Timely (ledger past) d.repo) (prompted : prompt past ⟨d, ev⟩ = true)
    (clock : ClockRuns (ledger past) ev) : StartsInTime past ⟨d, ev⟩ := by
  rintro g ⟨fd, h, sys, command, user, options, env, child, performed, started, -, source⟩ limited
    s expired
  have held := pass_of_child started
  simp only [Ledger.source] at source
  split_ifs at held source with caches
  · obtain ⟨-, early⟩ := prompt_exec prompted performed caches source limited
    have earlier := clock_perform clock performed expired
    have positive := limited.1
    rw [Grant.ends]
    omega
  · obtain ⟨e, stored, -⟩ := held
    obtain ⟨ends, before⟩ :=
      timely _ e g (makeKey_inNamespace 0 _ _ _) stored source limited
    have later := before s expired
    omega

end

private theorem event_of_expire {d : Kdesud} {ev : Event} {now : Nat}
    (expired : action d ev = .expire now) : ev = .expire now := by
  simp only [action] at expired
  split_ifs at expired
  cases ev with
  | expire => exact congrArg Event.expire (Action.expire.inj expired)
  | command fd buf sys =>
    dsimp only at expired
    split at expired
    · cases expired
    · simp only [commandAction] at expired
      split_ifs at expired
      split at expired <;> cases expired
  | hangup fd =>
    dsimp only at expired
    split at expired <;> cases expired
  | _ => cases expired

private theorem expired_mem (fds : Descriptors) (es : List Event) {s : Nat}
    (expired : (ledger (Kdesud.past fds es)).expired = some s) :
    s ∈ es.flatMap clockReadings := by
  induction es using List.reverseRecOn with
  | nil => cases expired
  | append_singleton es ev ih =>
    rw [Kdesud.past, history_snoc, ledger_snoc, expired_note] at expired
    rw [List.flatMap_append, List.mem_append]
    split at expired
    · rename_i now acts
      obtain rfl := Option.some.inj expired
      obtain rfl := event_of_expire acts
      exact Or.inr (by simp [clockReadings])
    · exact Or.inl (ih expired)

private theorem clockRuns_of_ordered {fds : Descriptors} {es : List Event} {ev : Event}
    (ordered : ((es ++ [ev]).flatMap clockReadings).Pairwise (· ≤ ·)) :
    ClockRuns (ledger (Kdesud.past fds es)) ev := by
  intro s expired r reading
  rw [List.flatMap_append, List.pairwise_append] at ordered
  exact ordered.2.2 s (expired_mem fds es expired) r (by simpa using reading)

private theorem pairwise_of_front {pre es : List Event} (front : pre <+: es)
    (ordered : (es.flatMap clockReadings).Pairwise (· ≤ ·)) :
    (pre.flatMap clockReadings).Pairwise (· ≤ ·) := by
  obtain ⟨post, rfl⟩ := front
  rw [List.flatMap_append, List.pairwise_append] at ordered
  exact ordered.1

theorem accounted_run (fds : Descriptors) (es : List Event) :
    Accounted (ledger (Kdesud.past fds es)) (Kdesud.after fds es) := by
  refine run_induction (P := fun past d => Accounted (ledger past) d) ?_ ?_ es
  · refine ⟨fun fd h live => ?_, fun k e _ present => ?_⟩
    · cases live
    · cases present
  · intro past d ev accounted
    rw [ledger_snoc]
    exact accounted_step accounted ev

/-- Every command that is started in a run is started on a PASS. -/
theorem starts_on_pass (fds : Descriptors) (es : List Event) {ev : Event} {fd : Nat}
    {h : ConnectionHandler} {sys : SysCalls} {command user options : Bytes} {env : List Bytes}
    {child : Child}
    (performed : action (Kdesud.after fds es) ev =
      .perform fd h sys (.exec command user options env))
    (started : (perform sys h (Kdesud.after fds es).repo (.exec command user options env)).child =
      some child) :
    ∃ g, StartsOn g (Kdesud.past fds es) ⟨Kdesud.after fds es, ev⟩ := by
  have accounted := accounted_run fds es
  have held := pass_of_child started
  have given : ∃ g, (ledger (Kdesud.past fds es)).source (Kdesud.after fds es).repo fd h command
      user env = some g ∧ g.password = child.pass := by
    simp only [Ledger.source]
    split_ifs at held ⊢
    · rw [(accounted.session fd h (of_perform performed).2.1).1] at held
      exact Option.map_eq_some_iff.mp held
    · obtain ⟨e, stored, value⟩ := held
      rw [accounted.cached _ e (makeKey_inNamespace 0 _ _ _) stored] at value
      exact Option.map_eq_some_iff.mp value
  obtain ⟨g, source, password⟩ := given
  exact ⟨g, fd, h, sys, command, user, options, env, child, performed, started, password.symm,
    source⟩

/-- An EXEC that takes the password of its session in a later second, or one whose number an int
cannot hold, caches it beyond its time. -/
theorem cached_past_its_time (fds : Descriptors) (es : List Event) {ev : Event} {fd : Nat}
    {h : ConnectionHandler} {sys : SysCalls} {command user options : Bytes} {env : List Bytes}
    {g : Grant}
    (performed : action (Kdesud.after fds es) ev =
      .perform fd h sys (.exec command user options env))
    (caches : Caches h (Kdesud.after fds es).repo command user env)
    (granted : (ledger (Kdesud.past fds es)).session fd = some g) (limited : g.Limited)
    (late : g.timeout < 2 ^ 31 → g.time < sys.time₂) (fits : sys.time₂ + g.timeout < 2 ^ 32) :
    ∃ e, (step (Kdesud.after fds es) ev).1.repo.stored (commandKey 0 h command user) = some e ∧
      g.ends < e.timeout := by
  have live := (of_perform performed).2.1
  obtain ⟨positive, bounded⟩ := limited
  refine ⟨passwordEntry sys h, ?_, ?_⟩
  · rw [stored_step, performed]
    simp only [storedAfter, if_pos caches, if_true]
  · rw [passwordEntry, ((accounted_run fds es).session fd h live).2 g granted]
    by_cases held : g.timeout < 2 ^ 31
    · have later := late held
      rw [deadline_of_fits positive held fits, Grant.ends]
      exact Nat.add_lt_add_right later _
    · have never : deadline (unsigned g.kept) sys.time₂ = unsignedMax := by
        rw [Grant.kept, if_neg held]
        rfl
      rw [never]
      exact bounded

private theorem timely_run {fds : Descriptors} {es : List Event}
    (ordered : (es.flatMap clockReadings).Pairwise (· ≤ ·))
    (prompted : ∀ pre e, pre ++ [e] <+: es →
      prompt (Kdesud.past fds pre) ⟨Kdesud.after fds pre, e⟩ = true) :
    Timely (ledger (Kdesud.past fds es)) (Kdesud.after fds es).repo := by
  refine (run_induction_along (P := fun past d => Accounted (ledger past) d ∧
    Timely (ledger past) d.repo) (C := fun past m => prompt past m = true ∧
      ClockRuns (ledger past) m.event) ?_ ?_ es ?_).2
  · exact ⟨accounted_run fds [], fun k e g _ present => by cases present⟩
  · rintro past d ev ⟨accounted, timely⟩ ⟨prompted, clock⟩
    rw [ledger_snoc]
    exact ⟨accounted_step accounted ev, timely_step accounted timely prompted clock⟩
  · intro pre e front
    exact ⟨prompted pre e front, clockRuns_of_ordered (pairwise_of_front front ordered)⟩

/-- While every EXEC that takes the password of its session follows the PASS in the same second,
no command starts on a PASS whose time was over when `expire` ran. -/
theorem passwords_start_in_time (fds : Descriptors) (es : List Event) (ev : Event)
    (ordered : ((es ++ [ev]).flatMap clockReadings).Pairwise (· ≤ ·))
    (prompted : ∀ pre e, pre ++ [e] <+: es ++ [ev] →
      prompt (Kdesud.past fds pre) ⟨Kdesud.after fds pre, e⟩ = true) :
    StartsInTime (Kdesud.past fds es) ⟨Kdesud.after fds es, ev⟩ := by
  have front := List.prefix_append es [ev]
  exact startsInTime_of_timely
    (timely_run (pairwise_of_front front ordered) fun pre e before =>
      prompted pre e (before.trans front))
    (prompted es ev (List.prefix_refl _)) (clockRuns_of_ordered ordered)

def promptSession : List Event :=
  [.accept 6 1000 0, .expire 100, .command 6 (ascii "PASS pw 60\n") ⟨1000, 100, 100, none⟩,
    .command 6 (ascii "EXEC ls root\n") ⟨1000, 100, 100, some 77⟩, .accept 7 1000 0, .expire 159]

theorem passwords_start_in_time_promptSession :
    StartsInTime (Kdesud.past .lowest promptSession)
      ⟨Kdesud.after .lowest promptSession,
        .command 7 (ascii "EXEC ls root\n") ⟨1000, 159, 159, some 78⟩⟩ :=
  passwords_start_in_time .lowest promptSession _ (by decide +kernel)
    (forall_front_of_get (by decide +kernel))

/-- A minute after a PASS for a minute, an EXEC still starts on the session's password. -/
theorem password_used_past_its_time : ¬∀ fds es ev,
    ((es ++ [ev]).flatMap clockReadings).Pairwise (· ≤ ·) →
      StartsInTime (Kdesud.past fds es) ⟨Kdesud.after fds es, ev⟩ := by
  intro always
  let es : List Event := [.accept 6 1000 0,
    .command 6 (ascii "PASS pw 60\n") ⟨1000, 100, 100, none⟩, .expire 160]
  let sys : SysCalls := ⟨1000, 160, 160, some 77⟩
  let h : ConnectionHandler :=
    { ConnectionHandler.new 6 1000 0 with m_Pass := some (ascii "pw"), m_Timeout := 60 }
  have late := always .lowest es (.command 6 (ascii "EXEC ls root\n") sys) (by decide +kernel)
    ⟨ascii "pw", 60, 100⟩ ⟨6, h, sys, ascii "ls", ascii "root", [], [],
      ⟨77, .su (ascii "ls") (ascii "root") false 50 0 [], ascii "pw"⟩, by decide +kernel,
      by decide +kernel, rfl, by decide +kernel⟩ (by decide +kernel) 160 (by decide +kernel)
  exact absurd late (by decide +kernel)

end KDESu.Daemon.PasswordLifetime
