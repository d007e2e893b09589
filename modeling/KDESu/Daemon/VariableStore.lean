/- KDESu/Daemon/VariableStore
   source: src/kdesud/handler.cpp, src/kdesud/repo.cpp, src/kdesud/kdesud.cpp
   digest: The variables as an expiring map over whole runs, and their distance to passwords. -/

import KDESu.Daemon.Entries

set_option autoImplicit false
set_option relaxedAutoImplicit false

namespace KDESu.Daemon.VariableStore

open KDESu.ByteArrays
open KDESu.Library.Histories
open KDESu.Daemon.Repositories (DataEntry Repository unsignedMax)
open KDESu.Daemon.Repositories.Repository
open KDESu.Daemon.Handling
open KDESu.Daemon.Requests
open KDESu.Daemon.EventLoop
open KDESu.Daemon.Entries

def SetsVariable (name value group : Bytes) (timeout : Int) (now : Nat)
    (m : Moment Kdesud Event) : Prop :=
  ∃ fd h sys, acted m = .perform fd h sys (.set name value group timeout) ∧ sys.time₁ = now

/-- The moment affects a variable last SET with this group and timeout at `now`. -/
def AffectsVariable (name group : Bytes) (timeout : Int) (now : Nat)
    (m : Moment Kdesud Event) : Prop :=
  match acted m with
  | .expire clock => 0 < timeout ∧ now + timeout ≤ clock
  | .perform _ _ _ (.set name' _ _ _) => name' = name
  | .perform _ _ _ (.delVar name') => name' = name
  | .perform _ _ _ (.delGroup group') => group' ≠ [] ∧ group' = group
  | .perform _ _ _ (.delSpecialKey key) => key ≠ [] ∧ group <+: key ∧ key <:+: variableKey name
  | _ => False

/-- The latest event of a run that affected the variable was this SET. -/
def LastSet (name value group : Bytes) (timeout : Int) (now : Nat)
    (past : List (Moment Kdesud Event)) : Prop :=
  Since (SetsVariable name value group timeout now) (AffectsVariable name group timeout now) past

def clockBelow : Action → Bool
  | .expire clock => clock < unsignedMax
  | .perform _ _ sys (.set _ _ _ timeout) => sys.time₁ + timeout < unsignedMax
  | _ => true

theorem stored_of_set {d : Kdesud} {ev : Event} {name value group : Bytes}
    {timeout : Int} {now : Nat} (sets : SetsVariable name value group timeout now ⟨d, ev⟩) :
    (step d ev).1.repo.stored (variableKey name) =
      some ⟨some value, group, deadline (unsigned timeout) now⟩ := by
  obtain ⟨fd, h, sys, performed, rfl⟩ := sets
  rw [acted] at performed
  rw [stored_step, performed]
  simp only [storedAfter, if_true, variableEntry]

private theorem stored_of_not_set {d : Kdesud} {ev : Event} {name : Bytes}
    (other : ∀ value group timeout now, ¬SetsVariable name value group timeout now ⟨d, ev⟩)
    (e : DataEntry) :
    (step d ev).1.repo.stored (variableKey name) = some e ↔
      d.repo.stored (variableKey name) = some e ∧
        ¬Removed (variableKey name) e (action d ev) := by
  refine stored_of_not_added (fun e added => ?_) e
  generalize performed : action d ev = a at added
  cases added with
  | password _ _ _ _ _ _ _ _ key =>
    exact commandKey_ne_variableKey 0 (by decide) (by decide) _ _ _ name key.symm
  | environment _ _ _ _ _ _ _ _ key =>
    exact commandKey_ne_variableKey 2 (by decide) (by decide) _ _ _ name key.symm
  | set fd h sys name' value group timeout key =>
    obtain rfl := variableKey_injective key
    exact other value group timeout sys.time₁ ⟨fd, h, sys, performed, rfl⟩

private theorem deadline_le_iff {timeout : Int} {now clock : Nat} (sign : 0 ≤ timeout)
    (below : now + timeout < unsignedMax) (early : clock < unsignedMax) :
    deadline (unsigned timeout) now ≤ clock % 2 ^ 32 ↔ 0 < timeout ∧ now + timeout ≤ clock := by
  simp only [unsignedMax] at below early
  have length : unsigned timeout = timeout.toNat := by
    rw [unsigned, Int.emod_eq_of_lt sign (by omega)]
  rw [deadline, length, unsignedMax]
  by_cases zero : timeout.toNat = 0
  · rw [if_pos zero]
    omega
  · rw [if_neg zero]
    omega

/-- The timeouts and clock readings in the domain of the store. -/
def InRange (timeout : Int) (now : Nat) : Prop :=
  0 ≤ timeout ∧ now + timeout < unsignedMax

private theorem inRange_of_set {m : Moment Kdesud Event} {name value group : Bytes}
    {timeout : Int} {now : Nat} (sets : SetsVariable name value group timeout now m)
    (below : clockBelow (acted m) = true) : InRange timeout now := by
  obtain ⟨fd, h, sys, performed, rfl⟩ := sets
  obtain ⟨-, -, buf, -, -, read⟩ := of_perform performed
  rw [performed] at below
  exact ⟨(set_timeout_range read).1, by simpa [clockBelow] using below⟩

private theorem affects_of_set {m : Moment Kdesud Event} {name value group group' : Bytes}
    {timeout timeout' : Int} {now now' : Nat}
    (sets : SetsVariable name value group timeout now m) :
    AffectsVariable name group' timeout' now' m := by
  obtain ⟨fd, h, sys, performed, -⟩ := sets
  simp only [AffectsVariable, performed]

private theorem set_unique {m : Moment Kdesud Event} {name value group value' group' : Bytes}
    {timeout timeout' : Int} {now now' : Nat}
    (sets : SetsVariable name value group timeout now m)
    (sets' : SetsVariable name value' group' timeout' now' m) :
    value' = value ∧ group' = group ∧ timeout' = timeout ∧ now' = now := by
  obtain ⟨fd, h, sys, performed, rfl⟩ := sets
  obtain ⟨fd', h', sys', performed', rfl⟩ := sets'
  rw [performed] at performed'
  cases performed'
  exact ⟨rfl, rfl, rfl, rfl⟩

private theorem removed_iff_affects {d : Kdesud} {ev : Event} {name value group : Bytes}
    {timeout : Int} {now : Nat}
    (other : ∀ value group timeout now, ¬SetsVariable name value group timeout now ⟨d, ev⟩)
    (range : InRange timeout now) (below : clockBelow (action d ev) = true) :
    Removed (variableKey name) ⟨some value, group, deadline (unsigned timeout) now⟩
        (action d ev) ↔
      AffectsVariable name group timeout now ⟨d, ev⟩ := by
  simp only [SetsVariable, acted, AffectsVariable] at other ⊢
  cases performed : action d ev with
  | idle | reap | accept | drop => exact Iff.rfl
  | expire clock =>
    simp only [performed, clockBelow, decide_eq_true_eq] at below
    exact deadline_le_iff range.1 range.2 below
  | perform fd h sys request =>
    cases request
    case set name' value' group' timeout' =>
      refine iff_of_false id ?_
      rintro rfl
      exact other value' group' timeout' sys.time₁ ⟨fd, h, sys, performed, rfl⟩
    case delCmd command user =>
      refine iff_of_false (fun key => ?_) id
      exact commandKey_ne_variableKey 0 (by decide) (by decide) _ _ _ name key.symm
    case delVar name' =>
      exact ⟨fun same => (variableKey_injective same).symm, fun same => same ▸ rfl⟩
    case delGroup group' => exact and_congr_right fun _ => eq_comm
    all_goals exact Iff.rfl

theorem variable_stored_iff (fds : Descriptors) (es : List Event)
    (below : ∀ m ∈ Kdesud.past fds es, clockBelow (acted m) = true)
    (name : Bytes) (e : DataEntry) :
    (Kdesud.after fds es).repo.stored (variableKey name) = some e ↔
      ∃ value group timeout now, e = ⟨some value, group, deadline (unsigned timeout) now⟩ ∧
        InRange timeout now ∧
        LastSet name value group timeout now (Kdesud.past fds es) := by
  refine run_induction_under (C := fun m => clockBelow (acted m) = true)
    (P := fun past d => ∀ e, d.repo.stored (variableKey name) = some e ↔
      ∃ value group timeout now, e = ⟨some value, group, deadline (unsigned timeout) now⟩ ∧
        InRange timeout now ∧ LastSet name value group timeout now past) ?_ ?_ es below e
  · intro e
    simp [LastSet, Kdesud.new, Repository.stored, Repository.new]
  · intro past d ev ih low e
    simp only [LastSet, since_snoc] at ih ⊢
    by_cases sets : ∃ value group timeout now, SetsVariable name value group timeout now ⟨d, ev⟩
    · obtain ⟨value, group, timeout, now, sets⟩ := sets
      rw [stored_of_set sets, Option.some.injEq]
      constructor
      · rintro rfl
        exact ⟨value, group, timeout, now, rfl, inRange_of_set sets low, Or.inl sets⟩
      · rintro ⟨value', group', timeout', now', rfl, -, sets' | ⟨-, quiet⟩⟩
        · obtain ⟨rfl, rfl, rfl, rfl⟩ := set_unique sets sets'
          rfl
        · exact absurd (affects_of_set sets) quiet
    · simp only [not_exists] at sets
      rw [stored_of_not_set sets e, ih e]
      constructor
      · rintro ⟨⟨value, group, timeout, now, rfl, range, last⟩, kept⟩
        rw [removed_iff_affects sets range low] at kept
        exact ⟨value, group, timeout, now, rfl, range, Or.inr ⟨last, kept⟩⟩
      · rintro ⟨value, group, timeout, now, rfl, range, fresh | ⟨last, quiet⟩⟩
        · exact absurd fresh (sets value group timeout now)
        · rw [removed_iff_affects sets range low]
          exact ⟨⟨value, group, timeout, now, rfl, range, last⟩, quiet⟩

private theorem variable_stored_of_last {fds : Descriptors} {es : List Event}
    (below : ∀ m ∈ Kdesud.past fds es, clockBelow (acted m) = true) {name value group : Bytes}
    {timeout : Int} {now : Nat}
    (last : LastSet name value group timeout now (Kdesud.past fds es)) :
    (Kdesud.after fds es).repo.stored (variableKey name) =
      some ⟨some value, group, deadline (unsigned timeout) now⟩ := by
  obtain ⟨m, member, sets⟩ := last.exists_mem
  exact (variable_stored_iff fds es below name _).mpr
    ⟨value, group, timeout, now, rfl, inRange_of_set sets (below m member), last⟩

theorem get_sent {d : Kdesud} {ev : Event} {fd : Nat} {h : ConnectionHandler} {sys : SysCalls}
    {name : Bytes} (performed : action d ev = .perform fd h sys (.get name)) :
    (step d ev).2 =
      (deliver h d.repo
        (QByteArray.data ((d.repo.stored (variableKey name)).bind DataEntry.value))).sent.map
        (fd, ·) := by
  rw [replies_step, performed]
  simp only [repliesOf, perform, find_eq]
  rfl

private theorem get_replies {fds : Descriptors} {es : List Event}
    (below : ∀ m ∈ Kdesud.past fds es, clockBelow (acted m) = true) {ev : Event} {fd : Nat}
    {h : ConnectionHandler} {sys : SysCalls} {name : Bytes}
    (performed : action (Kdesud.after fds es) ev = .perform fd h sys (.get name))
    (value : Bytes) :
    (step (Kdesud.after fds es) ev).2 = [(fd, .respond .Res_OK value)] ↔
      value ≠ [] ∧ ∃ group timeout now,
        LastSet name value group timeout now (Kdesud.past fds es) := by
  rw [get_sent performed, deliver]
  constructor
  · intro answered
    cases present : (Kdesud.after fds es).repo.stored (variableKey name) with
    | none => simp [present, answer] at answered
    | some e =>
      obtain ⟨v, group, timeout, now, rfl, -, last⟩ :=
        (variable_stored_iff fds es below name e).mp present
      simp only [present, Option.bind_some, QByteArray.data_some] at answered
      split_ifs at answered with empty
      · simp [answer] at answered
      · obtain rfl : v = value := by simpa [answer] using answered
        exact ⟨empty, group, timeout, now, last⟩
  · rintro ⟨filled, group, timeout, now, last⟩
    rw [variable_stored_of_last below last]
    simp [filled, answer]

private theorem chkGroup_replies {fds : Descriptors} {es : List Event}
    (below : ∀ m ∈ Kdesud.past fds es, clockBelow (acted m) = true) {ev : Event} {fd : Nat}
    {h : ConnectionHandler} {sys : SysCalls} {group : Bytes}
    (performed : action (Kdesud.after fds es) ev = .perform fd h sys (.chkGroup group)) :
    (step (Kdesud.after fds es) ev).2 = [(fd, .respond .Res_OK [])] ↔
      group ≠ [] ∧ ∃ name value timeout now,
        LastSet name value group timeout now (Kdesud.past fds es) := by
  have answered : (step (Kdesud.after fds es) ev).2 = [(fd, .respond .Res_OK [])] ↔
      (Kdesud.after fds es).repo.hasGroup group = 0 := by
    rw [replies_step, performed]
    simp only [repliesOf, perform, report, answer, hasGroup]
    by_cases found : group ≠ [] ∧
        (Kdesud.after fds es).repo.repo.entries.any (fun e => e.2.group == group) = true
    · simp [found]
    · simp [if_neg found]
  rw [answered, hasGroup_eq_zero]
  refine and_congr_right fun named => ?_
  constructor
  · rintro ⟨k, e, present, rfl⟩
    obtain ⟨name, rfl⟩ := groupsOfVariables_run fds es k e present named
    obtain ⟨value, group, timeout, now, rfl, -, last⟩ :=
      (variable_stored_iff fds es below name e).mp present
    exact ⟨name, value, timeout, now, last⟩
  · rintro ⟨name, value, timeout, now, last⟩
    exact ⟨variableKey name, _, variable_stored_of_last below last, rfl⟩

private theorem variable_unchanged {fds : Descriptors} {es : List Event}
    (below : ∀ m ∈ Kdesud.past fds es, clockBelow (acted m) = true) {ev : Event}
    (low : clockBelow (action (Kdesud.after fds es) ev) = true) {name : Bytes}
    (unset : ∀ value group timeout now,
      ¬SetsVariable name value group timeout now ⟨Kdesud.after fds es, ev⟩)
    (quiet : ∀ value group timeout now,
      LastSet name value group timeout now (Kdesud.past fds es) →
        ¬AffectsVariable name group timeout now ⟨Kdesud.after fds es, ev⟩) :
    (step (Kdesud.after fds es) ev).1.repo.stored (variableKey name) =
      (Kdesud.after fds es).repo.stored (variableKey name) := by
  apply Option.ext
  intro e
  rw [stored_of_not_set unset]
  refine and_iff_left_of_imp fun present => ?_
  obtain ⟨value, group, timeout, now, rfl, range, last⟩ :=
    (variable_stored_iff fds es below name e).mp present
  rw [removed_iff_affects unset range low]
  exact quiet value group timeout now last

/-- Over every run the variables are an expiring map: GET and CHKG answer what the history
of the run says, and an event changes no variable but those it sets or affects. -/
theorem variables_are_expiring_map (fds : Descriptors) (es : List Event) (ev : Event)
    (below : ∀ m ∈ Kdesud.past fds (es ++ [ev]), clockBelow (acted m) = true) :
    (∀ fd h sys name, action (Kdesud.after fds es) ev = .perform fd h sys (.get name) →
      ∀ value, (step (Kdesud.after fds es) ev).2 = [(fd, .respond .Res_OK value)] ↔
        value ≠ [] ∧ ∃ group timeout now,
          LastSet name value group timeout now (Kdesud.past fds es)) ∧
    (∀ fd h sys group, action (Kdesud.after fds es) ev = .perform fd h sys (.chkGroup group) →
      ((step (Kdesud.after fds es) ev).2 = [(fd, .respond .Res_OK [])] ↔
        group ≠ [] ∧ ∃ name value timeout now,
          LastSet name value group timeout now (Kdesud.past fds es))) ∧
    ∀ name,
      (∀ value group timeout now,
        ¬SetsVariable name value group timeout now ⟨Kdesud.after fds es, ev⟩) →
      (∀ value group timeout now, LastSet name value group timeout now (Kdesud.past fds es) →
        ¬AffectsVariable name group timeout now ⟨Kdesud.after fds es, ev⟩) →
      (step (Kdesud.after fds es) ev).1.repo.stored (variableKey name) =
        (Kdesud.after fds es).repo.stored (variableKey name) := by
  rw [Kdesud.past, history_snoc] at below
  have earlier : ∀ m ∈ Kdesud.past fds es, clockBelow (acted m) = true := fun m member =>
    below m (List.mem_append_left _ member)
  have low : clockBelow (action (Kdesud.after fds es) ev) = true :=
    below _ (List.mem_append_right _ (List.mem_singleton.mpr rfl))
  exact ⟨fun fd h sys name performed => get_replies earlier performed,
    fun fd h sys group performed => chkGroup_replies earlier performed,
    fun name unset quiet => variable_unchanged earlier low unset quiet⟩

def oneVariable : List Event :=
  [.accept 6 1000 0, .command 6 (ascii "SET k v g 10\n") ⟨1000, 100, 100, none⟩, .expire 105]

theorem variables_are_expiring_map_oneVariable : ascii "v" ≠ [] ∧ ∃ group timeout now,
    LastSet (ascii "k") (ascii "v") group timeout now (Kdesud.past .lowest oneVariable) :=
  ((variables_are_expiring_map .lowest oneVariable
    (.command 6 (ascii "GET k\n") ⟨1000, 106, 106, none⟩) (by decide +kernel)).1
    6 (.new 6 1000 0) ⟨1000, 106, 106, none⟩ (ascii "k") (by decide +kernel) (ascii "v")).mp
    (by decide +kernel)

def isVariableCommand : Request → Bool
  | .set .. | .get _ | .getKeys _ | .chkGroup _ | .delVar _ | .delGroup _ | .delSpecialKey _ => true
  | _ => false

def isPasswordCommand : Request → Bool
  | .exec .. | .delCmd .. => true
  | _ => false

def OfExec (k : Bytes) : Prop := InNamespace 0 k ∨ InNamespace 2 k

/-- The event leaves the entries of EXEC alone if it is a variable command, and those of SET
if it is an EXEC or a DEL. -/
def KeepsApart (d : Kdesud) (ev : Event) : Prop :=
  ∀ fd h sys request, action d ev = .perform fd h sys request → ∀ k,
    (isVariableCommand request = true → OfExec k →
      (step d ev).1.repo.stored k = d.repo.stored k) ∧
    (isPasswordCommand request = true → InNamespace 1 k →
      (step d ev).1.repo.stored k = d.repo.stored k)

/-- A DELS whose argument occurs in the key of an entry that EXEC added. -/
def ReachesExec (d : Kdesud) (ev : Event) : Prop :=
  ∃ fd h sys key, action d ev = .perform fd h sys (.delSpecialKey key) ∧ key ≠ [] ∧
    ∃ k e, OfExec k ∧ d.repo.stored k = some e ∧ key <:+: k

private theorem OfExec.ne_variableKey {k : Bytes} (cached : OfExec k) (name : Bytes) :
    k ≠ variableKey name := by
  rcases cached with inside | inside
  · exact ne_makeKey (by decide) (by decide) (by decide) inside name [] []
  · exact ne_makeKey (by decide) (by decide) (by decide) inside name [] []

private theorem group_of_exec {d : Kdesud} (grouped : GroupsOfVariables d.repo) {k : Bytes}
    (cached : OfExec k) {e : DataEntry} (present : d.repo.stored k = some e) : e.group = [] := by
  by_contra named
  obtain ⟨name, equal⟩ := grouped k e present named
  exact cached.ne_variableKey name equal

private theorem variableCommand_keeps {d : Kdesud} (grouped : GroupsOfVariables d.repo)
    {ev : Event} (apart : ¬ReachesExec d ev) {fd : Nat} {h : ConnectionHandler} {sys : SysCalls}
    {request : Request} (performed : action d ev = .perform fd h sys request)
    (variable_command : isVariableCommand request = true) {k : Bytes} (cached : OfExec k) :
    (step d ev).1.repo.stored k = d.repo.stored k := by
  rw [stored_step, performed]
  cases request
  case set name value group timeout => exact if_neg (cached.ne_variableKey name)
  case delVar name => exact if_neg (cached.ne_variableKey name)
  case delGroup group =>
    refine if_neg ?_
    rintro ⟨named, e, present, rfl⟩
    exact named (group_of_exec grouped cached present)
  case delSpecialKey key =>
    refine if_neg ?_
    rintro ⟨named, e, present, -, inside⟩
    exact apart ⟨fd, h, sys, key, performed, named, k, e, cached, present, inside⟩
  case get | getKeys | chkGroup => rfl
  all_goals cases variable_command

private theorem passwordCommand_keeps {d : Kdesud} {ev : Event} {fd : Nat}
    {h : ConnectionHandler} {sys : SysCalls} {request : Request}
    (performed : action d ev = .perform fd h sys request)
    (password_command : isPasswordCommand request = true) {k : Bytes}
    (inside : InNamespace 1 k) : (step d ev).1.repo.stored k = d.repo.stored k := by
  rw [stored_step, performed]
  cases request
  case exec command user options env =>
    have password : k ≠ commandKey 0 h command user :=
      ne_makeKey (by decide) (by decide) (by decide) inside _ _ _
    have environment : k ≠ commandKey 2 h command user :=
      ne_makeKey (by decide) (by decide) (by decide) inside _ _ _
    simp [storedAfter, password, environment]
  case delCmd command user =>
    exact if_neg (ne_makeKey (by decide) (by decide) (by decide) inside _ _ _)
  all_goals cases password_command

/-- In every reachable state the two kinds of entries are kept apart by exactly the events
other than a DELS that reaches a key of EXEC. -/
theorem keepsApart_iff (fds : Descriptors) (es : List Event) (ev : Event) :
    KeepsApart (Kdesud.after fds es) ev ↔ ¬ReachesExec (Kdesud.after fds es) ev := by
  have grouped := groupsOfVariables_run fds es
  constructor
  · rintro apart ⟨fd, h, sys, key, performed, named, k, e, cached, present, inside⟩
    have same := (apart fd h sys _ performed k).1 rfl cached
    have ungrouped := group_of_exec grouped cached present
    rw [stored_step, performed, present] at same
    simp only [storedAfter] at same
    rw [if_pos ⟨named, e, present, ungrouped ▸ List.nil_prefix, inside⟩] at same
    cases same
  · intro apart fd h sys request performed k
    exact ⟨fun command cached => variableCommand_keeps grouped apart performed command cached,
      fun command inside => passwordCommand_keeps performed command inside⟩

def oneCommand : List Event :=
  [.accept 6 1000 0, .command 6 (ascii "PASS pw 60\n") ⟨1000, 100, 100, none⟩,
    .command 6 (ascii "EXEC ls root\n") ⟨1000, 101, 101, some 77⟩]

/-- DELS deletes cached passwords, although it is for persistent variables. -/
theorem delSpecialKey_deletes_password : ¬∀ fds es ev, KeepsApart (Kdesud.after fds es) ev := by
  intro apart
  have password := (apart .lowest oneCommand
    (.command 6 (ascii "DELS ls\n") ⟨1000, 102, 102, none⟩) 6
    { ConnectionHandler.new 6 1000 60 with m_Pass := some (ascii "pw"), m_pid := 77 }
    ⟨1000, 102, 102, none⟩ (.delSpecialKey (ascii "ls")) (by decide +kernel)
    (makeKey 0 [] (ascii "root") (ascii "ls"))).1 rfl (Or.inl (makeKey_inNamespace 0 _ _ _))
  exact absurd password (by decide +kernel)

end KDESu.Daemon.VariableStore
