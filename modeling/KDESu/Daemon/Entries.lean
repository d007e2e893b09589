/- KDESu/Daemon/Entries
   source: src/kdesud/handler.cpp, src/kdesud/repo.cpp
   digest: What every step of the daemon leaves stored under a key, and the namespaces. -/

import KDESu.Daemon.EventLoop
import KDESu.Library.Separators

set_option autoImplicit false
set_option relaxedAutoImplicit false

namespace KDESu.Daemon.Entries

open KDESu.ByteArrays
open KDESu.Library.Histories
open KDESu.Library.Separators
open KDESu.Daemon.Repositories (DataEntry Repository)
open KDESu.Daemon.Repositories.Repository
open KDESu.Daemon.Handling
open KDESu.Daemon.Requests
open KDESu.Daemon.EventLoop

/-- Whether an EXEC adds its two entries: there is no password to reuse, but its session
holds one. -/
def Caches (h : ConnectionHandler) (repo : Repository) (command user : Bytes)
    (env : List Bytes) : Prop :=
  cachedPass h repo command user (envCheck env) = none ∧ h.m_Pass ≠ none

instance (h : ConnectionHandler) (repo : Repository) (command user : Bytes) (env : List Bytes) :
    Decidable (Caches h repo command user env) :=
  inferInstanceAs (Decidable (_ ∧ _))

/-- The keys of a command: `namespac` is 0 for its password and 2 for its environment. -/
def commandKey (namespac : Int) (h : ConnectionHandler) (command user : Bytes) : Bytes :=
  makeKey namespac h.m_Host (authUser h user) command

def variableKey (name : Bytes) : Bytes := makeKey 1 name [] []

def environmentEntry (sys : SysCalls) (h : ConnectionHandler) (env : List Bytes) : DataEntry :=
  ⟨envCheck env, [], deadline (unsigned h.m_Timeout) sys.time₁⟩

def passwordEntry (sys : SysCalls) (h : ConnectionHandler) : DataEntry :=
  ⟨h.m_Pass, [], deadline (unsigned h.m_Timeout) sys.time₂⟩

def variableEntry (sys : SysCalls) (value group : Bytes) (timeout : Int) : DataEntry :=
  ⟨some value, group, deadline (unsigned timeout) sys.time₁⟩

def storedAfter (sys : SysCalls) (h : ConnectionHandler) (repo : Repository) (k : Bytes) :
    Request → Option DataEntry
  | .exec command user _ env =>
      if Caches h repo command user env then
        if k = commandKey 0 h command user then some (passwordEntry sys h)
        else if k = commandKey 2 h command user then some (environmentEntry sys h env)
        else repo.stored k
      else repo.stored k
  | .delCmd command user => if k = makeKey 0 h.m_Host user command then none else repo.stored k
  | .delVar name => if k = variableKey name then none else repo.stored k
  | .delGroup group =>
      if group ≠ [] ∧ ∃ e, repo.stored k = some e ∧ e.group = group then none
      else repo.stored k
  | .delSpecialKey key =>
      if key ≠ [] ∧ ∃ e, repo.stored k = some e ∧ e.group <+: key ∧ key <:+: k then none
      else repo.stored k
  | .set name value group timeout =>
      if k = variableKey name then some (variableEntry sys value group timeout)
      else repo.stored k
  | _ => repo.stored k

theorem launch_repo (sys : SysCalls) (h : ConnectionHandler) (repo : Repository)
    (command user options : Bytes) (env : List Bytes) (pass : Bytes) :
    (launch sys h repo command user options env pass).repo = repo := by
  simp only [launch]
  split <;> rfl

theorem exec_repo (sys : SysCalls) (h : ConnectionHandler) (repo : Repository)
    (command user options : Bytes) (env : List Bytes) :
    (perform sys h repo (.exec command user options env)).repo =
      if Caches h repo command user env then
        cachePass sys h repo command user (envCheck env)
      else repo := by
  simp only [perform, execCommand]
  split
  case h_1 pass found => rw [launch_repo, if_neg (by simp [Caches, found])]
  case h_2 found =>
    cases passed : h.m_Pass with
    | none =>
      rw [if_neg (by simp [Caches, passed])]
      rfl
    | some pass => rw [if_pos ⟨found, by simp [passed]⟩, launch_repo]

theorem stored_cachePass (sys : SysCalls) (h : ConnectionHandler) (repo : Repository)
    (command user : Bytes) (env : List Bytes) (k : Bytes) :
    (cachePass sys h repo command user (envCheck env)).stored k =
      if k = commandKey 0 h command user then some (passwordEntry sys h)
      else if k = commandKey 2 h command user then some (environmentEntry sys h env)
      else repo.stored k := by
  simp only [cachePass, stored_add]
  rfl

theorem stored_perform (sys : SysCalls) (h : ConnectionHandler) (repo : Repository)
    (request : Request) (k : Bytes) :
    (perform sys h repo request).repo.stored k = storedAfter sys h repo k request := by
  cases request with
  | exec command user options env =>
    rw [exec_repo]
    simp only [storedAfter]
    split_ifs with caches
    all_goals first | rfl | simp_all [stored_cachePass]
  | delCmd command user => exact stored_remove repo _ k
  | delVar name => exact stored_remove repo _ k
  | delGroup group => exact stored_removeGroup repo group k
  | delSpecialKey key => exact stored_removeSpecialKey repo key k
  | set name value group timeout =>
    exact stored_add repo sys.time₁ _ (makeKey_ne_nil 1 name [] []) _ k
  | get | getKeys =>
    simp only [perform, deliver]
    split_ifs <;> rfl
  | _ => rfl

theorem stored_step (d : Kdesud) (e : Event) (k : Bytes) :
    (step d e).1.repo.stored k =
      match action d e with
      | .expire now =>
          if ∃ e, d.repo.stored k = some e ∧ e.timeout ≤ now % 2 ^ 32 then none
          else d.repo.stored k
      | .perform _ h sys request => storedAfter sys h d.repo k request
      | _ => d.repo.stored k := by
  rw [repo_step]
  cases action d e with
  | idle | reap | accept | drop => rfl
  | expire now => exact stored_expire d.repo now k
  | perform fd h sys request => exact stored_perform sys h d.repo request k

def InNamespace (namespac : Int) (key : Bytes) : Prop := setNum namespac ++ [asterisk] <+: key

instance (namespac : Int) (key : Bytes) : Decidable (InNamespace namespac key) :=
  inferInstanceAs (Decidable (_ <+: _))

theorem makeKey_inNamespace (namespac : Int) (s1 s2 s3 : Bytes) :
    InNamespace namespac (makeKey namespac s1 s2 s3) :=
  ⟨s1 ++ asterisk :: (s2 ++ asterisk :: s3), by simp [makeKey]⟩

theorem setNum_injective {m n : Int} (sign : 0 ≤ m) (sign' : 0 ≤ n)
    (equal : setNum m = setNum n) : m = n := by
  simp only [setNum, not_lt.mpr sign, not_lt.mpr sign', if_false] at equal
  have values := congrArg numeral equal
  rw [numeral_decimal, numeral_decimal] at values
  omega

private theorem star_not_mem_setNum {n : Int} (sign : 0 ≤ n) : asterisk ∉ setNum n := by
  intro inside
  simp only [setNum, not_lt.mpr sign, if_false] at inside
  exact absurd (decimal_isdigit _ asterisk inside) (by decide)

theorem namespace_unique {m n : Int} (sign : 0 ≤ m) (sign' : 0 ≤ n) {key : Bytes}
    (inside : InNamespace m key) (inside' : InNamespace n key) : m = n := by
  obtain ⟨rest, equal⟩ := inside
  obtain ⟨rest', rfl⟩ := inside'
  simp only [List.append_assoc, List.singleton_append] at equal
  exact setNum_injective sign sign'
    (field_unique (star_not_mem_setNum sign) (star_not_mem_setNum sign') equal).1

theorem ne_makeKey {m n : Int} (sign : 0 ≤ m) (sign' : 0 ≤ n) (other : m ≠ n) {k : Bytes}
    (inside : InNamespace m k) (a b c : Bytes) : k ≠ makeKey n a b c := by
  rintro rfl
  exact other (namespace_unique sign sign' inside (makeKey_inNamespace n a b c))

private theorem makeKey_eq_fenced (namespac : Int) (s1 s2 s3 : Bytes) :
    makeKey namespac s1 s2 s3 = setNum namespac ++ fenced asterisk [s1, s2, s3] := by
  simp [makeKey]

theorem makeKey_injective_of_free {namespac : Int} {a b c a' b' c' : Bytes} (free_a : asterisk ∉ a)
    (free_b : asterisk ∉ b) (free_a' : asterisk ∉ a') (free_b' : asterisk ∉ b')
    (equal : makeKey namespac a b c = makeKey namespac a' b' c') :
    a = a' ∧ b = b' ∧ c = c' := by
  have fields := List.append_cancel_left equal
  rw [List.cons.injEq] at fields
  obtain ⟨same_a, rest⟩ := field_unique free_a free_a' fields.2
  obtain ⟨same_b, same_c⟩ := field_unique free_b free_b' rest
  exact ⟨same_a, same_b, same_c⟩

theorem makeKey_injective_of_length {namespac : Int} {a b c a' b' c' : Bytes}
    (free_a : asterisk ∉ a) (free_b : asterisk ∉ b) (free_c : asterisk ∉ c)
    (equal : makeKey namespac a b c = makeKey namespac a' b' c') :
    a = a' ∧ b = b' ∧ c = c' := by
  rw [makeKey_eq_fenced, makeKey_eq_fenced] at equal
  have free : ∀ f ∈ [a, b, c], asterisk ∉ f := by simp [free_a, free_b, free_c]
  have same : [a', b', c'].length = [a, b, c].length := rfl
  have fields := fenced_injective_of_length free same (List.append_cancel_left equal)
  simpa using fields

theorem variableKey_injective {name name' : Bytes}
    (equal : variableKey name = variableKey name') : name = name' := by
  have fields := List.append_cancel_left equal
  rw [List.cons.injEq] at fields
  exact List.append_cancel_right fields.2

theorem commandKey_ne_variableKey (namespac : Int) (sign : 0 ≤ namespac) (other : namespac ≠ 1)
    (a b c name : Bytes) : makeKey namespac a b c ≠ variableKey name :=
  ne_makeKey sign (by decide) other (makeKey_inNamespace namespac a b c) name [] []

/-- What a step can have put under a key. -/
inductive Added (repo : Repository) (k : Bytes) (e : DataEntry) : Action → Prop
  | password (fd : Nat) (h : ConnectionHandler) (sys : SysCalls)
      (command user options : Bytes) (env : List Bytes)
      (caches : Caches h repo command user env)
      (key : k = commandKey 0 h command user) (entry : e = passwordEntry sys h) :
      Added repo k e (.perform fd h sys (.exec command user options env))
  | environment (fd : Nat) (h : ConnectionHandler) (sys : SysCalls)
      (command user options : Bytes) (env : List Bytes)
      (caches : Caches h repo command user env)
      (key : k = commandKey 2 h command user) (entry : e = environmentEntry sys h env) :
      Added repo k e (.perform fd h sys (.exec command user options env))
  | set (fd : Nat) (h : ConnectionHandler) (sys : SysCalls) (name value group : Bytes)
      (timeout : Int) (key : k = variableKey name)
      (entry : e = variableEntry sys value group timeout) :
      Added repo k e (.perform fd h sys (.set name value group timeout))

theorem stored_origin {d : Kdesud} {ev : Event} {k : Bytes} {e : DataEntry}
    (present : (step d ev).1.repo.stored k = some e) :
    d.repo.stored k = some e ∨ Added d.repo k e (action d ev) := by
  rw [stored_step] at present
  cases performed : action d ev with
  | idle | reap | accept | drop =>
    rw [performed] at present
    exact Or.inl present
  | expire clock =>
    simp only [performed] at present
    split_ifs at present
    exact Or.inl present
  | perform fd h sys request =>
    simp only [performed] at present
    cases request
    case exec command user options env =>
      simp only [storedAfter] at present
      split_ifs at present with caches password environment
      · cases present
        exact Or.inr (.password fd h sys command user options env caches password rfl)
      · cases present
        exact Or.inr (.environment fd h sys command user options env caches environment rfl)
      · exact Or.inl present
      · exact Or.inl present
    case set name value group timeout =>
      simp only [storedAfter] at present
      split_ifs at present with here
      · cases present
        exact Or.inr (.set fd h sys name value group timeout here rfl)
      · exact Or.inl present
    case delCmd | delVar | delGroup | delSpecialKey =>
      simp only [storedAfter] at present
      split_ifs at present
      exact Or.inl present
    all_goals exact Or.inl present

/-- The deletions and the expiry, as they choose an entry under a key. -/
def Removed (k : Bytes) (e : DataEntry) : Action → Prop
  | .expire clock => e.timeout ≤ clock % 2 ^ 32
  | .perform _ h _ (.delCmd command user) => k = makeKey 0 h.m_Host user command
  | .perform _ _ _ (.delVar name) => k = variableKey name
  | .perform _ _ _ (.delGroup group) => group ≠ [] ∧ e.group = group
  | .perform _ _ _ (.delSpecialKey key) => key ≠ [] ∧ e.group <+: key ∧ key <:+: k
  | _ => False

theorem not_added_of_removed {repo : Repository} {k k' : Bytes} {e e' : DataEntry} {a : Action}
    (removed : Removed k e a) : ¬Added repo k' e' a := by
  intro added
  cases added with
  | password | environment | set => exact removed

private theorem kept_iff {entry : Option DataEntry} {chosen : Prop} {_ : Decidable chosen}
    {removed : DataEntry → Prop} (choice : chosen ↔ ∃ e, entry = some e ∧ removed e)
    (e : DataEntry) : (if chosen then none else entry) = some e ↔ entry = some e ∧ ¬removed e := by
  split_ifs with here
  · obtain ⟨e', rfl, gone⟩ := choice.mp here
    simp only [Option.some.injEq, false_iff, not_and, not_not]
    rintro rfl
    exact gone
  · constructor
    · exact fun present => ⟨present, fun gone => here (choice.mpr ⟨e, present, gone⟩)⟩
    · exact And.left

theorem stored_of_not_added {d : Kdesud} {ev : Event} {k : Bytes}
    (unadded : ∀ e, ¬Added d.repo k e (action d ev)) (e : DataEntry) :
    (step d ev).1.repo.stored k = some e ↔
      d.repo.stored k = some e ∧ ¬Removed k e (action d ev) := by
  rw [stored_step]
  generalize action d ev = a at unadded
  cases a with
  | idle | reap | accept | drop => simp [Removed]
  | expire clock => exact kept_iff Iff.rfl e
  | perform fd h sys request =>
    cases request
    case exec command user options env =>
      simp only [storedAfter]
      split_ifs with caches password environment
      · exact absurd (.password fd h sys command user options env caches password rfl)
          (unadded _)
      · exact absurd (.environment fd h sys command user options env caches environment rfl)
          (unadded _)
      · simp [Removed]
      · simp [Removed]
    case set name value group timeout =>
      simp only [storedAfter]
      split_ifs with here
      · exact absurd (.set fd h sys name value group timeout here rfl) (unadded _)
      · simp [Removed]
    case delCmd | delVar =>
      simp only [storedAfter, Removed]
      split_ifs with here
      · simp [here]
      · simp [here]
    case delGroup | delSpecialKey =>
      exact kept_iff (exists_and_left.symm.trans (exists_congr fun _ => and_left_comm)) e
    all_goals simp [storedAfter, Removed]

def GroupsOfVariables (repo : Repository) : Prop :=
  ∀ k e, repo.stored k = some e → e.group ≠ [] → ∃ name, k = variableKey name

theorem groupsOfVariables_step {d : Kdesud} (grouped : GroupsOfVariables d.repo) (ev : Event) :
    GroupsOfVariables (step d ev).1.repo := by
  intro k e present named
  rcases stored_origin present with old | added
  · exact grouped k e old named
  · generalize action d ev = a at added
    cases added with
    | password _ _ _ _ _ _ _ _ _ entry => exact absurd (entry ▸ rfl) named
    | environment _ _ _ _ _ _ _ _ _ entry => exact absurd (entry ▸ rfl) named
    | set _ _ _ name _ _ _ key _ => exact ⟨name, key⟩

theorem groupsOfVariables_run (fds : Descriptors) (es : List Event) :
    GroupsOfVariables (Kdesud.after fds es).repo := by
  refine invariant_run (I := fun d : Kdesud => GroupsOfVariables d.repo) ?_ ?_ es
  · intro k e present
    cases present
  · intro d ev grouped
    exact groupsOfVariables_step grouped ev

end KDESu.Daemon.Entries
