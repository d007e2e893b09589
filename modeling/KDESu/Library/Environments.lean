/- KDESu/Library/Environments
   digest: Lists of `name=value` strings beside the maps from names to values they stand for. -/

import Mathlib.Data.List.Induction
import Mathlib.Data.List.TakeWhile
import Mathlib.Logic.Function.Basic

set_option autoImplicit false
set_option relaxedAutoImplicit false

namespace KDESu.Library.Environments

variable {α : Type} [DecidableEq α] (sep : α)

structure IsName (name : List α) : Prop where
  free : sep ∉ name
  solid : name ≠ []

instance (name : List α) : Decidable (IsName sep name) :=
  decidable_of_iff (sep ∉ name ∧ name ≠ [])
    ⟨fun both => ⟨both.1, both.2⟩, fun is => ⟨is.free, is.solid⟩⟩

abbrev Name := {name : List α // IsName sep name}

def entry (name value : List α) : List α := name ++ sep :: value

def nameOf (s : List α) : List α := s.takeWhile (· ≠ sep)

/-- The value of the first string of a name. -/
def getenv (name : List α) (env : List (List α)) : Option (List α) :=
  (env.find? fun e => name ++ [sep] <+: e).map (List.drop (name.length + 1))

def unsetenv (name : List α) (env : List (List α)) : List (List α) :=
  env.filter fun e => ¬name ++ [sep] <+: e

/-- The string in the place of the first with this head, or behind all others. -/
def place (head s : List α) : List (List α) → List (List α)
  | [] => [s]
  | e :: env => if head <+: e then s :: env else e :: place head s env

/-- A string without a separator takes its name away, if it is one. -/
def putenv (s : List α) (env : List (List α)) : List (List α) :=
  if sep ∈ s then place (nameOf sep s ++ [sep]) s env
  else if s = [] then env
  else unsetenv sep s env

def putAll (strings env : List (List α)) : List (List α) :=
  strings.foldl (fun env s => putenv sep s env) env

def lookup (env : List (List α)) (name : Name sep) : Option (List α) := getenv sep name env

theorem nameOf_free (s : List α) : sep ∉ nameOf sep s := by
  intro member
  simpa using List.mem_takeWhile_imp member

theorem nameOf_entry {name : List α} (free : sep ∉ name) (value : List α) :
    nameOf sep (entry sep name value) = name := by
  have plain : ∀ c ∈ name, decide (c ≠ sep) = true := by
    intro c member
    exact decide_eq_true fun same => free (same ▸ member)
  rw [nameOf, entry, List.takeWhile_append_of_pos plain, List.takeWhile_cons_of_neg (by simp),
    List.append_nil]

theorem exists_entry {s : List α} (member : sep ∈ s) :
    ∃ value, s = entry sep (nameOf sep s) value := by
  obtain ⟨front, value, rfl, free⟩ := List.eq_append_cons_of_mem member
  exact ⟨value, by rw [← entry, nameOf_entry sep free]⟩

theorem head_prefix_entry {name other : List α} (free : sep ∉ name) (plain : sep ∉ other)
    (value : List α) : name ++ [sep] <+: entry sep other value ↔ name = other := by
  constructor
  · rintro ⟨rest, same⟩
    have split : entry sep name rest = entry sep other value := by
      rw [← same, entry, List.append_assoc, List.singleton_append]
    rw [← nameOf_entry sep free rest, split, nameOf_entry sep plain]
  · rintro rfl
    exact ⟨value, by rw [entry, List.append_assoc, List.singleton_append]⟩

theorem name_of_head {name other s : List α} (free : sep ∉ name) (plain : sep ∉ other)
    (head : name ++ [sep] <+: s) (same : other ++ [sep] <+: s) : name = other := by
  obtain ⟨value, rfl⟩ := same
  rw [List.append_assoc, List.singleton_append, ← entry] at head
  exact (head_prefix_entry sep free plain value).mp head

private theorem getenv_cons (name e : List α) (env : List (List α)) :
    getenv sep name (e :: env) =
      if name ++ [sep] <+: e then some (e.drop (name.length + 1)) else getenv sep name env := by
  by_cases head : name ++ [sep] <+: e <;> simp [getenv, head]

omit [DecidableEq α] in
private theorem drop_entry (name value : List α) :
    (entry sep name value).drop (name.length + 1) = value := by
  rw [entry, ← List.singleton_append (l := value), ← List.append_assoc, List.drop_left' (by simp)]

private theorem getenv_entry {name other : List α} (free : sep ∉ name) (plain : sep ∉ other)
    (value : List α) (env : List (List α)) :
    getenv sep name (entry sep other value :: env) =
      if name = other then some value else getenv sep name env := by
  rw [getenv_cons]
  simp only [head_prefix_entry sep free plain]
  split_ifs with same
  · rw [same, drop_entry]
  · rfl

private theorem getenv_place {name other : List α} (free : sep ∉ name) (plain : sep ∉ other)
    (value : List α) (env : List (List α)) :
    getenv sep name (place (other ++ [sep]) (entry sep other value) env) =
      if name = other then some value else getenv sep name env := by
  induction env with
  | nil => rw [place, getenv_entry sep free plain]
  | cons e env ih =>
    rw [place]
    split_ifs with here same same
    · rw [getenv_entry sep free plain, if_pos same]
    · have later : ¬name ++ [sep] <+: e := fun head => same (name_of_head sep free plain head here)
      rw [getenv_entry sep free plain, if_neg same, getenv_cons, if_neg later]
    · have later : ¬name ++ [sep] <+: e := same ▸ here
      rw [getenv_cons, if_neg later, ih, if_pos same]
    · rw [getenv_cons, getenv_cons, ih, if_neg same]

theorem getenv_putenv_entry {name other : List α} (free : sep ∉ name) (plain : sep ∉ other)
    (value : List α) (env : List (List α)) :
    getenv sep name (putenv sep (entry sep other value) env) =
      if name = other then some value else getenv sep name env := by
  have member : sep ∈ entry sep other value := by simp [entry]
  rw [putenv, if_pos member, nameOf_entry sep plain, getenv_place sep free plain]

theorem getenv_unsetenv {name other : List α} (free : sep ∉ name) (plain : sep ∉ other)
    (env : List (List α)) :
    getenv sep name (unsetenv sep other env) =
      if name = other then none else getenv sep name env := by
  induction env with
  | nil => simp [unsetenv, getenv]
  | cons e env ih =>
    rw [unsetenv] at ih ⊢
    by_cases head : other ++ [sep] <+: e
    · rw [List.filter_cons_of_neg (by simpa using head), ih]
      split_ifs with same
      · rfl
      · have later : ¬name ++ [sep] <+: e := fun here =>
          same (name_of_head sep free plain here head)
        rw [getenv_cons, if_neg later]
    · rw [List.filter_cons_of_pos (by simpa using head), getenv_cons, getenv_cons, ih]
      split_ifs with here same
      · exact absurd (same ▸ here) head
      all_goals rfl

/-- The name that a string gives a value or takes away; none for a string with no name. -/
def binding (s : List α) : Option (Name sep × Option (List α)) :=
  if solid : nameOf sep s ≠ [] then
    some (⟨nameOf sep s, nameOf_free sep s, solid⟩,
      if sep ∈ s then some (s.drop ((nameOf sep s).length + 1)) else none)
  else none

theorem lookup_putenv (s : List α) (env : List (List α)) :
    lookup sep (putenv sep s env) =
      match binding sep s with
      | some (name, value) => Function.update (lookup sep env) name value
      | none => lookup sep env := by
  funext other
  by_cases member : sep ∈ s
  · obtain ⟨value, text⟩ := exists_entry sep member
    have free := nameOf_free sep s
    have put : lookup sep (putenv sep s env) other =
        if (other : List α) = nameOf sep s then some value else lookup sep env other := by
      conv_lhs => rw [text]
      exact getenv_putenv_entry sep other.2.free free value env
    have rest : s.drop ((nameOf sep s).length + 1) = value := by
      conv_lhs => rw [text, nameOf_entry sep free]
      exact drop_entry sep _ _
    rw [put]
    by_cases solid : nameOf sep s ≠ []
    · simp only [binding, dif_pos solid, if_pos member, rest, Function.update_apply,
        Subtype.ext_iff]
    · simp only [binding, dif_neg solid]
      exact if_neg fun same => other.2.solid (same.trans (not_not.mp solid))
  · have whole : nameOf sep s = s := by
      rw [nameOf, List.takeWhile_eq_self_iff]
      intro c inside
      exact decide_eq_true fun same => member (same ▸ inside)
    by_cases empty : s = []
    · subst empty
      rfl
    · have solid : nameOf sep s ≠ [] := whole.symm ▸ empty
      simp only [binding, dif_pos solid, if_neg member, Function.update_apply, Subtype.ext_iff]
      rw [whole, putenv, if_neg member, if_neg empty]
      exact getenv_unsetenv sep other.2.free member env

/-- What the last string of a name does to the map, if there is one. -/
def lastBinding (strings : List (List α)) (name : Name sep) : Option (Option (List α)) :=
  ((strings.filterMap (binding sep)).reverse.find? (·.1 = name)).map Prod.snd

theorem lastBinding_concat (strings : List (List α)) (s : List α) (name : Name sep) :
    lastBinding sep (strings ++ [s]) name =
      match binding sep s with
      | some (other, value) =>
          if other = name then some value else lastBinding sep strings name
      | none => lastBinding sep strings name := by
  cases bound : binding sep s with
  | none => simp [lastBinding, bound]
  | some b => by_cases same : b.1 = name <;> simp [lastBinding, bound, same]

theorem lookup_putAll (strings env : List (List α)) (name : Name sep) :
    lookup sep (putAll sep strings env) name =
      (lastBinding sep strings name).getD (lookup sep env name) := by
  induction strings using List.reverseRecOn with
  | nil => rfl
  | append_singleton strings s ih =>
    rw [putAll, List.foldl_append, List.foldl_cons, List.foldl_nil, lookup_putenv,
      lastBinding_concat]
    rw [putAll] at ih
    cases binding sep s with
    | none => exact ih
    | some b =>
      simp only [Function.update_apply, eq_comm (a := name)]
      split_ifs
      · rfl
      · exact ih

/-- Every string has a name, and no two have the same. -/
structure Tidy (env : List (List α)) : Prop where
  named : ∀ e ∈ env, sep ∈ e
  distinct : env.Pairwise fun a b => nameOf sep a ≠ nameOf sep b

theorem tidy_unsetenv {env : List (List α)} (tidy : Tidy sep env) (name : List α) :
    Tidy sep (unsetenv sep name env) :=
  ⟨fun e member => tidy.named e (List.mem_filter.mp member).1, tidy.distinct.filter _⟩

private theorem mem_place {head s e : List α} {env : List (List α)}
    (member : e ∈ place head s env) : e = s ∨ e ∈ env := by
  induction env with
  | nil => exact Or.inl (List.mem_singleton.mp member)
  | cons d env ih =>
    rw [place] at member
    split_ifs at member
    · exact (List.mem_cons.mp member).imp_right (List.mem_cons_of_mem d)
    · rcases List.mem_cons.mp member with rfl | later
      · exact Or.inr List.mem_cons_self
      · exact (ih later).imp_right (List.mem_cons_of_mem d)

private theorem nameOf_of_head {name e : List α} (free : sep ∉ name)
    (head : name ++ [sep] <+: e) : nameOf sep e = name := by
  obtain ⟨value, rfl⟩ := head
  rw [List.append_assoc, List.singleton_append, ← entry, nameOf_entry sep free]

theorem tidy_place {env : List (List α)} (tidy : Tidy sep env) {s : List α} (member : sep ∈ s) :
    Tidy sep (place (nameOf sep s ++ [sep]) s env) := by
  constructor
  · intro e inside
    rcases mem_place inside with rfl | old
    · exact member
    · exact tidy.named e old
  · obtain ⟨named, distinct⟩ := tidy
    induction env with
    | nil => exact List.pairwise_singleton _ _
    | cons d env ih =>
      obtain ⟨apart, rest⟩ := List.pairwise_cons.mp distinct
      rw [place]
      split_ifs with here
      · have same := nameOf_of_head sep (nameOf_free sep s) here
        exact List.pairwise_cons.mpr ⟨fun e inside => same ▸ apart e inside, rest⟩
      · refine List.pairwise_cons.mpr ⟨?_, ih (fun e inside =>
          named e (List.mem_cons_of_mem d inside)) rest⟩
        intro e inside same
        rcases mem_place inside with rfl | old
        · apply here
          obtain ⟨value, text⟩ := exists_entry sep (named d List.mem_cons_self)
          rw [text, same]
          exact (head_prefix_entry sep (nameOf_free sep e) (nameOf_free sep e) value).mpr rfl
        · exact apart e old same

theorem tidy_putenv {env : List (List α)} (tidy : Tidy sep env) (s : List α) :
    Tidy sep (putenv sep s env) := by
  rw [putenv]
  split_ifs with member
  · exact tidy_place sep tidy member
  · exact tidy
  · exact tidy_unsetenv sep tidy s

end KDESu.Library.Environments
