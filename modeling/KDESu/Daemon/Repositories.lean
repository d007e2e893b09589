/- KDESu/Daemon/Repositories
   source: src/kdesud/repo.cpp, src/kdesud/repo.h
   digest: The string repository with expiration, and what each operation leaves stored. -/

import KDESu.ByteArrays
import KDESu.Library.OrderedMaps

set_option autoImplicit false
set_option relaxedAutoImplicit false

namespace KDESu.Daemon.Repositories

open KDESu.ByteArrays
open KDESu.Library.OrderedMaps (OrderedMap)

/-- `Data_entry`. Before `add` the timeout is a length of time, in the map a deadline. -/
structure DataEntry where
  value : QByteArray
  group : Bytes
  timeout : Nat
  deriving DecidableEq, Repr

def unsignedMax : Nat := 2 ^ 32 - 1

/-- The repository with the bound that makes the early return of `expire` right: no stored
deadline is below `head_time`. Keys are never empty, for `remove` would not take them out. -/
structure Repository where
  repo : OrderedMap Bytes DataEntry
  head_time : Nat
  no_empty : repo.find [] = none
  head_le : ∀ key e, repo.find key = some e → head_time ≤ e.timeout

namespace Repository

def new : Repository where
  repo := OrderedMap.empty
  head_time := unsignedMax
  no_empty := rfl
  head_le := by simp

def stored (r : Repository) (key : Bytes) : Option DataEntry := r.repo.find key

private def without (r : Repository) (key : Bytes) : Repository where
  repo := r.repo.erase key
  head_time := r.head_time
  no_empty := by
    rw [OrderedMap.find_erase, r.no_empty]
    split_ifs <;> rfl
  head_le k e present := by
    rw [OrderedMap.find_erase] at present
    split_ifs at present
    exact r.head_le k e present

def remove (r : Repository) (key : Bytes) : Repository × Int :=
  if key = [] then (r, -1)
  else
    match r.repo.find key with
    | none => (r, -1)
    | some _ => (r.without key, 0)

/-- What `add` makes of a timeout and a clock reading, in unsigned arithmetic. -/
def deadline (timeout now : Nat) : Nat :=
  if timeout = 0 then unsignedMax else (timeout + now) % 2 ^ 32

/-- `add`, where `now` is what `time(nullptr)` answers. -/
def add (r : Repository) (now : Nat) (key : Bytes) (nonempty : key ≠ [])
    (data : DataEntry) : Repository :=
  let r := if (r.repo.find key).isSome then (r.remove key).1 else r
  let data := { data with timeout := deadline data.timeout now }
  { repo := r.repo.insert key data
    head_time := min r.head_time data.timeout
    no_empty := by rw [OrderedMap.find_insert_of_ne _ _ nonempty.symm, r.no_empty]
    head_le := by
      intro k e present
      rw [OrderedMap.find_insert] at present
      split_ifs at present
      · cases present
        exact min_le_right _ _
      · exact (min_le_left _ _).trans (r.head_le k e present) }

/-- The loop that pops the collected keys from a stack and removes each. -/
def removeAll (r : Repository) (keys : List Bytes) : Repository :=
  keys.reverse.foldl (fun r key => (r.remove key).1) r

/-- What `removeSpecialKey` looks for: the entry's group begins the argument, and the
argument occurs in the entry's key. -/
def isSpecial (key k : Bytes) (e : DataEntry) : Bool :=
  indexOf e.group key == some 0 && (indexOf key k).isSome

def removeSpecialKey (r : Repository) (key : Bytes) : Repository × Int :=
  if key = [] then (r, -1)
  else
    let rm_keys := r.repo.select (isSpecial key)
    (r.removeAll rm_keys, if rm_keys = [] then -1 else 0)

def removeGroup (r : Repository) (group : Bytes) : Repository × Int :=
  if group = [] then (r, -1)
  else
    let rm_keys := r.repo.select (fun _ e => e.group == group)
    (r.removeAll rm_keys, if rm_keys = [] then -1 else 0)

def hasGroup (r : Repository) (group : Bytes) : Int :=
  if group ≠ [] ∧ r.repo.entries.any (fun e => e.2.group == group) then 0 else -1

/-- A stored key up to its last separator, without the namespace in front. -/
def shortKey (sep key : Bytes) : Bytes :=
  match lastIndexOf sep key with
  | some pos => (key.take pos).drop 2
  | none => []  -- `truncate(-1)` empties the array

/-- One round of the loop in `findKeys`: the list grows by a key it does not contain. -/
def listKey (list key : Bytes) : Bytes :=
  if list = [] then key
  else if contains list key then list
  else list ++ 7 :: key

def findKeys (r : Repository) (group : Bytes) (sep : Bytes) : Bytes :=
  if group = [] then []
  else (r.repo.select (fun _ e => e.group == group)).foldl
    (fun list key => listKey list (shortKey sep key)) []

/-- `find` answers a null array for a key that is not there. -/
def find (r : Repository) (key : Bytes) : QByteArray :=
  if key = [] then none
  else
    match r.repo.find key with
    | none => none
    | some e => e.value

theorem stored_remove (r : Repository) (key k : Bytes) :
    (r.remove key).1.stored k = if k = key then none else r.stored k := by
  simp only [remove, stored]
  split_ifs with empty same same
  · rw [same, empty, r.no_empty]
  · rfl
  all_goals
    split
    · simp_all
    · simp [without, OrderedMap.find_erase, same]

theorem remove_head (r : Repository) (key : Bytes) :
    (r.remove key).1.head_time = r.head_time := by
  simp only [remove]
  split_ifs
  · rfl
  · split <;> rfl

theorem remove_succeeds (r : Repository) (key : Bytes) :
    (r.remove key).2 = if (r.stored key).isSome then 0 else -1 := by
  simp only [remove, stored]
  split_ifs with empty present present
  · simp [empty, r.no_empty] at present
  · simp [present]
  all_goals split <;> simp_all

theorem stored_removeAll (r : Repository) (keys : List Bytes) (k : Bytes) :
    (r.removeAll keys).stored k = if k ∈ keys then none else r.stored k := by
  have loop : ∀ (ks : List Bytes) (r : Repository),
      (ks.foldl (fun r key => (r.remove key).1) r).stored k =
        if k ∈ ks then none else r.stored k := by
    intro ks
    induction ks with
    | nil => simp
    | cons key ks ih =>
      intro r
      rw [List.foldl_cons, ih, stored_remove]
      by_cases same : k = key <;> simp [same]
  simpa only [removeAll, List.mem_reverse] using loop keys.reverse r

theorem stored_add (r : Repository) (now : Nat) (key : Bytes) (nonempty : key ≠ [])
    (data : DataEntry) (k : Bytes) :
    (r.add now key nonempty data).stored k =
      if k = key then some { data with timeout := deadline data.timeout now }
      else r.stored k := by
  simp only [add, stored, OrderedMap.find_insert]
  split_ifs with same present
  · rfl
  · exact (stored_remove r key k).trans (if_neg same)
  · rfl

theorem stored_removeSpecialKey (r : Repository) (key k : Bytes) :
    (r.removeSpecialKey key).1.stored k =
      if key ≠ [] ∧ ∃ e, r.stored k = some e ∧ e.group <+: key ∧ key <:+: k then none
      else r.stored k := by
  have chosen : k ∈ r.repo.select (isSpecial key) ↔
      ∃ e, r.stored k = some e ∧ e.group <+: key ∧ key <:+: k := by
    simp only [OrderedMap.mem_select, isSpecial, Bool.and_eq_true, beq_iff_eq,
      indexOf_eq_zero, indexOf_isSome, stored]
  simp only [removeSpecialKey]
  by_cases empty : key = []
  · simp [empty]
  · simp only [empty, if_false, stored_removeAll, chosen, ne_eq, not_false_eq_true, true_and]

theorem stored_removeGroup (r : Repository) (group k : Bytes) :
    (r.removeGroup group).1.stored k =
      if group ≠ [] ∧ ∃ e, r.stored k = some e ∧ e.group = group then none
      else r.stored k := by
  have chosen : k ∈ r.repo.select (fun _ e => e.group == group) ↔
      ∃ e, r.stored k = some e ∧ e.group = group := by
    simp only [OrderedMap.mem_select, beq_iff_eq, stored]
  simp only [removeGroup]
  by_cases empty : group = []
  · simp [empty]
  · simp only [empty, if_false, stored_removeAll, chosen, ne_eq, not_false_eq_true, true_and]

theorem remove_of_fails {r : Repository} {key : Bytes} (fails : (r.remove key).2 < 0) :
    (r.remove key).1 = r := by
  simp only [remove] at fails ⊢
  split_ifs with empty
  · rfl
  · rw [if_neg empty] at fails
    split at fails
    case h_1 => rfl
    case h_2 => cases fails

theorem removeSpecialKey_of_fails {r : Repository} {key : Bytes}
    (fails : (r.removeSpecialKey key).2 < 0) : (r.removeSpecialKey key).1 = r := by
  simp only [removeSpecialKey] at fails ⊢
  split_ifs at fails ⊢ with empty none_chosen
  · rfl
  · rw [none_chosen]
    rfl
  · cases fails

theorem removeGroup_of_fails {r : Repository} {group : Bytes}
    (fails : (r.removeGroup group).2 < 0) : (r.removeGroup group).1 = r := by
  simp only [removeGroup] at fails ⊢
  split_ifs at fails ⊢ with empty none_chosen
  · rfl
  · rw [none_chosen]
    rfl
  · cases fails

theorem hasGroup_eq_zero (r : Repository) (group : Bytes) :
    r.hasGroup group = 0 ↔ group ≠ [] ∧ ∃ k e, r.stored k = some e ∧ e.group = group := by
  have member : r.repo.entries.any (fun e => e.2.group == group) = true ↔
      ∃ k e, r.stored k = some e ∧ e.group = group := by
    simp only [List.any_eq_true, Prod.exists, OrderedMap.mem_entries, beq_iff_eq, stored]
  simp only [hasGroup, ← member]
  split_ifs with found
  · exact ⟨fun _ => found, fun _ => rfl⟩
  · exact ⟨fun wrong => by simp at wrong, fun holds => absurd holds found⟩

theorem find_eq (r : Repository) (key : Bytes) :
    r.find key = (r.stored key).bind DataEntry.value := by
  simp only [find, stored]
  split_ifs with empty
  · rw [empty, r.no_empty]
    rfl
  · split <;> simp_all

end Repository

private def nextHead (current : Nat) (entries : List (Bytes × DataEntry)) (head : Nat) : Nat :=
  entries.foldl (fun h e => if e.2.timeout ≤ current then h else min h e.2.timeout) head

private theorem le_nextHead_iff {current : Nat} {es : List (Bytes × DataEntry)} {h x : Nat} :
    x ≤ nextHead current es h ↔ x ≤ h ∧ ∀ e ∈ es, current < e.2.timeout → x ≤ e.2.timeout := by
  induction es generalizing h with
  | nil => simp [nextHead]
  | cons e es ih =>
    simp only [nextHead, List.foldl_cons, List.forall_mem_cons] at ih ⊢
    rw [ih, ← and_assoc]
    refine and_congr_left fun _ => ?_
    split_ifs with due
    · exact ⟨fun low => ⟨low, fun alive => absurd due (Nat.not_le.mpr alive)⟩, And.left⟩
    · rw [le_min_iff]
      exact and_congr_right fun _ => ⟨fun low _ => low, fun low => low (Nat.lt_of_not_le due)⟩

private theorem nextHead_le {current : Nat} {es : List (Bytes × DataEntry)} {h : Nat}
    {e : Bytes × DataEntry} (member : e ∈ es) (alive : current < e.2.timeout) :
    nextHead current es h ≤ e.2.timeout :=
  (le_nextHead_iff.mp (Nat.le_refl _)).2 e member alive

namespace Repository

/-- `expire`: the repository and the number of entries it took out. -/
def expire (r : Repository) (now : Nat) : Repository × Int :=
  let current := now % 2 ^ 32
  if current < r.head_time then (r, 0)
  else
    let keys := r.repo.select (fun _ e => decide (e.timeout ≤ current))
    ({ repo := (r.removeAll keys).repo
       head_time := nextHead current r.repo.entries unsignedMax
       no_empty := (r.removeAll keys).no_empty
       head_le := by
        intro k e present
        have kept := stored_removeAll r keys k
        rw [stored, present] at kept
        split_ifs at kept with gone
        have here : (k, e) ∈ r.repo.entries := (OrderedMap.mem_entries _ _ _).mpr kept.symm
        have alive : current < e.timeout := by
          by_contra late
          exact gone ((OrderedMap.mem_select _ _ _).mpr ⟨e, kept.symm, by simpa using late⟩)
        exact nextHead_le here alive },
      keys.length)

/-- With or without the early return, `expire` takes out the entries whose deadline has
been reached and no others. -/
theorem stored_expire (r : Repository) (now : Nat) (k : Bytes) :
    (r.expire now).1.stored k =
      if ∃ e, r.stored k = some e ∧ e.timeout ≤ now % 2 ^ 32 then none else r.stored k := by
  have chosen : k ∈ r.repo.select (fun _ e => decide (e.timeout ≤ now % 2 ^ 32)) ↔
      ∃ e, r.stored k = some e ∧ e.timeout ≤ now % 2 ^ 32 := by
    simp only [OrderedMap.mem_select, decide_eq_true_eq, stored]
  simp only [expire]
  by_cases early : now % 2 ^ 32 < r.head_time
  · have none_due : ¬∃ e, r.stored k = some e ∧ e.timeout ≤ now % 2 ^ 32 := by
      rintro ⟨e, present, due⟩
      have bound := r.head_le k e present
      omega
    rw [if_pos early, if_neg none_due]
  · rw [if_neg early]
    exact (stored_removeAll r _ k).trans (by simp only [chosen])

@[ext] theorem ext {r s : Repository} (entries : r.repo = s.repo)
    (heads : r.head_time = s.head_time) : r = s := by
  cases r
  cases s
  cases entries
  cases heads
  rfl

private theorem head_time_expire {r : Repository} {now : Nat} (late : r.head_time ≤ now % 2 ^ 32) :
    (r.expire now).1.head_time = nextHead (now % 2 ^ 32) r.repo.entries unsignedMax := by
  simp only [expire, if_neg (Nat.not_lt.mpr late)]

private theorem expire_of_early {r : Repository} {now : Nat} (early : now % 2 ^ 32 < r.head_time) :
    (r.expire now).1 = r := by
  simp only [expire, if_pos early]

private theorem mem_expire {r : Repository} {now : Nat} {e : Bytes × DataEntry}
    (alive : now % 2 ^ 32 < e.2.timeout) :
    e ∈ (r.expire now).1.repo.entries ↔ e ∈ r.repo.entries := by
  rw [OrderedMap.mem_entries _ e.1 e.2, OrderedMap.mem_entries _ e.1 e.2]
  change (r.expire now).1.stored e.1 = some e.2 ↔ r.stored e.1 = some e.2
  rw [stored_expire]
  split_ifs with due
  · obtain ⟨e', present, past⟩ := due
    refine iff_of_false (by simp) fun stays => ?_
    obtain rfl := Option.some.inj (present.symm.trans stays)
    exact absurd past (Nat.not_le.mpr alive)
  · exact Iff.rfl

private theorem head_time_expire_expire {r : Repository} {s now : Nat}
    (late : r.head_time ≤ s % 2 ^ 32) (later : s % 2 ^ 32 ≤ now % 2 ^ 32) :
    ((r.expire s).1.expire now).1.head_time = (r.expire now).1.head_time := by
  rw [head_time_expire (late.trans later)]
  refine eq_of_forall_le_iff fun x => ?_
  by_cases early : now % 2 ^ 32 < (r.expire s).1.head_time
  · rw [expire_of_early early, head_time_expire late, le_nextHead_iff, le_nextHead_iff]
    rw [head_time_expire late] at early
    refine and_congr_right fun _ => forall₂_congr fun e member => ?_
    have alive : s % 2 ^ 32 < e.2.timeout ↔ now % 2 ^ 32 < e.2.timeout :=
      ⟨fun still => early.trans_le (nextHead_le member still), later.trans_lt⟩
    rw [alive]
  · rw [head_time_expire (Nat.le_of_not_lt early), le_nextHead_iff, le_nextHead_iff]
    refine and_congr_right fun _ => forall_congr' fun e => ?_
    have same (alive : now % 2 ^ 32 < e.2.timeout) := mem_expire (r := r) (later.trans_lt alive)
    exact ⟨fun low member alive => low ((same alive).mpr member) alive,
      fun low member alive => low ((same alive).mp member) alive⟩

/-- An `expire` takes nothing from a later one. -/
theorem expire_expire (r : Repository) {s now : Nat} (later : s % 2 ^ 32 ≤ now % 2 ^ 32) :
    ((r.expire s).1.expire now).1 = (r.expire now).1 := by
  by_cases early : s % 2 ^ 32 < r.head_time
  · rw [expire_of_early early]
  · refine ext (OrderedMap.ext_find fun k => ?_)
      (head_time_expire_expire (Nat.le_of_not_lt early) later)
    change ((r.expire s).1.expire now).1.stored k = (r.expire now).1.stored k
    simp only [stored_expire]
    cases present : r.stored k with
    | none => simp
    | some e =>
      by_cases due : e.timeout ≤ s % 2 ^ 32
      · simp only [Option.some.injEq, exists_eq_left', if_pos due, if_pos (due.trans later)]
        exact ite_self _
      · simp only [Option.some.injEq, exists_eq_left', if_neg due]

def withValues (f : Bytes → QByteArray → QByteArray) (r : Repository) : Repository where
  repo := r.repo.mapValues (fun k e => { e with value := f k e.value })
  head_time := r.head_time
  no_empty := by rw [OrderedMap.find_mapValues, r.no_empty, Option.map_none]
  head_le := by
    intro key e present
    rw [OrderedMap.find_mapValues] at present
    obtain ⟨e', old, rfl⟩ := Option.map_eq_some_iff.mp present
    exact r.head_le key e' old

section

variable (f : Bytes → QByteArray → QByteArray) (r : Repository)

theorem stored_withValues (k : Bytes) :
    (r.withValues f).stored k = (r.stored k).map (fun e => { e with value := f k e.value }) :=
  OrderedMap.find_mapValues _ r.repo k

theorem find_withValues (k : Bytes) :
    (r.withValues f).find k = (r.stored k).bind (fun e => f k e.value) := by
  rw [find_eq, stored_withValues]
  cases r.stored k <;> rfl

private theorem remove_repo (key : Bytes) : (r.remove key).1.repo = r.repo.erase key := by
  simp only [remove]
  split_ifs with empty
  · rw [empty, OrderedMap.erase_of_find_none _ _ r.no_empty]
  · split
    case h_1 absent => rw [OrderedMap.erase_of_find_none _ _ absent]
    case h_2 => rfl

theorem remove_withValues (key : Bytes) :
    (r.withValues f).remove key = ((r.remove key).1.withValues f, (r.remove key).2) := by
  refine Prod.ext (ext ?_ ?_) ?_
  · rw [remove_repo]
    exact (OrderedMap.mapValues_erase _ r.repo key).symm.trans
      (congrArg _ (remove_repo r key).symm)
  · rw [remove_head]
    exact (remove_head r key).symm
  · rw [remove_succeeds, remove_succeeds, stored_withValues, Option.isSome_map]

private theorem removeAll_withValues (keys : List Bytes) :
    (r.withValues f).removeAll keys = (r.removeAll keys).withValues f := by
  simp only [removeAll]
  generalize keys.reverse = ks
  induction ks generalizing r with
  | nil => rfl
  | cons key ks ih => rw [List.foldl_cons, List.foldl_cons, remove_withValues, ih]

theorem add_withValues (now : Nat) (key : Bytes) (nonempty : key ≠ []) (data : DataEntry) :
    (r.withValues f).add now key nonempty { data with value := f key data.value } =
      (r.add now key nonempty data).withValues f := by
  have present : ((r.withValues f).repo.find key).isSome = (r.repo.find key).isSome := by
    rw [withValues, OrderedMap.find_mapValues, Option.isSome_map]
  have inserted (r : Repository) := OrderedMap.mapValues_insert
    (fun k (e : DataEntry) => { e with value := f k e.value }) r.repo key
    { data with timeout := deadline data.timeout now }
  simp only [add, present, remove_withValues]
  split_ifs
  · exact ext (inserted (r.remove key).1).symm rfl
  · exact ext (inserted r).symm rfl

private theorem select_withValues (p : Bytes → DataEntry → Bool)
    (blind : ∀ k e v, p k { e with value := v } = p k e) :
    (r.withValues f).repo.select p = r.repo.select p :=
  OrderedMap.select_mapValues _ r.repo p p (fun k e => blind k e _)

theorem removeSpecialKey_withValues (key : Bytes) :
    (r.withValues f).removeSpecialKey key =
      ((r.removeSpecialKey key).1.withValues f, (r.removeSpecialKey key).2) := by
  simp only [removeSpecialKey, select_withValues f r (isSpecial key) (fun _ _ _ => rfl),
    removeAll_withValues]
  split_ifs <;> rfl

theorem removeGroup_withValues (group : Bytes) :
    (r.withValues f).removeGroup group =
      ((r.removeGroup group).1.withValues f, (r.removeGroup group).2) := by
  simp only [removeGroup,
    select_withValues f r (fun _ e => e.group == group) (fun _ _ _ => rfl),
    removeAll_withValues]
  split_ifs <;> rfl

theorem hasGroup_withValues (group : Bytes) :
    (r.withValues f).hasGroup group = r.hasGroup group := by
  simp only [hasGroup, withValues, OrderedMap.mapValues, List.any_map, Function.comp_def]

theorem findKeys_withValues (group sep : Bytes) :
    (r.withValues f).findKeys group sep = r.findKeys group sep := by
  simp only [findKeys,
    select_withValues f r (fun _ e => e.group == group) (fun _ _ _ => rfl)]

theorem expire_withValues (now : Nat) :
    (r.withValues f).expire now = ((r.expire now).1.withValues f, (r.expire now).2) := by
  have heads : (r.withValues f).head_time = r.head_time := rfl
  have due := select_withValues f r (fun _ e => decide (e.timeout ≤ now % 2 ^ 32))
    (fun _ _ _ => rfl)
  have next (h : Nat) : nextHead (now % 2 ^ 32) (r.withValues f).repo.entries h =
      nextHead (now % 2 ^ 32) r.repo.entries h := by
    simp only [nextHead, withValues, OrderedMap.mapValues, List.foldl_map]
  simp only [expire, heads]
  split_ifs
  · rfl
  · refine Prod.ext (ext ?_ (next unsignedMax)) ?_
    · simp only [due, removeAll_withValues]
      rfl
    · simp only [due]

end

end Repository

end KDESu.Daemon.Repositories
