/- KDESu/Client/Listing
   source: src/client.cpp, src/kdesud/handler.cpp, src/kdesud/repo.cpp
   digest: GETK and getKeys: the list of a group's keys, cut, joined and split again. -/

import KDESu.Client.Decoding
import KDESu.Library.Thinning

set_option autoImplicit false
set_option relaxedAutoImplicit false

namespace KDESu.Client.Listing

open KDESu.ByteArrays
open KDESu.Library.OrderedMaps (OrderedMap)
open KDESu.Library.Separators
open KDESu.Library.Thinning
open KDESu.Daemon.Repositories (DataEntry Repository)
open KDESu.Daemon.Repositories.Repository
open KDESu.Daemon.Handling
open KDESu.Daemon.Requests
open KDESu.Daemon.EventLoop
open KDESu.Daemon.Entries
open KDESu.Client.Commanding
open KDESu.Client.Decoding

def InGroup (repo : Repository) (group name : Bytes) : Prop :=
  ∃ e, repo.stored (variableKey name) = some e ∧ e.group = group

/-- The key of a name: what stands before its last `-`. -/
def KeyOf (name key : Bytes) : Prop := ∃ rest, name = key ++ minus :: rest ∧ minus ∉ rest

/-- A name that has a key, and whose list and reply can be taken apart again. -/
structure Listable (name : Bytes) : Prop where
  keyed : ∃ key, KeyOf name key ∧ key ≠ []
  noNul : (0 : UInt8) ∉ name
  noBell : (7 : UInt8) ∉ name

/-- The list has each key of the group's variables once, and nothing else. -/
structure ListsKeys (repo : Repository) (group : Bytes) (list : List Bytes) : Prop where
  once : list.Nodup
  keys : ∀ key, key ∈ list ↔ ∃ name, InGroup repo group name ∧ KeyOf name key

/-- Whenever a key of the group occurs in another one, a variable with the former is stored
before each variable with the latter. -/
def ShortFirst (repo : Repository) (group : Bytes) : Prop :=
  ∀ name key name' key', InGroup repo group name → KeyOf name key →
    InGroup repo group name' → KeyOf name' key' → key ≠ key' → key <:+: key' →
      ∃ name'', InGroup repo group name'' ∧ KeyOf name'' key ∧
        variableKey name'' < variableKey name'

def getKeys (group : Bytes) (fd : Nat) (sent : List (Nat × Reply)) : Result :=
  Method.result (.request (.getKeys group)) (command ((bytesTo fd sent).take RECV_SIZE))

theorem KeyOf.unique {name key key' : Bytes} (one : KeyOf name key) (two : KeyOf name key') :
    key = key' := by
  obtain ⟨rest, rfl, free⟩ := one
  obtain ⟨rest', equal, free'⟩ := two
  have reversed := congrArg List.reverse equal
  simp only [List.reverse_append, List.reverse_cons, List.append_assoc,
    List.singleton_append] at reversed
  have same := (field_unique (by simpa using free) (by simpa using free') reversed).2
  exact List.reverse_injective same

theorem shortKey_variableKey {name key : Bytes} (cut : KeyOf name key) :
    shortKey (ascii "-") (variableKey name) = key := by
  obtain ⟨rest, rfl, free⟩ := cut
  have shape : variableKey (key ++ minus :: rest) =
      (49 :: 42 :: key) ++ minus :: (rest ++ [asterisk, asterisk]) := by
    have number : setNum 1 = [49] := by decide
    simp [variableKey, makeKey, number]
  have free' : minus ∉ rest ++ [asterisk, asterisk] := by
    rw [List.mem_append]
    rintro (inside | stars)
    · exact free inside
    · exact absurd stars (by decide)
  have needle : ascii "-" = [minus] := rfl
  rw [shortKey, shape, needle, lastIndexOf_of_free free']
  simp

/-- A key is covered by one that it occurs in. -/
def covers (y x : Bytes) : Bool := contains y x

private theorem covers_self (x : Bytes) : covers x x = true :=
  (contains_iff x x).mpr List.infix_rfl

private theorem listKeys_eq_intercalate {keys : List Bytes} (filled : ∀ k ∈ keys, k ≠ [])
    (free : ∀ k ∈ keys, (7 : UInt8) ∉ k) :
    keys.foldl listKey [] = [7].intercalate (thin covers keys) := by
  induction keys using List.reverseRecOn with
  | nil => rfl
  | append_singleton keys k ih =>
    have joined := ih (fun k member => filled k (List.mem_append_left _ member))
      (fun k member => free k (List.mem_append_left _ member))
    rw [List.foldl_append, List.foldl_cons, List.foldl_nil, joined, thin_concat, keep, listKey]
    by_cases first : thin covers keys = []
    · simp [first]
    · have filled_kept : ∀ f ∈ thin covers keys, f ≠ [] := fun f member =>
        filled f (List.mem_append_left _ (mem_of_mem_thin member))
      have same : contains ([7].intercalate (thin covers keys)) k = true ↔
          (thin covers keys).any (covers · k) = true := by
        rw [contains_iff, infix_intercalate (free k (by simp)) first, List.any_eq_true]
        simp only [covers, contains_iff]
      rw [if_neg (intercalate_ne_nil [7] first filled_kept)]
      simp only [same]
      split_ifs with covered
      · rfl
      · rw [intercalate_concat [7] first]
        rfl

def groupKeys (repo : Repository) (group : Bytes) : List Bytes :=
  repo.repo.select (fun _ e => e.group == group)

theorem inGroup_iff (repo : Repository) (group name : Bytes) :
    InGroup repo group name ↔ variableKey name ∈ groupKeys repo group := by
  rw [groupKeys, OrderedMap.mem_select]
  simp only [InGroup, Repository.stored, beq_iff_eq]

theorem mem_groupKeys {repo : Repository} (grouped : GroupsOfVariables repo) {group : Bytes}
    (named : group ≠ []) (k : Bytes) :
    k ∈ groupKeys repo group ↔ ∃ name, InGroup repo group name ∧ k = variableKey name := by
  constructor
  · intro member
    obtain ⟨e, present, same⟩ := (OrderedMap.mem_select _ _ _).mp member
    obtain rfl := eq_of_beq same
    obtain ⟨name, rfl⟩ := grouped k e present named
    exact ⟨name, ⟨e, present, rfl⟩, rfl⟩
  · rintro ⟨name, inside, rfl⟩
    exact (inGroup_iff repo group name).mp inside

def listed (repo : Repository) (group : Bytes) : List Bytes :=
  thin covers ((groupKeys repo group).map (shortKey (ascii "-")))

theorem KeyOf.isInfix {name key : Bytes} (cut : KeyOf name key) : key <:+: name := by
  obtain ⟨rest, rfl, -⟩ := cut
  exact (List.prefix_append key _).isInfix

theorem Listable.key_ne_nil {name key : Bytes} (good : Listable name) (cut : KeyOf name key) :
    key ≠ [] := by
  obtain ⟨key', cut', filled⟩ := good.keyed
  exact cut'.unique cut ▸ filled

section

variable {repo : Repository} {group : Bytes} (grouped : GroupsOfVariables repo)
  (named : group ≠ []) (names : ∀ name, InGroup repo group name → Listable name)
include grouped named names

private theorem shortKey_groupKeys {k : Bytes} (member : k ∈ groupKeys repo group) :
    ∃ name, InGroup repo group name ∧ k = variableKey name ∧
      KeyOf name (shortKey (ascii "-") k) := by
  obtain ⟨name, inside, rfl⟩ := (mem_groupKeys grouped named k).mp member
  obtain ⟨key, cut, -⟩ := (names name inside).keyed
  exact ⟨name, inside, rfl, (shortKey_variableKey cut).symm ▸ cut⟩

private theorem mem_cut_iff (key : Bytes) :
    key ∈ (groupKeys repo group).map (shortKey (ascii "-")) ↔
      ∃ name, InGroup repo group name ∧ KeyOf name key := by
  rw [List.mem_map]
  constructor
  · rintro ⟨k, member, rfl⟩
    obtain ⟨name, inside, -, cut⟩ := shortKey_groupKeys grouped named names member
    exact ⟨name, inside, cut⟩
  · rintro ⟨name, inside, cut⟩
    exact ⟨variableKey name, (mem_groupKeys grouped named _).mpr ⟨name, inside, rfl⟩,
      shortKey_variableKey cut⟩

private theorem cut_readable {key : Bytes}
    (member : key ∈ (groupKeys repo group).map (shortKey (ascii "-"))) :
    key ≠ [] ∧ (0 : UInt8) ∉ key ∧ (7 : UInt8) ∉ key := by
  obtain ⟨name, inside, cut⟩ := (mem_cut_iff grouped named names key).mp member
  have good := names name inside
  exact ⟨good.key_ne_nil cut, fun nul => good.noNul (cut.isInfix.mem nul),
    fun bell => good.noBell (cut.isInfix.mem bell)⟩

theorem findKeys_eq : repo.findKeys group (ascii "-") = [7].intercalate (listed repo group) := by
  rw [findKeys, if_neg named, ← List.foldl_map]
  apply listKeys_eq_intercalate
  · intro key member
    exact (cut_readable grouped named names member).1
  · intro key member
    exact (cut_readable grouped named names member).2.2

theorem findKeys_noNul : (0 : UInt8) ∉ repo.findKeys group (ascii "-") := by
  rw [findKeys_eq grouped named names]
  intro nul
  rcases mem_intercalate nul with between | ⟨key, member, inside⟩
  · exact absurd between (by decide)
  · exact (cut_readable grouped named names (mem_of_mem_thin member)).2.1 inside

theorem keyList_findKeys : keyList (repo.findKeys group (ascii "-")) = listed repo group := by
  rw [findKeys_eq grouped named names]
  by_cases empty : listed repo group = []
  · rw [empty]
    rfl
  · have more : [7].intercalate (listed repo group) ≠ [] :=
      intercalate_ne_nil [7] empty fun key member =>
        (cut_readable grouped named names (mem_of_mem_thin member)).1
    rw [keyList_eq_splitOn more, List.splitOn_intercalate 7 _ empty]
    intro key member
    exact (cut_readable grouped named names (mem_of_mem_thin member)).2.2

theorem listsKeys_iff : ListsKeys repo group (listed repo group) ↔
    ∀ k ∈ groupKeys repo group, shortKey (ascii "-") k ∈ listed repo group := by
  constructor
  · intro lists k member
    obtain ⟨name, inside, -, cut⟩ := shortKey_groupKeys grouped named names member
    exact (lists.keys _).mpr ⟨name, inside, cut⟩
  · intro complete
    refine ⟨thin_nodup covers_self _, fun key => ?_⟩
    rw [← mem_cut_iff grouped named names]
    constructor
    · exact mem_of_mem_thin
    · intro member
      obtain ⟨k, inside, rfl⟩ := List.mem_map.mp member
      exact complete k inside

theorem coveredFirst_iff : CoveredFirst covers (shortKey (ascii "-")) (groupKeys repo group) ↔
    ShortFirst repo group := by
  constructor
  · intro first name key name' key' inside cut inside' cut' different within
    have key_of := shortKey_variableKey cut
    have key_of' := shortKey_variableKey cut'
    obtain ⟨k, member, same, less⟩ := first (variableKey name)
      ((mem_groupKeys grouped named _).mpr ⟨name, inside, rfl⟩) (variableKey name')
      ((mem_groupKeys grouped named _).mpr ⟨name', inside', rfl⟩) (by rwa [key_of, key_of'])
      (by rwa [key_of, key_of', covers, contains_iff])
    obtain ⟨name'', inside'', rfl, cut''⟩ := shortKey_groupKeys grouped named names member
    rw [same, key_of] at cut''
    exact ⟨name'', inside'', cut'', less⟩
  · intro short k member k' member' different covered
    obtain ⟨name, inside, rfl, cut⟩ := shortKey_groupKeys grouped named names member
    obtain ⟨name', inside', rfl, cut'⟩ := shortKey_groupKeys grouped named names member'
    obtain ⟨name'', inside'', cut'', less⟩ := short name _ name' _ inside cut inside' cut'
      different ((contains_iff _ _).mp covered)
    exact ⟨variableKey name'', (mem_groupKeys grouped named _).mpr ⟨name'', inside'', rfl⟩,
      shortKey_variableKey cut'', less⟩

theorem listed_iff : ListsKeys repo group (listed repo group) ↔ ShortFirst repo group := by
  rw [listsKeys_iff grouped named names, ← coveredFirst_iff grouped named names]
  exact thin_complete_iff covers_self (OrderedMap.select_sorted repo.repo _)

end

private theorem getKeys_sent {d : Kdesud} {ev : Event} {fd : Nat} {h : ConnectionHandler}
    {sys : SysCalls} {group : Bytes} (asks : action d ev = .perform fd h sys (.getKeys group)) :
    (step d ev).2 = (deliver h d.repo (d.repo.findKeys group (ascii "-"))).sent.map (fd, ·) := by
  rw [replies_step, asks]
  rfl

/-- In every reachable state `getKeys` gives the keys of a group, each once, if and only if
the keys that occur in others are stored before these. -/
theorem keys_listed_iff {fds : Descriptors} {es : List Event} {ev : Event} {fd : Nat}
    {h : ConnectionHandler} {sys : SysCalls} {group : Bytes} (named : group ≠ [])
    (names : ∀ name, InGroup (Kdesud.after fds es).repo group name → Listable name)
    (asks : action (Kdesud.after fds es) ev = .perform fd h sys (.getKeys group))
    (fits : (bytesTo fd (step (Kdesud.after fds es) ev).2).length ≤ RECV_SIZE) :
    (∃ list, getKeys group fd (step (Kdesud.after fds es) ev).2 = .keys list ∧
      ListsKeys (Kdesud.after fds es).repo group list) ↔
      ShortFirst (Kdesud.after fds es).repo group := by
  have grouped := groupsOfVariables_run fds es
  have result : getKeys group fd (step (Kdesud.after fds es) ev).2 =
      .keys (listed (Kdesud.after fds es).repo group) := by
    have delivered := (result_deliver_iff fd h (Kdesud.after fds es).repo _).mpr
      (findKeys_noNul grouped named names)
    rw [getKeys, List.take_of_length_le fits, getKeys_sent asks, Method.result, delivered,
      keyList_findKeys grouped named names]
  rw [← listed_iff grouped named names, result]
  constructor
  · rintro ⟨list, same, lists⟩
    exact Result.keys.inj same ▸ lists
  · intro lists
    exact ⟨_, rfl, lists⟩

def twoVariables (name name' : Bytes) : List Event :=
  [.accept 6 1000 0, .command 6 (ascii "SET " ++ name ++ ascii " v g 0\n") ⟨1000, 100, 100, none⟩,
    .command 6 (ascii "SET " ++ name' ++ ascii " v g 0\n") ⟨1000, 101, 101, none⟩]

private theorem twoVariables_names {name name' : Bytes} {repo : Repository}
    (keys : groupKeys repo (ascii "g") = [variableKey name, variableKey name']) (n : Bytes) :
    InGroup repo (ascii "g") n ↔ n = name ∨ n = name' := by
  rw [inGroup_iff, keys, List.mem_cons, List.mem_singleton]
  constructor
  · exact Or.imp variableKey_injective variableKey_injective
  · exact Or.imp (congrArg variableKey) (congrArg variableKey)

theorem keys_listed_iff_twoVariables :
    ∃ list, getKeys (ascii "g") 6 (step (Kdesud.after .lowest
      (twoVariables (ascii "ab-1") (ascii "a-1")))
      (.command 6 (ascii "GETK g\n") ⟨1000, 102, 102, none⟩)).2 = .keys list ∧
      ListsKeys (Kdesud.after .lowest (twoVariables (ascii "ab-1") (ascii "a-1"))).repo
        (ascii "g") list := by
  have inside (n : Bytes) :
      InGroup (Kdesud.after .lowest (twoVariables (ascii "ab-1") (ascii "a-1"))).repo
        (ascii "g") n ↔ n = ascii "a-1" ∨ n = ascii "ab-1" :=
    twoVariables_names (by decide +kernel) n
  have key_a : KeyOf (ascii "a-1") (ascii "a") := ⟨ascii "1", rfl, by decide⟩
  have key_ab : KeyOf (ascii "ab-1") (ascii "ab") := ⟨ascii "1", rfl, by decide⟩
  have asks : action (Kdesud.after .lowest (twoVariables (ascii "ab-1") (ascii "a-1")))
      (.command 6 (ascii "GETK g\n") ⟨1000, 102, 102, none⟩) =
      .perform 6 (.new 6 1000 0) ⟨1000, 102, 102, none⟩ (.getKeys (ascii "g")) := by
    decide +kernel
  refine (keys_listed_iff (by decide) ?names asks (by decide +kernel)).mpr ?short
  case names =>
    intro name stored
    rcases (inside name).mp stored with rfl | rfl
    · exact ⟨⟨_, key_a, by decide⟩, by decide, by decide⟩
    · exact ⟨⟨_, key_ab, by decide⟩, by decide, by decide⟩
  case short =>
    intro name key name' key' stored cut stored' cut' different within
    rcases (inside name).mp stored with rfl | rfl
    · obtain rfl := cut.unique key_a
      rcases (inside name').mp stored' with rfl | rfl
      · exact absurd (key_a.unique cut') different
      · exact ⟨_, stored, cut, by decide⟩
    · obtain rfl := cut.unique key_ab
      rcases (inside name').mp stored' with rfl | rfl
      · obtain rfl := cut'.unique key_a
        exact absurd within (by decide)
      · exact absurd (key_ab.unique cut') different

/-- The key `b` of the second variable is not listed, as the list holds `ab` before it. -/
theorem contained_key_not_listed :
    ¬∀ (fds : Descriptors) (es : List Event) (ev : Event) (fd : Nat) (h : ConnectionHandler)
      (sys : SysCalls) (group : Bytes), group ≠ [] →
      (∀ name, InGroup (Kdesud.after fds es).repo group name → Listable name) →
      action (Kdesud.after fds es) ev = .perform fd h sys (.getKeys group) →
      (bytesTo fd (step (Kdesud.after fds es) ev).2).length ≤ RECV_SIZE →
      ∃ list, getKeys group fd (step (Kdesud.after fds es) ev).2 = .keys list ∧
        ListsKeys (Kdesud.after fds es).repo group list := by
  intro exact_list
  have inside (n : Bytes) :
      InGroup (Kdesud.after .lowest (twoVariables (ascii "ab-1") (ascii "b-1"))).repo
        (ascii "g") n ↔ n = ascii "ab-1" ∨ n = ascii "b-1" :=
    twoVariables_names (by decide +kernel) n
  have key_ab : KeyOf (ascii "ab-1") (ascii "ab") := ⟨ascii "1", rfl, by decide⟩
  have key_b : KeyOf (ascii "b-1") (ascii "b") := ⟨ascii "1", rfl, by decide⟩
  obtain ⟨list, result, lists⟩ := exact_list .lowest
    (twoVariables (ascii "ab-1") (ascii "b-1"))
    (.command 6 (ascii "GETK g\n") ⟨1000, 102, 102, none⟩) 6 (.new 6 1000 0)
    ⟨1000, 102, 102, none⟩ (ascii "g") (by decide)
    (by
      intro name stored
      rcases (inside name).mp stored with rfl | rfl
      · exact ⟨⟨_, key_ab, by decide⟩, by decide, by decide⟩
      · exact ⟨⟨_, key_b, by decide⟩, by decide, by decide⟩)
    (by decide +kernel) (by decide +kernel)
  have short : getKeys (ascii "g") 6 (step (Kdesud.after .lowest
      (twoVariables (ascii "ab-1") (ascii "b-1")))
      (.command 6 (ascii "GETK g\n") ⟨1000, 102, 102, none⟩)).2 = .keys [ascii "ab"] := by
    decide +kernel
  obtain rfl := Result.keys.inj (result.symm.trans short)
  have listed_b := (lists.keys (ascii "b")).mpr ⟨_, (inside _).mpr (Or.inr rfl), key_b⟩
  exact absurd listed_b (by decide)

end KDESu.Client.Listing
