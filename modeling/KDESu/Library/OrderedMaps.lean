/- KDESu/Library/OrderedMaps
   digest: Finite maps kept as strictly increasing association lists, with their lookup laws. -/

import Mathlib.Data.List.Basic
import Mathlib.Data.Prod.Basic
import Mathlib.Order.Lattice

set_option autoImplicit false
set_option relaxedAutoImplicit false

namespace KDESu.Library.OrderedMaps

/-- A finite map whose iteration order is the order of its keys. -/
structure OrderedMap (κ α : Type) [LinearOrder κ] where
  entries : List (κ × α)
  sorted : entries.Pairwise (fun a b => a.1 < b.1)

variable {κ α β γ : Type} [LinearOrder κ]

/-- Put an entry at its place in an increasing list, replacing one with the same key. -/
def place (k : κ) (v : α) : List (κ × α) → List (κ × α)
  | [] => [(k, v)]
  | e :: es =>
      if k < e.1 then (k, v) :: e :: es
      else if k = e.1 then (k, v) :: es
      else e :: place k v es

theorem mem_place {k : κ} {v : α} {es : List (κ × α)} {a : κ × α}
    (member : a ∈ place k v es) : a = (k, v) ∨ a ∈ es := by
  induction es with
  | nil => simpa [place] using member
  | cons e es ih =>
    simp only [place] at member
    split_ifs at member with below same
    · simpa using member
    · rcases List.mem_cons.mp member with fresh | old
      · exact Or.inl fresh
      · exact Or.inr (List.mem_cons_of_mem e old)
    · rcases List.mem_cons.mp member with head | tail
      · exact Or.inr (head ▸ List.mem_cons_self)
      · exact (ih tail).imp id (List.mem_cons_of_mem e)

theorem place_sorted (k : κ) (v : α) {es : List (κ × α)}
    (sorted : es.Pairwise (fun a b => a.1 < b.1)) :
    (place k v es).Pairwise (fun a b => a.1 < b.1) := by
  induction es with
  | nil => simp [place]
  | cons e es ih =>
    obtain ⟨above, rest⟩ := List.pairwise_cons.mp sorted
    simp only [place]
    split_ifs with below same
    · refine List.pairwise_cons.mpr ⟨?_, sorted⟩
      intro a member
      rcases List.mem_cons.mp member with rfl | member
      · exact below
      · exact lt_trans below (above a member)
    · exact List.pairwise_cons.mpr ⟨fun a member => same ▸ above a member, rest⟩
    · refine List.pairwise_cons.mpr ⟨?_, ih rest⟩
      intro a member
      rcases mem_place member with rfl | member
      · exact lt_of_le_of_ne (not_lt.mp below) (Ne.symm same)
      · exact above a member

namespace OrderedMap

def empty : OrderedMap κ α := ⟨[], List.Pairwise.nil⟩

def find (m : OrderedMap κ α) (k : κ) : Option α := m.entries.lookup k

def insert (m : OrderedMap κ α) (k : κ) (v : α) : OrderedMap κ α :=
  ⟨place k v m.entries, place_sorted k v m.sorted⟩

def erase (m : OrderedMap κ α) (k : κ) : OrderedMap κ α :=
  ⟨m.entries.filter (fun e => e.1 ≠ k), m.sorted.filter _⟩

def select (m : OrderedMap κ α) (p : κ → α → Bool) : List κ :=
  (m.entries.filter (fun e => p e.1 e.2)).map Prod.fst

def mapValues (f : κ → α → β) (m : OrderedMap κ α) : OrderedMap κ β where
  entries := m.entries.map (fun e => (e.1, f e.1 e.2))
  sorted := List.pairwise_map.mpr m.sorted

@[ext] theorem ext_entries {m n : OrderedMap κ α} (same : m.entries = n.entries) : m = n := by
  cases m
  cases n
  cases same
  rfl

end OrderedMap

private theorem lookup_cons_ite (k : κ) (e : κ × α) (es : List (κ × α)) :
    (e :: es).lookup k = if k = e.1 then some e.2 else es.lookup k := by
  obtain ⟨k', v⟩ := e
  by_cases same : k = k'
  · simp [same]
  · simp [List.lookup_cons, beq_eq_false_iff_ne.mpr same, same]

private theorem lookup_place (k k' : κ) (v : α) (es : List (κ × α)) :
    (place k v es).lookup k' = if k' = k then some v else es.lookup k' := by
  induction es with
  | nil => simp only [place, lookup_cons_ite, List.lookup_nil]
  | cons e es ih =>
    simp only [place]
    split_ifs with below equal same same
    all_goals by_cases here : k' = e.1
    all_goals simp_all [lookup_cons_ite]

private theorem lookup_filter_ne (k k' : κ) (es : List (κ × α)) :
    (es.filter (fun e => e.1 ≠ k)).lookup k' = if k' = k then none else es.lookup k' := by
  induction es with
  | nil => simp
  | cons e es ih =>
    by_cases gone : e.1 = k
    · rw [List.filter_cons_of_neg (by simpa using gone), ih, lookup_cons_ite]
      by_cases same : k' = k <;> simp [same, gone]
    · rw [List.filter_cons_of_pos (by simpa using gone), lookup_cons_ite, ih, lookup_cons_ite]
      by_cases here : k' = e.1
      · simp [here, gone]
      · simp [here]

private theorem lookup_map (f : κ → α → β) (k : κ) (es : List (κ × α)) :
    (es.map (fun e => (e.1, f e.1 e.2))).lookup k = (es.lookup k).map (f k) := by
  induction es with
  | nil => rfl
  | cons e es ih =>
    rw [List.map_cons, lookup_cons_ite, lookup_cons_ite, ih]
    by_cases here : k = e.1 <;> simp [here]

private theorem mem_iff_lookup {es : List (κ × α)} (sorted : es.Pairwise (fun a b => a.1 < b.1))
    (k : κ) (v : α) : (k, v) ∈ es ↔ es.lookup k = some v := by
  induction es with
  | nil => simp
  | cons e es ih =>
    obtain ⟨above, rest⟩ := List.pairwise_cons.mp sorted
    obtain ⟨k', v'⟩ := e
    rw [List.mem_cons, lookup_cons_ite, Prod.mk.injEq]
    by_cases here : k = k'
    · -- the head has this key, so no later entry has it
      have absent : (k, v) ∉ es := fun member => absurd (above (k, v) member) (by simp [here])
      simp only [here, true_and, if_true] at absent ⊢
      simp only [absent, or_false, Option.some.injEq, eq_comm]
    · simp [here, ih rest]

private theorem place_map (f : κ → α → β) (k : κ) (v : α) (es : List (κ × α)) :
    (place k v es).map (fun e => (e.1, f e.1 e.2)) =
      place k (f k v) (es.map (fun e => (e.1, f e.1 e.2))) := by
  induction es with
  | nil => rfl
  | cons e es ih =>
    simp only [place, List.map_cons]
    split_ifs <;> simp [ih]

namespace OrderedMap

@[simp] theorem find_empty (k : κ) : (empty : OrderedMap κ α).find k = none := rfl

/-- Equality of keys may be decided by any instance, not only by the order's own. -/
theorem find_insert [DecidableEq κ] (m : OrderedMap κ α) (k k' : κ) (v : α) :
    (m.insert k v).find k' = if k' = k then some v else m.find k' := by
  refine (lookup_place k k' v m.entries).trans ?_
  split_ifs <;> rfl

theorem find_erase [DecidableEq κ] (m : OrderedMap κ α) (k k' : κ) :
    (m.erase k).find k' = if k' = k then none else m.find k' := by
  refine (lookup_filter_ne k k' m.entries).trans ?_
  split_ifs <;> rfl

theorem find_insert_of_ne (m : OrderedMap κ α) {k k' : κ} (v : α) (other : k' ≠ k) :
    (m.insert k v).find k' = m.find k' := by simp [find_insert, other]

theorem mem_entries (m : OrderedMap κ α) (k : κ) (v : α) :
    (k, v) ∈ m.entries ↔ m.find k = some v :=
  mem_iff_lookup m.sorted k v

theorem mem_select (m : OrderedMap κ α) (p : κ → α → Bool) (k : κ) :
    k ∈ m.select p ↔ ∃ v, m.find k = some v ∧ p k v = true := by
  simp only [select, List.mem_map, List.mem_filter, Prod.exists, ← mem_entries]
  constructor
  · rintro ⟨k', v, ⟨member, selected⟩, rfl⟩
    exact ⟨v, member, selected⟩
  · rintro ⟨v, member, selected⟩
    exact ⟨k, v, ⟨member, selected⟩, rfl⟩

theorem select_sorted (m : OrderedMap κ α) (p : κ → α → Bool) :
    (m.select p).Pairwise (· < ·) :=
  List.pairwise_map.mpr (m.sorted.filter _)

theorem find_mapValues (f : κ → α → β) (m : OrderedMap κ α) (k : κ) :
    (m.mapValues f).find k = (m.find k).map (f k) :=
  lookup_map f k m.entries

theorem mapValues_insert (f : κ → α → β) (m : OrderedMap κ α) (k : κ) (v : α) :
    (m.insert k v).mapValues f = (m.mapValues f).insert k (f k v) :=
  ext_entries (place_map f k v m.entries)

theorem mapValues_erase (f : κ → α → β) (m : OrderedMap κ α) (k : κ) :
    (m.erase k).mapValues f = (m.mapValues f).erase k := by
  apply ext_entries
  simp only [mapValues, erase, List.filter_map, Function.comp_def]

theorem select_mapValues (f : κ → α → β) (m : OrderedMap κ α) (p : κ → α → Bool)
    (q : κ → β → Bool) (blind : ∀ k v, q k (f k v) = p k v) :
    (m.mapValues f).select q = m.select p := by
  simp only [select, mapValues, List.filter_map, List.map_map, Function.comp_def, blind]

theorem ext_find {m n : OrderedMap κ α} (same : ∀ k, m.find k = n.find k) : m = n := by
  have distinct (m : OrderedMap κ α) : m.entries.Nodup :=
    m.sorted.imp fun less equal => less.ne (congrArg Prod.fst equal)
  apply ext_entries
  refine List.Perm.eq_of_pairwise ?_ m.sorted n.sorted ?_
  · exact fun a b _ _ less greater => absurd less greater.not_gt
  · refine (List.perm_ext_iff_of_nodup (distinct m) (distinct n)).mpr fun a => ?_
    rw [mem_entries m a.1 a.2, mem_entries n a.1 a.2, same]

theorem erase_of_find_none (m : OrderedMap κ α) (k : κ) (absent : m.find k = none) :
    m.erase k = m := by
  apply ext_entries
  refine List.filter_eq_self.mpr ?_
  rintro ⟨k', v⟩ member
  have present := (mem_entries m k' v).mp member
  simp only [decide_eq_true_eq]
  rintro rfl
  rw [absent] at present
  cases present

end OrderedMap

end KDESu.Library.OrderedMaps
