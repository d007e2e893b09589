/- KDESu/Library/Typestates
   digest: Uses of keyed resources, each of which goes through the stages of a protocol. -/

import Mathlib.Data.List.Basic
import Mathlib.Logic.Function.Basic

set_option autoImplicit false
set_option relaxedAutoImplicit false

namespace KDESu.Library.Typestates

variable {κ σ ε : Type*}

/-- What a use does to the stage of its resource, where it is allowed: a resource that does not
exist has no stage. -/
abbrev Protocol (σ ε : Type*) := Option σ → ε → Option (Option σ)

abbrev Table (κ σ : Type*) := κ → Option σ

def idle : Table κ σ := fun _ => none

section

variable [DecidableEq κ]

def only (k : κ) (s : σ) : Table κ σ := Function.update idle k (some s)

def holding (k : κ) : Option σ → Table κ σ
  | none => idle
  | some s => only k s

def step (P : Protocol σ ε) (t : Table κ σ) (use : κ × ε) : Option (Table κ σ) :=
  (P (t use.1) use.2).map (Function.update t use.1)

def follow (P : Protocol σ ε) (t : Table κ σ) (uses : List (κ × ε)) : Option (Table κ σ) :=
  uses.foldlM (step P) t

@[simp] theorem only_self (k : κ) (s : σ) : (only k s : Table κ σ) k = some s :=
  Function.update_self k _ _

@[simp] theorem holding_self (k : κ) (held : Option σ) : (holding k held : Table κ σ) k = held := by
  cases held with
  | none => rfl
  | some s => exact only_self k s

theorem update_holding (k : κ) (held next : Option σ) :
    Function.update (holding k held : Table κ σ) k next = holding k next := by
  have cleared : Function.update (idle : Table κ σ) k none = idle := Function.update_eq_self k _
  cases held <;> cases next <;> simp [holding, only, cleared]

theorem step_holding {P : Protocol σ ε} {held next : Option σ} {e : ε} (k : κ)
    (allowed : P held e = some next) :
    step P (holding k held) (k, e) = some (holding k next) := by
  rw [step, holding_self, allowed, Option.map_some, update_holding]

@[simp] theorem follow_nil (P : Protocol σ ε) (t : Table κ σ) : follow P t [] = some t := rfl

theorem follow_append (P : Protocol σ ε) (t : Table κ σ) (uses later : List (κ × ε)) :
    follow P t (uses ++ later) = (follow P t uses).bind fun t => follow P t later :=
  List.foldlM_append

/-- Uses of one resource after another, and what the last one is left at: there is never a
second one. -/
inductive Single (P : Protocol σ ε) : List (κ × ε) → κ → Option σ → Prop
  | begin (k : κ) : Single P [] k none
  | use {uses : List (κ × ε)} {k : κ} {held next : Option σ} {e : ε} (single : Single P uses k held)
      (allowed : P held e = some next) : Single P (uses ++ [(k, e)]) k next
  | other {uses : List (κ × ε)} {k : κ} (single : Single P uses k none) (k' : κ) :
      Single P uses k' none

theorem Single.follow {P : Protocol σ ε} {uses : List (κ × ε)} {k : κ} {held : Option σ}
    (single : Single P uses k held) : follow P idle uses = some (holding k held) := by
  induction single with
  | begin k => rfl
  | use single allowed ih =>
    rw [follow_append, ih, Option.bind_some, Typestates.follow, List.foldlM_cons,
      step_holding _ allowed]
    rfl
  | other single k' ih => exact ih

omit [DecidableEq κ] in
theorem Single.front {P : Protocol σ ε} {uses pre : List (κ × ε)} {k : κ} {held : Option σ}
    (single : Single P uses k held) (front : pre <+: uses) :
    ∃ k' held', Single P pre k' held' := by
  induction single with
  | begin k =>
    obtain rfl := List.prefix_nil.mp front
    exact ⟨k, none, .begin k⟩
  | use single allowed ih =>
    rcases List.prefix_concat_iff.mp front with rfl | shorter
    · exact ⟨_, _, single.use allowed⟩
    · exact ih shorter
  | other single k' ih => exact ih front

theorem Single.fronts {P : Protocol σ ε} {uses : List (κ × ε)} {k : κ} {held : Option σ}
    (single : Single P uses k held) :
    ∀ pre, pre <+: uses → ∃ k' held', Typestates.follow P idle pre = some (holding k' held') := by
  intro pre front
  obtain ⟨k', held', before⟩ := single.front front
  exact ⟨k', held', before.follow⟩

theorem allowed_of_follow {P : Protocol σ ε} {t after : Table κ σ} {pre post : List (κ × ε)} {k : κ}
    {e : ε} (followed : follow P t (pre ++ (k, e) :: post) = some after) :
    ∃ between next, follow P t pre = some between ∧ P (between k) e = some next := by
  rw [follow_append] at followed
  obtain ⟨between, before, rest⟩ := Option.bind_eq_some_iff.mp followed
  rw [follow, List.foldlM_cons] at rest
  obtain ⟨later, stepped, -⟩ := Option.bind_eq_some_iff.mp rest
  obtain ⟨next, allowed, -⟩ := Option.map_eq_some_iff.mp stepped
  exact ⟨between, next, before, allowed⟩

end

end KDESu.Library.Typestates
