/- KDESu/Daemon/Expiring
   source: src/kdesud/repo.cpp, src/kdesud/kdesud.cpp
   digest: The early return of Repository::expire, over every run of operations on a repository. -/

import KDESu.Daemon.Entries

set_option autoImplicit false
set_option relaxedAutoImplicit false

namespace KDESu.Daemon.Expiring

open KDESu.ByteArrays
open KDESu.Library.Histories
open KDESu.Library.OrderedMaps (OrderedMap)
open KDESu.Daemon.Repositories (DataEntry Repository)
open KDESu.Daemon.Repositories.Repository
open KDESu.Daemon.Handling
open KDESu.Daemon.Requests
open KDESu.Daemon.EventLoop
open KDESu.Daemon.Entries

/-- A call that changes a repository, with what `time(nullptr)` answers in it. -/
inductive Operation
  | add (now : Nat) (key : Bytes) (nonempty : key ≠ []) (data : DataEntry)
  | remove (key : Bytes)
  | removeGroup (group : Bytes)
  | removeSpecialKey (key : Bytes)
  | expire (now : Nat)

def Operation.apply (r : Repository) : Operation → Repository × Int
  | .add now key nonempty data => (r.add now key nonempty data, 0)
  | .remove key => r.remove key
  | .removeGroup group => r.removeGroup group
  | .removeSpecialKey key => r.removeSpecialKey key
  | .expire now => r.expire now

abbrev operated (ops : List Operation) : Repository := run Operation.apply .new ops

/-- `expire` without its early return: the map, and the return value. -/
def scanned (r : Repository) (now : Nat) : OrderedMap Bytes DataEntry × Int :=
  let current := now % 2 ^ 32
  let keys := r.repo.select (fun _ e => decide (e.timeout ≤ current))
  ((r.removeAll keys).repo, keys.length)

/-- The bound that `head_time` is to the deadlines. -/
def Bounded (r : Repository) : Prop := ∀ key e, r.stored key = some e → r.head_time ≤ e.timeout

private theorem bounded_apply (r : Repository) (op : Operation) : Bounded (op.apply r).1 := by
  cases op with
  | add now key nonempty data => exact (r.add now key nonempty data).head_le
  | remove key => exact (r.remove key).1.head_le
  | removeGroup group => exact (r.removeGroup group).1.head_le
  | removeSpecialKey key => exact (r.removeSpecialKey key).1.head_le
  | expire now => exact (r.expire now).1.head_le

theorem bounded_operated (ops : List Operation) : Bounded (operated ops) := by
  refine invariant_run (I := Bounded) ?_ (fun r op _ => bounded_apply r op) ops
  intro key e present
  cases present

private theorem select_of_early {r : Repository} (bounded : Bounded r) {current : Nat}
    (early : current < r.head_time) :
    r.repo.select (fun _ e => decide (e.timeout ≤ current)) = [] := by
  refine List.eq_nil_iff_forall_not_mem.mpr fun key member => ?_
  obtain ⟨e, present, due⟩ := (OrderedMap.mem_select _ _ _).mp member
  have later := bounded key e present
  have reached : e.timeout ≤ current := by simpa using due
  omega

theorem expire_eq_scanned {r : Repository} (bounded : Bounded r) (now : Nat) :
    ((r.expire now).1.repo, (r.expire now).2) = scanned r now := by
  simp only [expire, scanned]
  split_ifs with early
  · rw [select_of_early bounded early]
    rfl
  · rfl

theorem scanned_count (r : Repository) (now : Nat) :
    (scanned r now).2 =
      (r.repo.entries.filter fun e => decide (e.2.timeout ≤ now % 2 ^ 32)).length := by
  simp only [scanned, OrderedMap.select, List.length_map]

/-- After any calls `head_time` is a bound to the deadlines, and `expire` does what it would do
without its early return: it takes out the entries whose deadline is reached and no others, and
returns their number. -/
theorem expiry_shortcut_sound (ops : List Operation) (now : Nat) :
    Bounded (operated ops) ∧
    (((operated ops).expire now).1.repo, ((operated ops).expire now).2) =
      scanned (operated ops) now ∧
    (∀ key, ((operated ops).expire now).1.stored key =
      if ∃ e, (operated ops).stored key = some e ∧ e.timeout ≤ now % 2 ^ 32 then none
      else (operated ops).stored key) ∧
    ((operated ops).expire now).2 =
      ((operated ops).repo.entries.filter fun e => decide (e.2.timeout ≤ now % 2 ^ 32)).length := by
  have bounded := bounded_operated ops
  have same := expire_eq_scanned bounded now
  refine ⟨bounded, same, stored_expire (operated ops) now, ?_⟩
  rw [← scanned_count, ← same]

private theorem operated_snoc (ops : List Operation) (op : Operation) :
    operated (ops ++ [op]) = (op.apply (operated ops)).1 := run_snoc _ _ ops op

private theorem operated_by (ops : List Operation) (op : Operation) {r : Repository}
    (same : r = (op.apply (operated ops)).1) : ∃ ops', r = operated ops' :=
  ⟨ops ++ [op], same.trans (operated_snoc ops op).symm⟩

private theorem operated_perform (sys : SysCalls) (h : ConnectionHandler) (ops : List Operation)
    (request : Request) :
    ∃ ops', (perform sys h (operated ops) request).repo = operated ops' := by
  cases request
  case exec command user options env =>
    rw [exec_repo]
    split_ifs
    · refine ⟨ops ++ [.add sys.time₁ (commandKey 2 h command user) (makeKey_ne_nil _ _ _ _)
          ⟨envCheck env, [], unsigned h.m_Timeout⟩] ++
        [.add sys.time₂ (commandKey 0 h command user) (makeKey_ne_nil _ _ _ _)
          ⟨h.m_Pass, [], unsigned h.m_Timeout⟩], ?_⟩
      rw [operated_snoc, operated_snoc]
      rfl
    · exact ⟨ops, rfl⟩
  case delCmd command user =>
    exact operated_by ops (.remove (makeKey 0 h.m_Host user command)) rfl
  case delVar name => exact operated_by ops (.remove (variableKey name)) rfl
  case delGroup group => exact operated_by ops (.removeGroup group) rfl
  case delSpecialKey key => exact operated_by ops (.removeSpecialKey key) rfl
  case set name value group timeout =>
    exact operated_by ops (.add sys.time₁ (variableKey name) (makeKey_ne_nil _ _ _ _)
      ⟨some value, group, unsigned timeout⟩) rfl
  case get | getKeys =>
    refine ⟨ops, ?_⟩
    simp only [perform, deliver]
    split_ifs <;> rfl
  all_goals exact ⟨ops, rfl⟩

/-- In every reachable state the daemon's repository comes from such calls. -/
theorem repository_operated (fds : Descriptors) (es : List Event) :
    ∃ ops, (Kdesud.after fds es).repo = operated ops := by
  refine invariant_run (I := fun d : Kdesud => ∃ ops, d.repo = operated ops) ⟨[], rfl⟩ ?_ es
  rintro d ev ⟨ops, same⟩
  rw [repo_step, same]
  cases action d ev with
  | expire now => exact operated_by ops (.expire now) rfl
  | perform fd h sys request => exact operated_perform sys h ops request
  | idle | reap | accept | drop => exact ⟨ops, rfl⟩

end KDESu.Daemon.Expiring
