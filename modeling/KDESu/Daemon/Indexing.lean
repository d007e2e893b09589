/- KDESu/Daemon/Indexing
   source: src/kdesud/kdesud.cpp
   digest: The indices into the table of handlers in the main loop, with every access checked. -/

import KDESu.Daemon.Polling

set_option autoImplicit false
set_option relaxedAutoImplicit false

namespace KDESu.Daemon.Indexing

open KDESu.ByteArrays
open KDESu.Library.Histories
open KDESu.Daemon.Handling
open KDESu.Daemon.EventLoop
open KDESu.Daemon.Receiving
open KDESu.Daemon.Polling

/-- The search of the reaping loop, downwards from an index. -/
def search (handler : List (Option ConnectionHandler)) (pid : Nat) : Nat → Option (Option Nat)
  | 0 => some none
  | j + 1 =>
      handler[j]?.bind fun h =>
        if h.any (fun h => h.m_pid = pid) then some (some j) else search handler pid j

def reapChecked (p : MainLoop) (waited : List (Pid × Nat)) : Option MainLoop :=
  waited.foldlM
    (fun p w =>
      (search p.daemon.handler w.1.1 p.daemon.handler.length).map fun _ => p.reap [w]) p

/-- A new connection: the list is made long enough before it is indexed. -/
def acceptChecked (p : MainLoop) : Option (Nat × Int × Int) → Option MainLoop
  | none => some p
  | some (fd, uid, uninitialised) =>
      let handler :=
        p.daemon.handler ++ List.replicate (fd + 1 - p.daemon.handler.length) none
      handler[fd]?.map fun _ => (p.accept (some (fd, uid, uninitialised))).1

/-- An established connection. Behind `handle` the list is indexed at the same place. -/
def serveChecked (p : MainLoop) (r : Recv) (sys : Nat → SysCalls) : Option MainLoop :=
  p.daemon.handler[p.i]?.map fun _ => (p.serve r sys).1

def lookChecked (fds : Descriptors) (p : MainLoop) (waited : List (Pid × Nat))
    (accepted : Option (Nat × Int × Int)) (r : Recv) (sys : Nat → SysCalls) : Option MainLoop :=
  (if p.i = fds.pipeOfDeath then reapChecked p waited else some p).bind fun p =>
    if fds.x11Fd = some p.i then some p
    else if p.i = fds.sockfd then acceptChecked p accepted
    else serveChecked p r sys

def stepChecked (fds : Descriptors) (p : MainLoop) (turn : Turn) : Option MainLoop :=
  if p.daemon.running then
    match turn with
    | .select _ _ => some (p.step fds turn).1
    | .look waited accepted r sys =>
        if p.i ≤ p.daemon.maxfd then
          (if p.i ∈ p.tmp_fds then lookChecked fds p waited accepted r sys else some p).map
            fun p' => { p' with i := p.i + 1 }
        else some p
  else some p

/-- The main loop over a list of turns, up to the first index that is not below the size. -/
def runChecked (fds : Descriptors) (ts : List Turn) : Option MainLoop :=
  ts.foldlM (stepChecked fds) (MainLoop.new fds)

private theorem find_reverse_range (q : Nat → Bool) (n : Nat) :
    (List.range (n + 1)).reverse.find? q =
      if q n then some n else (List.range n).reverse.find? q := by
  rw [List.range_succ, List.reverse_append, List.reverse_singleton, List.singleton_append,
    List.find?_cons]
  split <;> simp_all

theorem search_eq_waiting (d : Kdesud) (pid : Pid) :
    search d.handler pid.1 d.handler.length = some (d.waiting pid) := by
  have inside (n : Nat) (within : n ≤ d.handler.length) :
      search d.handler pid.1 n = some ((List.range n).reverse.find? fun j =>
        (d.handlerAt j).any fun h => h.m_pid = pid.1) := by
    induction n with
    | zero => rfl
    | succ n ih =>
      have entry : d.handler[n]? = some d.handler[n] := List.getElem?_eq_getElem within
      rw [search, find_reverse_range, ih (by omega), Kdesud.handlerAt, entry, Option.bind_some]
      simp only [Option.join_some]
      split_ifs <;> rfl
  exact inside _ (Nat.le_refl _)

private theorem reapChecked_eq (p : MainLoop) (waited : List (Pid × Nat)) :
    reapChecked p waited = some (p.reap waited) := by
  induction waited generalizing p with
  | nil => rfl
  | cons w waited ih =>
    have first : reapChecked p (w :: waited) = reapChecked (p.reap [w]) waited := by
      simp only [reapChecked, List.foldlM_cons, search_eq_waiting]
      rfl
    rw [first, ih]
    rfl

private theorem acceptChecked_eq (p : MainLoop) (accepted : Option (Nat × Int × Int)) :
    acceptChecked p accepted = some (p.accept accepted).1 := by
  match accepted with
  | none => rfl
  | some (fd, uid, uninitialised) =>
    simp only [acceptChecked]
    rw [List.getElem?_eq_getElem (by simp; omega), Option.map_some]

private theorem serveChecked_eq_some {p p' : MainLoop} {r : Recv} {sys : Nat → SysCalls} :
    serveChecked p r sys = some p' ↔ p.i < p.daemon.handler.length ∧ (p.serve r sys).1 = p' := by
  simp only [serveChecked, Option.map_eq_some_iff, List.getElem?_eq_some_iff]
  constructor
  · rintro ⟨h, ⟨inside, -⟩, rfl⟩
    exact ⟨inside, rfl⟩
  · rintro ⟨inside, rfl⟩
    exact ⟨_, ⟨inside, rfl⟩, rfl⟩

private theorem lookChecked_eq_some {fds : Descriptors} {p p' : MainLoop}
    {waited : List (Pid × Nat)} {accepted : Option (Nat × Int × Int)} {r : Recv}
    {sys : Nat → SysCalls} :
    lookChecked fds p waited accepted r sys = some p' ↔
      (fds.x11Fd ≠ some p.i → p.i ≠ fds.sockfd → p.i < p.daemon.handler.length) ∧
        (p.look fds waited accepted r sys).1 = p' := by
  obtain ⟨q, checked, reaped, same, length⟩ : ∃ q : MainLoop,
      (if p.i = fds.pipeOfDeath then reapChecked p waited else some p) = some q ∧
        (if p.i = fds.pipeOfDeath then p.reap waited else p) = q ∧ q.i = p.i ∧
          q.daemon.handler.length = p.daemon.handler.length := by
    split_ifs
    · exact ⟨_, reapChecked_eq p waited, rfl, rfl, (sameTable_reaps waited p).1.length⟩
    · exact ⟨_, rfl, rfl, rfl, rfl⟩
  simp only [lookChecked, MainLoop.look, checked, reaped, Option.bind_some]
  rw [← same, ← length]
  split_ifs with display listens
  · simp [display]
  · simp [listens, acceptChecked_eq]
  · rw [serveChecked_eq_some]
    simp [display, listens]

def acceptedFd (fds : Descriptors) (m : Moment MainLoop Turn) : Option Nat :=
  match m.event with
  | .select _ _ => none
  | .look _ accepted _ _ =>
      if m.before.daemon.running = true ∧ m.before.i ≤ m.before.daemon.maxfd ∧
          m.before.i ∈ m.before.tmp_fds ∧ fds.x11Fd ≠ some m.before.i ∧
          m.before.i = fds.sockfd then
        accepted.map Prod.fst
      else none

private structure Grows (p p' : MainLoop) (accepted : Option Nat) : Prop where
  length : p'.daemon.handler.length = max p.daemon.handler.length (accepted.elim 0 (· + 1))
  active : ∀ fd ∈ p'.daemon.active_fds, fd ∈ p.daemon.active_fds ∨ accepted = some fd
  ready : p'.tmp_fds = p.tmp_fds

private theorem Grows.trans {p p' p'' : MainLoop} {accepted : Option Nat}
    (first : Grows p p' none) (second : Grows p' p'' accepted) : Grows p p'' accepted where
  length := by
    rw [second.length, first.length, Option.elim_none, Nat.max_zero]
  active fd member := by
    rcases second.active fd member with old | new
    · exact Or.inl ((first.active fd old).resolve_right (by simp))
    · exact Or.inr new
  ready := second.ready.trans first.ready

private theorem grows_of_same {p p' : MainLoop} (same : SameTable p.daemon p'.daemon)
    (ready : p'.tmp_fds = p.tmp_fds) : Grows p p' none where
  length := same.length.trans (Nat.max_zero _).symm
  active _ member := Or.inl (same.active ▸ member)
  ready := ready

private theorem grows_accept {p : MainLoop} (running : p.daemon.running = true)
    (accepted : Option (Nat × Int × Int)) :
    Grows p (p.accept accepted).1 (accepted.map Prod.fst) := by
  match accepted with
  | none => exact grows_of_same .rfl rfl
  | some (fd, uid, uninitialised) =>
    have daemon : (p.accept (some (fd, uid, uninitialised))).1.daemon =
        p.daemon.accept fd uid uninitialised := by
      simp only [MainLoop.accept, MainLoop.daemon]
      cases p.daemon.handlerAt fd <;>
        simp only [MainLoop.delete, Buffered.step, Buffered.other, step, running, if_true]
    refine ⟨?_, fun fd' member => ?_, ?_⟩
    · rw [daemon]
      simp only [Kdesud.accept, List.length_set, List.length_append, List.length_replicate,
        Option.map_some, Option.elim_some]
      omega
    · rw [daemon] at member
      rcases mem_FD_SET.mp member with ⟨rfl, -⟩ | old
      · exact Or.inr rfl
      · exact Or.inl old
    · simp only [MainLoop.accept]
      cases p.daemon.handlerAt fd <;> rfl

private theorem grows_conclude {p p' : MainLoop} {d : Kdesud} (same : SameTable p.daemon d)
    {ending : Ending} (daemon : p'.daemon = d.conclude p.i ending)
    (ready : p'.tmp_fds = p.tmp_fds) : Grows p p' none := by
  refine ⟨?_, fun fd member => Or.inl ?_, ready⟩
  · rw [daemon, Option.elim_none, Nat.max_zero, ← same.length]
    cases ending with
    | ok | exit => rfl
    | error => exact List.length_set
  · rw [daemon] at member
    rw [← same.active]
    cases ending with
    | ok | exit => exact member
    | error => exact Finset.mem_of_mem_erase member

private theorem grows_serve {p : MainLoop} (running : p.daemon.running = true) (r : Recv)
    (sys : Nat → SysCalls) : Grows p (p.serve r sys).1 none := by
  by_cases served : (p.daemon.handlerAt p.i).isSome
  · refine @grows_conclude p _ _ (sameTable_handled p r sys) (p.handled r sys).ending ?_ ?_
    · rw [← daemon_served running served]
      simp only [MainLoop.serve, if_pos served]
    · simp only [MainLoop.serve, if_pos served]
      split_ifs
      · cases (p.handled r sys).state.daemon.handlerAt p.i <;> rfl
      · rfl
  · have nothing : (p.serve r sys).1 = p := by simp only [MainLoop.serve, if_neg served]
    rw [nothing]
    exact grows_of_same .rfl rfl

private theorem grows_look (fds : Descriptors) {p : MainLoop} (running : p.daemon.running = true)
    (waited : List (Pid × Nat)) (accepted : Option (Nat × Int × Int)) (r : Recv)
    (sys : Nat → SysCalls) :
    Grows p (p.look fds waited accepted r sys).1
      (if fds.x11Fd ≠ some p.i ∧ p.i = fds.sockfd then accepted.map Prod.fst else none) := by
  obtain ⟨q, reaped, same, runs, grows⟩ : ∃ q : MainLoop,
      (if p.i = fds.pipeOfDeath then p.reap waited else p) = q ∧ q.i = p.i ∧
        q.daemon.running = true ∧ Grows p q none := by
    split_ifs
    · obtain ⟨table, runs⟩ := sameTable_reaps waited p
      exact ⟨_, rfl, rfl, runs.trans running, grows_of_same table rfl⟩
    · exact ⟨_, rfl, rfl, running, grows_of_same .rfl rfl⟩
  simp only [MainLoop.look, reaped]
  rw [← same]
  by_cases display : fds.x11Fd = some q.i
  · simpa [display] using grows
  · by_cases listens : q.i = fds.sockfd
    · rw [if_neg display, if_pos listens, if_pos ⟨display, listens⟩]
      exact grows.trans (grows_accept runs accepted)
    · simpa [display, listens] using grows.trans (grows_serve runs r sys)

/-- Every descriptor that `select` watches or has found ready is the daemon's own, or is an index
of the table. -/
private structure Within (fds : Descriptors) (p : MainLoop) : Prop where
  active : ∀ fd ∈ p.daemon.active_fds, Own fds fd ∨ fd < p.daemon.handler.length
  ready : ∀ fd ∈ p.tmp_fds, Own fds fd ∨ fd < p.daemon.handler.length

private theorem Within.grows {fds : Descriptors} {p p' : MainLoop} {accepted : Option Nat}
    (within : Within fds p) (grows : Grows p p' accepted) : Within fds p' := by
  have longer : p.daemon.handler.length ≤ p'.daemon.handler.length := by
    rw [grows.length]
    exact Nat.le_max_left _ _
  refine ⟨fun fd member => ?_, fun fd member => ?_⟩
  · rcases grows.active fd member with old | rfl
    · exact (within.active fd old).imp_right fun inside => Nat.lt_of_lt_of_le inside longer
    · refine Or.inr ?_
      rw [grows.length, Option.elim_some]
      omega
  · exact (within.ready fd (grows.ready ▸ member)).imp_right fun inside =>
      Nat.lt_of_lt_of_le inside longer

private theorem within_new (fds : Descriptors) : Within fds (.new fds) where
  active fd member := Or.inl ((mem_active_new_iff fds fd).mp member)
  ready fd member := absurd member (Finset.notMem_empty fd)

private theorem within_step {fds : Descriptors} {p : MainLoop} (within : Within fds p)
    (turn : Turn) :
    Within fds (p.step fds turn).1 ∧
      (p.step fds turn).1.daemon.handler.length =
        max p.daemon.handler.length ((acceptedFd fds ⟨p, turn⟩).elim 0 (· + 1)) := by
  by_cases running : p.daemon.running = true
  · cases turn with
    | select ready now =>
      simp only [MainLoop.step, running, if_true, acceptedFd, Option.elim_none, Nat.max_zero]
      split_ifs
      · have same := sameTable_expire p.daemon now
        have length := same.length
        have active := same.active
        refine ⟨⟨fun fd member => ?_, fun fd member => ?_⟩, length⟩
        · exact length.symm ▸ within.active fd (active ▸ member)
        · exact length.symm ▸ within.active fd (Finset.mem_of_mem_inter_left member)
      · exact ⟨within, rfl⟩
    | look waited accepted r sys =>
      simp only [MainLoop.step, running, if_true, acceptedFd, true_and]
      by_cases below : p.i ≤ p.daemon.maxfd
      · by_cases ready : p.i ∈ p.tmp_fds
        · have grows := grows_look fds running waited accepted r sys
          have moved := within.grows grows
          simp only [below, ready, if_true, true_and]
          exact ⟨⟨moved.active, moved.ready⟩, grows.length⟩
        · simp only [below, ready, if_true, if_false, false_and, and_false, Option.elim_none,
            Nat.max_zero]
          exact ⟨⟨within.active, within.ready⟩, trivial⟩
      · simp only [below, if_false, false_and, Option.elim_none, Nat.max_zero]
        exact ⟨within, trivial⟩
  · have idle : acceptedFd fds ⟨p, turn⟩ = none := by
      cases turn with
      | select ready now => rfl
      | look waited accepted r sys => exact if_neg fun all => running all.1
    simp only [idle, Option.elim_none, Nat.max_zero, MainLoop.step, if_neg running]
    exact ⟨within, trivial⟩

/-- A wakeup of the death pipe is handled, whose descriptor is that of nothing else. -/
def HandlesWakeup (fds : Descriptors) (m : Moment MainLoop Turn) : Prop :=
  match m.event with
  | .select _ _ => False
  | .look _ _ _ _ =>
      m.before.daemon.running = true ∧ m.before.i ≤ m.before.daemon.maxfd ∧
        m.before.i ∈ m.before.tmp_fds ∧ m.before.i = fds.pipeOfDeath ∧
        fds.x11Fd ≠ some fds.pipeOfDeath ∧ fds.pipeOfDeath ≠ fds.sockfd

private theorem stepChecked_eq_some {fds : Descriptors} {p : MainLoop} (within : Within fds p)
    (turn : Turn) (p' : MainLoop) :
    stepChecked fds p turn = some p' ↔
      (HandlesWakeup fds ⟨p, turn⟩ → fds.pipeOfDeath < p.daemon.handler.length) ∧
        (p.step fds turn).1 = p' := by
  by_cases running : p.daemon.running = true
  · cases turn with
    | select ready now => simp [stepChecked, running, HandlesWakeup]
    | look waited accepted r sys =>
      by_cases below : p.i ≤ p.daemon.maxfd
      · by_cases ready : p.i ∈ p.tmp_fds
        · -- of the descriptors in the snapshot only the death pipe can be no index
          have reaches : (fds.x11Fd ≠ some p.i → p.i ≠ fds.sockfd →
                p.i < p.daemon.handler.length) ↔
              (p.i = fds.pipeOfDeath → fds.x11Fd ≠ some fds.pipeOfDeath →
                fds.pipeOfDeath ≠ fds.sockfd → fds.pipeOfDeath < p.daemon.handler.length) := by
            constructor
            · intro inside pipe display listens
              rw [← pipe] at display listens ⊢
              exact inside display listens
            · intro inside display listens
              rcases within.ready p.i ready with (socket | pipe | display') | index
              · exact absurd socket listens
              · exact pipe ▸ inside pipe (pipe ▸ display) (pipe ▸ listens)
              · exact absurd display' display
              · exact index
          simp only [stepChecked, running, below, ready, if_true, HandlesWakeup, true_and,
            and_imp, Option.map_eq_some_iff, lookChecked_eq_some, reaches, MainLoop.step]
          constructor
          · rintro ⟨q, ⟨inside, rfl⟩, rfl⟩
            exact ⟨inside, rfl⟩
          · rintro ⟨inside, rfl⟩
            exact ⟨_, ⟨inside, rfl⟩, rfl⟩
        · simp [stepChecked, MainLoop.step, running, below, ready, HandlesWakeup]
      · simp [stepChecked, MainLoop.step, running, below, HandlesWakeup]
  · have idle : ¬HandlesWakeup fds ⟨p, turn⟩ := by
      cases turn with
      | select ready now => exact id
      | look waited accepted r sys => exact fun handles => running handles.1
    simp [stepChecked, MainLoop.step, running, idle]

theorem runChecked_eq_some (fds : Descriptors) (ts : List Turn) (p : MainLoop) :
    runChecked fds ts = some p ↔
      (∀ m ∈ MainLoop.past fds ts,
        HandlesWakeup fds m → fds.pipeOfDeath < m.before.daemon.handler.length) ∧
      MainLoop.after fds ts = p :=
  checked_run_iff (I := Within fds)
    (fun _ turn within => ⟨stepChecked_eq_some within turn, (within_step within turn).1⟩)
    (within_new fds) ts p

theorem lt_length_iff (fds : Descriptors) (ts : List Turn) (n : Nat) :
    n < (MainLoop.after fds ts).daemon.handler.length ↔
      ∃ m ∈ MainLoop.past fds ts, ∃ fd ∈ acceptedFd fds m, n ≤ fd := by
  suffices both : Within fds (MainLoop.after fds ts) ∧
      (n < (MainLoop.after fds ts).daemon.handler.length ↔
        ∃ m ∈ MainLoop.past fds ts, ∃ fd ∈ acceptedFd fds m, n ≤ fd) from both.2
  refine run_induction (P := fun past p => Within fds p ∧ (n < p.daemon.handler.length ↔
    ∃ m ∈ past, ∃ fd ∈ acceptedFd fds m, n ≤ fd)) ?_ ?_ ts
  · exact ⟨within_new fds, by simp [MainLoop.new, Buffered.new, Kdesud.new]⟩
  · rintro past p turn ⟨within, before⟩
    obtain ⟨kept, length⟩ := within_step within turn
    refine ⟨kept, ?_⟩
    rw [length, lt_max_iff, before]
    simp only [List.mem_append, List.mem_singleton, or_and_right, exists_or, exists_eq_left]
    refine or_congr_right ?_
    cases acceptedFd fds ⟨p, turn⟩ with
    | none => simp
    | some fd => simp

/-- Over every order of ready descriptors, every index into the table is below its size exactly
if no wakeup of the death pipe is handled before a connection was accepted on a descriptor that
is not below the pipe's. -/
theorem table_indexed_iff (fds : Descriptors) (ts : List Turn) :
    (runChecked fds ts).isSome ↔
      ∀ pre turn, pre ++ [turn] <+: ts → HandlesWakeup fds ⟨MainLoop.after fds pre, turn⟩ →
        ∃ m ∈ MainLoop.past fds pre, ∃ fd ∈ acceptedFd fds m, fds.pipeOfDeath ≤ fd := by
  simp only [Option.isSome_iff_exists, runChecked_eq_some, exists_and_left, exists_eq', and_true]
  constructor
  · intro long pre turn front handles
    exact (lt_length_iff fds pre _).mp (long _ (mem_history_of_front _ _ front) handles)
  · intro earlier m member handles
    obtain ⟨pre, turn, post, rfl, rfl⟩ := mem_history member
    exact (lt_length_iff fds pre _).mpr (earlier pre turn ⟨post, by simp⟩ handles)

def earlyWakeup : List Turn :=
  .select {4} 100 :: List.replicate 5 (.look [] none .interrupted uidOnly)

theorem early_wakeup_out_of_bounds : ¬∀ fds ts, (runChecked fds ts).isSome := by
  intro always
  exact absurd (always .lowest earlyWakeup) (by decide +kernel)

end KDESu.Daemon.Indexing
