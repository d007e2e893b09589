/- KDESu/Daemon/Strangers
   source: src/kdesud/kdesud.cpp, src/kdesud/handler.cpp, src/kdesud/secure.cpp
   digest: Connections of other users change nothing for anybody, over whole runs. -/

import KDESu.Daemon.EventLoop
import KDESu.Library.Unwinding

set_option autoImplicit false
set_option relaxedAutoImplicit false

namespace KDESu.Daemon.Strangers

open KDESu.ByteArrays
open KDESu.Daemon.Repositories (Repository)
open KDESu.Library.Histories
open KDESu.Library.Unwinding
open KDESu.Daemon.Handling
open KDESu.Daemon.Requests
open KDESu.Daemon.EventLoop

/-- The descriptors on which other users than `me` are connected, behind an event. -/
def noteStranger (me : Nat) (strangers : Finset Nat) : Event → Finset Nat
  | .accept fd uid _ => if unsigned uid = me then strangers.erase fd else insert fd strangers
  | .command fd _ _ | .hangup fd => strangers.erase fd
  | .expire _ | .reap _ _ => strangers

def ofStranger (me : Nat) (strangers : Finset Nat) : Event → Bool
  | .accept _ uid _ => unsigned uid ≠ me
  | .command fd _ _ | .hangup fd => fd ∈ strangers
  | .expire _ | .reap _ _ => false

def withoutStrangers (me : Nat) : List Event → List Event :=
  purge (noteStranger me) (ofStranger me) ∅

/-- The daemon runs as `me`, and the kernel gives a connection a descriptor that is not in use. -/
def Sound (me : Nat) (m : Moment Kdesud Event) : Prop :=
  match m.event with
  | .command _ _ sys => sys.getuid = me
  | .accept fd _ _ => m.before.running = true → m.before.handlerAt fd = none
  | .expire _ | .reap _ _ | .hangup _ => True

instance soundDecidable (me : Nat) : DecidablePred (Sound me)
  | ⟨_, .command _ _ _⟩ => inferInstanceAs (Decidable (_ = _))
  | ⟨_, .accept _ _ _⟩ => inferInstanceAs (Decidable (_ → _))
  | ⟨_, .expire _⟩ | ⟨_, .reap _ _⟩ | ⟨_, .hangup _⟩ => isTrue trivial

/-- The handler of a connection of another user: it has no child. -/
def Foreign (me : Nat) (h : ConnectionHandler) : Prop := unsigned h.uid ≠ me ∧ h.m_pid = 0

/-- Two daemons of which the second has no connections of other users, and is the first one
otherwise. -/
structure Alike (me : Nat) (strangers : Finset Nat) (d d' : Kdesud) : Prop where
  running : d'.running = d.running
  repo : d'.repo = d.repo
  children : d'.children = d.children
  own : d.running = true → ∀ fd ∉ strangers, d'.handlerAt fd = d.handlerAt fd
  foreign : d.running = true → ∀ fd ∈ strangers, d'.handlerAt fd = none ∧
    ∃ h, d.handlerAt fd = some h ∧ Foreign me h

private theorem find_beyond {q : Nat → Bool} {n : Nat} (none_beyond : ∀ j, n ≤ j → q j = false)
    (k : Nat) : (List.range (n + k)).reverse.find? q = (List.range n).reverse.find? q := by
  induction k with
  | zero => rfl
  | succ k ih =>
    rw [← Nat.add_assoc, List.range_succ, List.reverse_append, List.reverse_singleton,
      List.singleton_append, List.find?_cons_of_neg (by simp [none_beyond (n + k)]), ih]

private theorem handlerAt_beyond {d : Kdesud} {fd : Nat} (beyond : d.handler.length ≤ fd) :
    d.handlerAt fd = none := by
  rw [Kdesud.handlerAt, List.getElem?_eq_none beyond]
  rfl

theorem waiting_congr {d d' : Kdesud} {pid : Pid}
    (same : ∀ fd, (d'.handlerAt fd).any (fun h => h.m_pid = pid.1) =
      (d.handlerAt fd).any fun h => h.m_pid = pid.1) : d'.waiting pid = d.waiting pid := by
  have reach (e : Kdesud) (k : Nat) :
      (List.range (e.handler.length + k)).reverse.find?
        (fun j => (e.handlerAt j).any fun h => h.m_pid = pid.1) = e.waiting pid := by
    refine find_beyond (fun j beyond => ?_) k
    rw [handlerAt_beyond beyond]
    rfl
  rw [← reach d d'.handler.length, ← reach d' d.handler.length, Nat.add_comm]
  congr 1
  funext j
  exact same j

variable {me : Nat} {strangers : Finset Nat} {d d' : Kdesud}

theorem Alike.waiting (alike : Alike me strangers d d') (running : d.running = true) (pid : Pid) :
    d'.waiting pid = d.waiting pid ∧ ∀ fd, d.waiting pid = some fd → fd ∉ strangers := by
  constructor
  · apply waiting_congr
    intro fd
    by_cases stranger : fd ∈ strangers
    · obtain ⟨gone, h, live, -, childless⟩ := alike.foreign running fd stranger
      have other : pid.1 ≠ 0 := Nat.ne_of_gt pid.2
      simp [gone, live, childless, other.symm]
    · rw [alike.own running fd stranger]
  · intro fd waits stranger
    obtain ⟨h, live, here⟩ := waiting_eq_some waits
    obtain ⟨-, h', live', -, childless⟩ := alike.foreign running fd stranger
    obtain rfl : h = h' := Option.some.inj (live.symm.trans live')
    exact Nat.ne_of_gt pid.2 (here.symm.trans childless)

def stops : Action → Bool
  | .perform _ _ _ .stop => true
  | _ => false

theorem running_step (d : Kdesud) (e : Event) :
    (step d e).1.running = (d.running && !stops (action d e)) := by
  rw [step_eq_act]
  cases action d e with
  | idle | expire | accept | drop => exact (Bool.and_true _).symm
  | reap pid status =>
    simp only [act, Kdesud.reap, stops, Bool.not_false, Bool.and_true]
    split
    · rfl
    · split <;> rfl
  | perform fd h sys request =>
    simp only [act, Kdesud.settle, Kdesud.conclude, perform_ending]
    cases request with
    | stop => exact (Bool.and_false _).symm
    | _ => exact (Bool.and_true _).symm

theorem step_stopped {d : Kdesud} (stopped : d.running = false) (e : Event) :
    step d e = (d, []) := by
  simp only [step, stopped, Bool.false_eq_true, if_false]

theorem alike_stopped (alike : Alike me strangers d d') (stopped : d.running = false)
    (strangers' : Finset Nat) : Alike me strangers' d d' :=
  ⟨alike.running, alike.repo, alike.children, fun running => by simp [stopped] at running,
    fun running => by simp [stopped] at running⟩

theorem action_stranger {e : Event} {fd : Nat} {h : ConnectionHandler} (running : d.running = true)
    (sound : Sound me ⟨d, e⟩) (live : d.handlerAt fd = some h) (foreign : Foreign me h)
    (its : (∃ buf sys, e = .command fd buf sys) ∨ e = .hangup fd) : action d e = .drop fd [] := by
  rcases its with ⟨buf, sys, rfl⟩ | rfl
  · have stranger : ¬peerIsMe sys h := fun same => foreign.1 (same.trans sound)
    simp only [action, if_pos running, live, commandAction, if_neg stranger]
  · simp only [action, if_pos running, live]

theorem alike_drop {e : Event} {fd : Nat} (alike : Alike me strangers d d')
    (running : d.running = true) (inside : fd ∈ strangers) (dropped : action d e = .drop fd []) :
    Alike me (strangers.erase fd) (step d e).1 d' ∧ (step d e).2 = [] := by
  refine ⟨⟨?_, ?_, ?_, fun _ other outside => ?_, fun _ other within => ?_⟩, ?_⟩
  · rw [running_step, dropped, alike.running]
    exact (Bool.and_true _).symm
  · rw [repo_step, dropped, alike.repo]
    rfl
  · rw [children_step, dropped, alike.children]
    rfl
  · rw [handlerAt_step, dropped, handlerAfter]
    split_ifs with same
    · exact same ▸ (alike.foreign running fd inside).1
    · exact alike.own running other fun member => outside (Finset.mem_erase.mpr ⟨same, member⟩)
  · obtain ⟨apart, member⟩ := Finset.mem_erase.mp within
    rw [handlerAt_step, dropped, handlerAfter, if_neg apart]
    exact alike.foreign running other member
  · rw [replies_step, dropped]
    rfl

theorem alike_accept {fd : Nat} {uid uninitialised : Int} (alike : Alike me strangers d d')
    (running : d.running = true) (stranger : unsigned uid ≠ me)
    (unused : d.handlerAt fd = none) :
    Alike me (insert fd strangers) (step d (.accept fd uid uninitialised)).1 d' ∧
      (step d (.accept fd uid uninitialised)).2 = [] := by
  have accepted : action d (.accept fd uid uninitialised) = .accept fd uid uninitialised := by
    simp only [action, if_pos running]
  have fresh : fd ∉ strangers := by
    intro member
    obtain ⟨-, h, live, -⟩ := alike.foreign running fd member
    rw [unused] at live
    cases live
  refine ⟨⟨?_, ?_, ?_, fun _ other outside => ?_, fun _ other within => ?_⟩, ?_⟩
  · rw [running_step, accepted, alike.running]
    exact (Bool.and_true _).symm
  · rw [repo_step, accepted, alike.repo]
    rfl
  · rw [children_step, accepted, alike.children]
    rfl
  · obtain ⟨apart, absent⟩ := not_or.mp (Finset.mem_insert.not.mp outside)
    rw [handlerAt_step, accepted, handlerAfter, if_neg apart]
    exact alike.own running other absent
  · rw [handlerAt_step, accepted, handlerAfter]
    split_ifs with same
    · refine ⟨?_, _, rfl, stranger, rfl⟩
      rw [same, alike.own running fd fresh, unused]
    · exact alike.foreign running other ((Finset.mem_insert.mp within).resolve_left same)
  · rw [replies_step, accepted]
    rfl

theorem alike_silent {e : Event} (alike : Alike me strangers d d') (sound : Sound me ⟨d, e⟩)
    (hidden : ofStranger me strangers e = true) :
    Alike me (noteStranger me strangers e) (step d e).1 d' ∧ (step d e).2 = [] := by
  cases running : d.running with
  | false =>
    rw [step_stopped running]
    exact ⟨alike_stopped alike running _, rfl⟩
  | true =>
    cases e with
    | expire now => cases hidden
    | reap pid status => cases hidden
    | accept fd uid uninitialised =>
      have stranger : unsigned uid ≠ me := by simpa [ofStranger] using hidden
      rw [noteStranger, if_neg stranger]
      exact alike_accept alike running stranger (sound running)
    | command fd buf sys =>
      have inside : fd ∈ strangers := by simpa [ofStranger] using hidden
      obtain ⟨-, h, live, foreign⟩ := alike.foreign running fd inside
      exact alike_drop alike running inside
        (action_stranger running sound live foreign (Or.inl ⟨buf, sys, rfl⟩))
    | hangup fd =>
      have inside : fd ∈ strangers := by simpa [ofStranger] using hidden
      obtain ⟨-, h, live, foreign⟩ := alike.foreign running fd inside
      exact alike_drop alike running inside
        (action_stranger running sound live foreign (Or.inr rfl))

theorem action_seen {e : Event} (alike : Alike me strangers d d') (running : d.running = true)
    (visible : ofStranger me strangers e = false) : action d' e = action d e := by
  have running' : d'.running = true := alike.running.trans running
  simp only [action, if_pos running, if_pos running']
  cases e with
  | expire now => rfl
  | reap pid status => rfl
  | accept fd uid uninitialised => rfl
  | command fd buf sys =>
    have outside : fd ∉ strangers := by simpa [ofStranger] using visible
    simp only [alike.own running fd outside]
  | hangup fd =>
    have outside : fd ∉ strangers := by simpa [ofStranger] using visible
    simp only [alike.own running fd outside]

theorem handlerAfter_seen {a : Action} {fd : Nat} (alike : Alike me strangers d d')
    (running : d.running = true) (outside : fd ∉ strangers) :
    handlerAfter d' fd a = handlerAfter d fd a := by
  have same := alike.own running fd outside
  cases a with
  | idle => exact same
  | expire now => exact same
  | accept fd' uid uninitialised => simp only [handlerAfter, same]
  | drop fd' sent => simp only [handlerAfter, same]
  | perform fd' h sys request => simp only [handlerAfter, same, alike.repo]
  | reap pid status => simp only [handlerAfter, same, (alike.waiting running pid).1]

def subject : Event → Option Nat
  | .accept fd _ _ | .command fd _ _ | .hangup fd => some fd
  | .expire _ | .reap _ _ => none

theorem handlerAfter_apart {e : Event} {fd : Nat} (apart : subject e ≠ some fd)
    (unwaited : ∀ pid status, e = .reap pid status → d.waiting pid ≠ some fd) :
    handlerAfter d fd (action d e) = d.handlerAt fd := by
  cases running : d.running with
  | false => simp only [action, running, Bool.false_eq_true, if_false, handlerAfter]
  | true =>
    simp only [action, running, if_true]
    cases e with
    | expire now => rfl
    | reap pid status => exact if_neg (unwaited pid status rfl)
    | accept fd' uid uninitialised => exact if_neg fun same => apart (congrArg some same.symm)
    | command fd' buf sys =>
      have other : fd ≠ fd' := fun same => apart (congrArg some same.symm)
      cases there : d.handlerAt fd' with
      | none => simp only [there, handlerAfter]
      | some h =>
        simp only [there, commandAction]
        split_ifs
        · split <;> exact if_neg other
        · exact if_neg other
    | hangup fd' =>
      have other : fd ≠ fd' := fun same => apart (congrArg some same.symm)
      cases there : d.handlerAt fd' with
      | none => simp only [there, handlerAfter]
      | some h =>
        simp only [there]
        exact if_neg other

theorem stranger_before {e : Event} {fd : Nat} (visible : ofStranger me strangers e = false)
    (inside : fd ∈ noteStranger me strangers e) : fd ∈ strangers ∧ subject e ≠ some fd := by
  have erased {fd' : Nat} (member : fd ∈ strangers.erase fd') :
      fd ∈ strangers ∧ some fd' ≠ some fd :=
    ⟨Finset.mem_of_mem_erase member,
      fun same => (Finset.mem_erase.mp member).1 (Option.some.inj same).symm⟩
  cases e with
  | expire now => exact ⟨inside, fun about => by cases about⟩
  | reap pid status => exact ⟨inside, fun about => by cases about⟩
  | accept fd' uid uninitialised =>
    have own : unsigned uid = me := by simpa [ofStranger] using visible
    rw [noteStranger, if_pos own] at inside
    exact erased inside
  | command fd' buf sys => exact erased inside
  | hangup fd' => exact erased inside

theorem own_before {e : Event} {fd : Nat} (visible : ofStranger me strangers e = false)
    (outside : fd ∉ noteStranger me strangers e) :
    fd ∉ strangers ∨ ∃ uid uninitialised, e = .accept fd uid uninitialised := by
  have erased {fd' : Nat} (absent : fd ∉ strangers.erase fd') : fd ∉ strangers ∨ fd = fd' := by
    by_cases same : fd = fd'
    · exact Or.inr same
    · exact Or.inl fun member => absent (Finset.mem_erase.mpr ⟨same, member⟩)
  cases e with
  | expire now => exact Or.inl outside
  | reap pid status => exact Or.inl outside
  | accept fd' uid uninitialised =>
    have own : unsigned uid = me := by simpa [ofStranger] using visible
    rw [noteStranger, if_pos own] at outside
    exact (erased outside).imp_right fun same => ⟨uid, uninitialised, by rw [same]⟩
  | command fd' buf sys =>
    refine Or.inl ((erased outside).elim id ?_)
    rintro rfl
    simpa [ofStranger] using visible
  | hangup fd' =>
    refine Or.inl ((erased outside).elim id ?_)
    rintro rfl
    simpa [ofStranger] using visible

theorem replies_seen {a : Action} (alike : Alike me strangers d d') (running : d.running = true) :
    repliesOf d a = repliesOf d' a := by
  cases a with
  | idle | expire | accept | drop => rfl
  | perform fd h sys request => simp only [repliesOf, alike.repo]
  | reap pid status =>
    obtain ⟨same, found⟩ := alike.waiting running pid
    simp only [repliesOf, same]
    cases waits : d.waiting pid with
    | none => rfl
    | some fd => simp only [alike.own running fd (found fd waits)]

theorem alike_seen {e : Event} (alike : Alike me strangers d d')
    (visible : ofStranger me strangers e = false) :
    Alike me (noteStranger me strangers e) (step d e).1 (step d' e).1 ∧
      (step d e).2 = (step d' e).2 := by
  cases running : d.running with
  | false =>
    rw [step_stopped running, step_stopped (alike.running.trans running)]
    exact ⟨alike_stopped alike running _, rfl⟩
  | true =>
    have same := action_seen alike running visible
    refine ⟨⟨?_, ?_, ?_, fun _ fd outside => ?_, fun _ fd inside => ?_⟩, ?_⟩
    · rw [running_step, running_step, same, alike.running]
    · rw [repo_step, repo_step, same, alike.repo]
    · rw [children_step, children_step, same, alike.repo, alike.children]
    · rw [handlerAt_step, handlerAt_step, same]
      rcases own_before visible outside with absent | ⟨uid, uninitialised, rfl⟩
      · exact handlerAfter_seen alike running absent
      · simp only [action, running, if_true, handlerAfter]
    · obtain ⟨member, apart⟩ := stranger_before visible inside
      have unwaited : ∀ pid status, e = .reap pid status → d.waiting pid ≠ some fd :=
        fun pid _ _ waits => (alike.waiting running pid).2 fd waits member
      have unwaited' : ∀ pid status, e = .reap pid status → d'.waiting pid ≠ some fd := by
        intro pid status reaps
        rw [(alike.waiting running pid).1]
        exact unwaited pid status reaps
      rw [handlerAt_step, handlerAt_step, handlerAfter_apart apart unwaited,
        handlerAfter_apart apart unwaited']
      exact alike.foreign running fd member
    · rw [replies_step, replies_step, same, replies_seen alike running]

theorem alike_new (fds : Descriptors) : Alike me ∅ (Kdesud.new fds) (Kdesud.new fds) :=
  ⟨rfl, rfl, rfl, fun _ _ _ => rfl, fun _ fd member => absurd member (Finset.notMem_empty fd)⟩

/-- Without the events of other users' connections the daemon is the same, when `select` wakes up
as often. -/
theorem alike_withoutStrangers (fds : Descriptors) (me : Nat) (es : List Event)
    (sound : ∀ m ∈ Kdesud.past fds es, Sound me m) :
    Alike me (marks (noteStranger me) ∅ es) (Kdesud.after fds es)
        (Kdesud.after fds (withoutStrangers me es)) ∧
      (outputs step (Kdesud.new fds) es).flatten =
        (outputs step (Kdesud.new fds) (withoutStrangers me es)).flatten :=
  purged_run (C := Sound me) (R := Alike me) (noteStranger me) (ofStranger me)
    (fun _ _ _ _ alike here hidden => alike_silent alike here hidden)
    (fun _ _ _ _ alike _ visible => alike_seen alike visible) (alike_new fds) es sound

/-- The events without some wakeups that bring nothing: behind the `expire` of such a wakeup comes
that of the next one, or nothing. -/
inductive FewerWakeups : List Event → List Event → Prop
  | nil : FewerWakeups [] []
  | keep {es fs : List Event} (e : Event) (fewer : FewerWakeups es fs) :
      FewerWakeups (e :: es) (e :: fs)
  | drop {es fs : List Event} (now : Nat) (fewer : FewerWakeups es fs)
      (empty : ∀ e ∈ fs.head?, ∃ now', e = .expire now') : FewerWakeups (.expire now :: es) fs

def expireClocks (es : List Event) : List Nat :=
  es.filterMap fun
    | .expire now => some now
    | _ => none

/-- The clock of `expire`, as 32 bits, does not go back. -/
def ClockForward (es : List Event) : Prop :=
  (expireClocks es).Pairwise fun s now => s % 2 ^ 32 ≤ now % 2 ^ 32

instance clockForwardDecidable (es : List Event) : Decidable (ClockForward es) :=
  inferInstanceAs (Decidable (List.Pairwise _ _))

theorem ClockForward.sublist {es fs : List Event} (forward : ClockForward es)
    (within : fs.Sublist es) : ClockForward fs :=
  List.Pairwise.sublist (within.filterMap _) forward

theorem FewerWakeups.sublist {es fs : List Event} (fewer : FewerWakeups es fs) :
    fs.Sublist es := by
  induction fewer with
  | nil => exact .slnil
  | keep e _ ih => exact ih.cons_cons e
  | drop now _ _ ih => exact ih.cons _

private theorem ClockForward.tail {es : List Event} {e : Event} (forward : ClockForward (e :: es)) :
    ClockForward es :=
  forward.sublist (List.sublist_cons_self e es)

private theorem ClockForward.later {es : List Event} {s now : Nat}
    (forward : ClockForward (.expire s :: es)) (member : now ∈ expireClocks es) :
    s % 2 ^ 32 ≤ now % 2 ^ 32 :=
  (List.pairwise_cons.mp forward).1 now member

theorem step_expire_expire (d : Kdesud) {s now : Nat} (later : s % 2 ^ 32 ≤ now % 2 ^ 32) :
    (step (step d (.expire s)).1 (.expire now)).1 = (step d (.expire now)).1 := by
  cases running : d.running with
  | false => rw [step_stopped running]
  | true => simp only [step, running, if_true, Repository.expire_expire d.repo later]

theorem outputs_expire (d : Kdesud) (now : Nat) : (step d (.expire now)).2 = [] := by
  simp only [step]
  split_ifs <;> rfl

/-- Without such wakeups the daemon puts out the same, and is the same up to entries that the last
of them took away. -/
theorem run_fewer {es fs : List Event} (fewer : FewerWakeups es fs) (forward : ClockForward es)
    (d : Kdesud) :
    (outputs step d es).flatten = (outputs step d fs).flatten ∧
      (run step d es = run step d fs ∨
        ∃ s ∈ expireClocks es, run step d es = (step (run step d fs) (.expire s)).1) := by
  induction fewer generalizing d with
  | nil => exact ⟨rfl, Or.inl rfl⟩
  | keep e fewer ih =>
    obtain ⟨output, final⟩ := ih forward.tail (step d e).1
    refine ⟨by simp only [outputs, List.flatten_cons, output], final.imp_right ?_⟩
    rintro ⟨s, member, last⟩
    exact ⟨s, ((List.sublist_cons_self e _).filterMap _).subset member, last⟩
  | @drop es fs now fewer empty ih =>
    obtain ⟨output, final⟩ := ih forward.tail (step d (.expire now)).1
    have here : now ∈ expireClocks (.expire now :: es) := List.mem_cons_self
    cases fs with
    | nil =>
      refine ⟨?_, Or.inr ?_⟩
      · simp only [outputs, List.flatten_cons, outputs_expire, List.nil_append, output]
      · rcases final with same | ⟨s, member, last⟩
        · exact ⟨now, here, same⟩
        · refine ⟨s, List.mem_cons_of_mem now member, ?_⟩
          exact last.trans (step_expire_expire d (forward.later member))
    | cons f fs =>
      obtain ⟨now', rfl⟩ := empty f rfl
      have later : now % 2 ^ 32 ≤ now' % 2 ^ 32 :=
        forward.later ((fewer.sublist.filterMap _).subset List.mem_cons_self)
      have same := step_expire_expire d later
      have caught_up : run step (step d (.expire now)).1 (.expire now' :: fs) =
          run step d (.expire now' :: fs) := by
        simp only [run, same]
      rw [caught_up] at final
      refine ⟨?_, ?_⟩
      · rw [outputs, List.flatten_cons, outputs_expire, List.nil_append, output]
        simp only [outputs, same, outputs_expire]
      · rcases final with equal | ⟨s, member, last⟩
        · exact Or.inl equal
        · exact Or.inr ⟨s, List.mem_cons_of_mem now member, last⟩

/-- What other users do on their connections changes nothing for anybody: without all that, and
without the wakeups that bring nothing then, the daemon ends with the same children and the same
handlers for its own user's connections, has sent the same replies in the same order, and has the
same repository but for entries whose time was over. -/
theorem strangers_change_nothing (fds : Descriptors) (me : Nat) (es : List Event)
    (sound : ∀ m ∈ Kdesud.past fds es, Sound me m) (forward : ClockForward es)
    {own : List Event} (without : FewerWakeups (withoutStrangers me es) own) :
    (Kdesud.after fds own).running = (Kdesud.after fds es).running ∧
      ((Kdesud.after fds es).repo = (Kdesud.after fds own).repo ∨
        ∃ s ∈ expireClocks es,
          (Kdesud.after fds es).repo = ((Kdesud.after fds own).repo.expire s).1) ∧
      (Kdesud.after fds own).children = (Kdesud.after fds es).children ∧
      ((Kdesud.after fds es).running = true →
        ∀ fd ∉ marks (noteStranger me) ∅ es,
          (Kdesud.after fds own).handlerAt fd = (Kdesud.after fds es).handlerAt fd) ∧
      (outputs step (Kdesud.new fds) es).flatten = (outputs step (Kdesud.new fds) own).flatten := by
  obtain ⟨alike, output⟩ := alike_withoutStrangers fds me es sound
  have within := purge_sublist (noteStranger me) (ofStranger me) ∅ es
  obtain ⟨output', final⟩ := run_fewer without (forward.sublist within) (Kdesud.new fds)
  have replies := output.trans output'
  rcases final with same | ⟨s, member, last⟩
  · have same : Kdesud.after fds (withoutStrangers me es) = Kdesud.after fds own := same
    rw [same] at alike
    exact ⟨alike.running, Or.inl alike.repo.symm, alike.children, alike.own, replies⟩
  · have last : Kdesud.after fds (withoutStrangers me es) =
        (step (Kdesud.after fds own) (.expire s)).1 := last
    rw [last] at alike
    cases running : (Kdesud.after fds own).running with
    | false =>
      rw [step_stopped running] at alike
      exact ⟨running ▸ alike.running, Or.inl alike.repo.symm, alike.children, alike.own, replies⟩
    | true =>
      simp only [step, running, if_true] at alike
      have member : s ∈ expireClocks es := (within.filterMap _).subset member
      exact ⟨running ▸ alike.running, Or.inr ⟨s, member, alike.repo.symm⟩, alike.children,
        alike.own, replies⟩

/-- The user sets a variable for ten seconds. Behind that another user asks for it, and asks to
stop the daemon; his descriptor is used again for the first user. -/
def visited : List Event :=
  let sys : SysCalls := ⟨1000, 100, 100, none⟩
  [.expire 100, .accept 6 1000 0, .expire 100, .command 6 (ascii "SET \"a\" \"b\" \"g\" 10\n") sys,
    .expire 110, .accept 7 1001 0, .expire 111, .command 7 (ascii "GET \"a\"\n") sys,
    .expire 112, .accept 7 1001 0, .expire 113, .command 7 (ascii "STOP\n") sys,
    .expire 114, .accept 7 1000 0]

def unvisited : List Event :=
  let sys : SysCalls := ⟨1000, 100, 100, none⟩
  [.expire 100, .accept 6 1000 0, .expire 100, .command 6 (ascii "SET \"a\" \"b\" \"g\" 10\n") sys,
    .expire 114, .accept 7 1000 0]

theorem unvisited_of_visited : FewerWakeups (withoutStrangers 1000 visited) unvisited := by
  have left : withoutStrangers 1000 visited = unvisited.take 4 ++
      [.expire 110, .expire 111, .expire 112, .expire 113] ++ unvisited.drop 4 := rfl
  have next : ∀ e ∈ (unvisited.drop 4).head?, ∃ now, e = .expire now := by
    rintro e here
    exact ⟨114, (Option.some.inj here).symm⟩
  rw [left]
  refine .keep _ (.keep _ (.keep _ (.keep _ ?_)))
  exact .drop _ (.drop _ (.drop _ (.drop _ (.keep _ (.keep _ .nil)) next) next) next) next

theorem strangers_change_nothing_visited :
    ((Kdesud.after .lowest visited).repo = (Kdesud.after .lowest unvisited).repo ∨
        ∃ s ∈ expireClocks visited,
          (Kdesud.after .lowest visited).repo =
            ((Kdesud.after .lowest unvisited).repo.expire s).1) ∧
      (outputs step (Kdesud.new .lowest) visited).flatten =
        (outputs step (Kdesud.new .lowest) unvisited).flatten :=
  have sound : ∀ m ∈ Kdesud.past .lowest visited, Sound 1000 m := by decide +kernel
  have forward : ClockForward visited := by decide +kernel
  have same := strangers_change_nothing .lowest 1000 visited sound forward unvisited_of_visited
  ⟨same.2.1, same.2.2.2.2⟩

end KDESu.Daemon.Strangers
