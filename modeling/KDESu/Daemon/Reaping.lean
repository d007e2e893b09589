/- KDESu/Daemon/Reaping
   source: src/kdesud/kdesud.cpp
   digest: The children that end, sigchld_handler, its pipe and the reaping loop, interleaved. -/

import KDESu.Daemon.Polling
import KDESu.Library.SelfPipe

set_option autoImplicit false
set_option relaxedAutoImplicit false

namespace KDESu.Daemon.Reaping

open KDESu.ByteArrays
open KDESu.Library.Histories
open KDESu.Library.SelfPipe
open KDESu.Daemon.Handling
open KDESu.Daemon.EventLoop
open KDESu.Daemon.Receiving
open KDESu.Daemon.Polling

/-- The main loop beside its children: `notices` has those that have ended, with the status that
`waitpid` has for each, the pending SIGCHLD, and the bytes in `pipeOfDeath`. It collects from the
`read` of the pipe to the `waitpid` that answers no child. -/
structure Watched where
  loop : MainLoop
  notices : Notices (Pid × Nat)

/-- A child ends; a pending SIGCHLD is delivered; the main loop calls `select`, looks at
descriptor `i`, or calls `waitpid`, which answers one of the children that have ended. -/
inductive Happening
  | ends (pid : Pid) (status : Nat)
  | deliver
  | select (ready : Finset Nat) (now : Nat)
  | look (accepted : Option (Nat × Int × Int)) (r : Recv) (sys : Nat → SysCalls)
  | waitpid (n : Nat)

namespace Watched

def new (fds : Descriptors) : Watched := ⟨.new fds, .new⟩

/-- The body of the loop is at the pipe, which was ready at the last `select`. -/
def AtPipe (fds : Descriptors) (p : MainLoop) : Prop :=
  p.i = fds.pipeOfDeath ∧ p.i ≤ p.daemon.maxfd ∧ p.i ∈ p.tmp_fds

instance atPipeDecidable (fds : Descriptors) (p : MainLoop) : Decidable (AtPipe fds p) :=
  inferInstanceAs (Decidable (_ ∧ _))

/-- What `select` finds ready: the pipe exactly if there are bytes in it. -/
def ready (fds : Descriptors) (w : Watched) (others : Finset Nat) : Finset Nat :=
  if 0 < w.notices.pipe then insert fds.pipeOfDeath others else others.erase fds.pipeOfDeath

def opened (fds : Descriptors) (p : MainLoop) (accepted : Option (Nat × Int × Int)) :
    Option (Nat × Int × Int) :=
  accepted.filter fun connection => ¬Own fds connection.1 ∧ connection.1 ∉ p.connections

def notice (w : Watched) (notice : Notice (Pid × Nat)) : Watched × List (Note (Pid × Nat)) :=
  ({ w with notices := (w.notices.step notice).1 }, (w.notices.step notice).2)

def turn (fds : Descriptors) (w : Watched) (turn : Turn) : Watched :=
  { w with loop := (w.loop.step fds turn).1 }

/-- A look at the pipe reads it and collects; any other look is a turn of the main loop. -/
def look (fds : Descriptors) (w : Watched) (accepted : Option (Nat × Int × Int)) (r : Recv)
    (sys : Nat → SysCalls) : Watched × List (Note (Pid × Nat)) :=
  let rest : Turn := .look [] (opened fds w.loop accepted) r sys
  if AtPipe fds w.loop then
    if w.notices.collecting then
      if w.notices.waiting.length = 0 then (w.turn fds rest).notice .done else (w, [])
    else w.notice (.read 100)
  else (w.turn fds rest, [])

def waitpid (w : Watched) (n : Nat) : Watched × List (Note (Pid × Nat)) :=
  if w.notices.collecting then
    match w.notices.waiting[n]? with
    | some child => ({ w with loop := w.loop.reap [child] } : Watched).notice (.collect n)
    | none => (w, [])
  else (w, [])

/-- A child that ends is one that was forked and has not ended before. -/
def step (fds : Descriptors) (w : Watched) (happening : Happening) :
    Watched × List (Note (Pid × Nat)) :=
  if w.loop.daemon.running then
    match happening with
    | .ends pid status =>
        if w.loop.daemon.children.any (· = pid) ∧ w.notices.waiting.all (·.1 ≠ pid) then
          w.notice (.finish (pid, status))
        else (w, [])
    | .deliver => w.notice .deliver
    | .select others now => (w.turn fds (.select (w.ready fds others) now), [])
    | .look accepted r sys => w.look fds accepted r sys
    | .waitpid n => w.waitpid n
  else (w, [])

end Watched

/-- No client is on a descriptor of the daemon's own, and the pipe is watched. -/
structure Attends (fds : Descriptors) (d : Kdesud) : Prop where
  clients : ∀ fd, Own fds fd → d.handlerAt fd = none
  active : fds.pipeOfDeath ∈ d.active_fds
  below : fds.pipeOfDeath ≤ d.maxfd

section

variable {fds : Descriptors}

theorem attends_new (fds : Descriptors) : Attends fds (Kdesud.new fds) where
  clients _ _ := rfl
  active := (mem_active_new_iff fds _).mpr (Or.inr (Or.inl rfl))
  below := Nat.le_max_right _ _

private theorem Attends.same {d d' : Kdesud} (attends : Attends fds d) (same : SameTable d d') :
    Attends fds d' where
  clients fd own := by
    have live := same.handlers fd
    rw [attends.clients fd own, Option.map_none] at live
    exact Option.map_eq_none_iff.mp live
  active := same.active ▸ attends.active
  below := same.maxfd ▸ attends.below

private theorem Attends.accept {d : Kdesud} (attends : Attends fds d) {fd : Nat}
    (client : ¬Own fds fd) (uid uninitialised : Int) :
    Attends fds (d.accept fd uid uninitialised) where
  clients fd' own := by
    have placed : (d.accept fd uid uninitialised).handlerAt fd' =
        if fd' = fd then some (.new fd uid uninitialised) else d.handlerAt fd' :=
      handlerAt_step { d with running := true } (.accept fd uid uninitialised) fd'
    have other : fd' ≠ fd := fun same => client (same ▸ own)
    rw [placed, if_neg other, attends.clients fd' own]
  active := mem_FD_SET.mpr (Or.inr attends.active)
  below := Nat.le_trans attends.below (Nat.le_max_left _ _)

private theorem Attends.conclude {d : Kdesud} (attends : Attends fds d) {fd : Nat}
    (live : (d.handlerAt fd).isSome) (ending : Ending) : Attends fds (d.conclude fd ending) := by
  have client : ¬Own fds fd := fun own => by simp [attends.clients fd own] at live
  cases ending with
  | ok => exact attends
  | exit => exact ⟨attends.clients, attends.active, attends.below⟩
  | error =>
    refine ⟨fun fd' own => ?_, ?_, attends.below⟩
    · rw [Kdesud.conclude, handlerAt_close, attends.clients fd' own, ite_self]
    · exact Finset.mem_erase.mpr ⟨fun same => client (Or.inr (Or.inl same.symm)), attends.active⟩

private theorem attends_serve {p : MainLoop} (running : p.daemon.running = true)
    (attends : Attends fds p.daemon) (r : Recv) (sys : Nat → SysCalls) :
    Attends fds (p.serve r sys).1.daemon := by
  by_cases served : (p.daemon.handlerAt p.i).isSome
  · have handled := sameTable_handled p r sys
    have still : ((p.handled r sys).state.daemon.handlerAt p.i).isSome := by
      rw [← Option.isSome_map, handled.handlers, Option.isSome_map]
      exact served
    simp only [MainLoop.serve, if_pos served, MainLoop.daemon]
    rw [daemon_served running served]
    exact (attends.same handled).conclude still _
  · simpa only [MainLoop.serve, if_neg served] using attends

private theorem attends_accepted {p : MainLoop} (running : p.daemon.running = true)
    (attends : Attends fds p.daemon) (accepted : Option (Nat × Int × Int)) :
    Attends fds (p.accept (Watched.opened fds p accepted)).1.daemon := by
  cases answer : Watched.opened fds p accepted with
  | none => exact attends
  | some connection =>
    obtain ⟨fd, uid, uninitialised⟩ := connection
    have client : ¬Own fds fd := by
      have kept := (Option.filter_eq_some_iff.mp answer).2
      simp only [decide_eq_true_eq] at kept
      exact kept.1
    have daemon : (p.accept (some (fd, uid, uninitialised))).1.daemon =
        p.daemon.accept fd uid uninitialised := by
      simp only [MainLoop.accept, MainLoop.daemon]
      cases p.daemon.handlerAt fd <;>
        simp only [MainLoop.delete, Buffered.step, Buffered.other, EventLoop.step, running,
          if_true]
    rw [daemon]
    exact attends.accept client uid uninitialised

private theorem attends_look {p : MainLoop} (running : p.daemon.running = true)
    (attends : Attends fds p.daemon) (accepted : Option (Nat × Int × Int)) (r : Recv)
    (sys : Nat → SysCalls) :
    Attends fds (p.look fds [] (Watched.opened fds p accepted) r sys).1.daemon := by
  have reaped : (if p.i = fds.pipeOfDeath then p.reap [] else p) = p := ite_self p
  simp only [MainLoop.look, reaped]
  split_ifs
  · exact attends
  · exact attends_accepted running attends accepted
  · exact attends_serve running attends r sys

private theorem tmp_fds_look (fds : Descriptors) (p : MainLoop)
    (accepted : Option (Nat × Int × Int)) (r : Recv) (sys : Nat → SysCalls) :
    (p.look fds [] accepted r sys).1.tmp_fds = p.tmp_fds := by
  have reaped : (if p.i = fds.pipeOfDeath then p.reap [] else p) = p := ite_self p
  have deleted (h : Option ConnectionHandler) (q : MainLoop) :
      (q.delete h).1.tmp_fds = q.tmp_fds := by
    cases h <;> rfl
  simp only [MainLoop.look, reaped]
  split_ifs
  · rfl
  · cases accepted with
    | none => rfl
    | some connection => exact deleted _ _
  · simp only [MainLoop.serve]
    split_ifs
    · exact deleted _ _
    · rfl
    · rfl

private theorem turned_look {p : MainLoop} (running : p.daemon.running = true)
    (attends : Attends fds p.daemon) (accepted : Option (Nat × Int × Int)) (r : Recv)
    (sys : Nat → SysCalls) :
    let p' := (p.step fds (.look [] (Watched.opened fds p accepted) r sys)).1
    Attends fds p'.daemon ∧ p'.tmp_fds = p.tmp_fds ∧
      p'.i = if p.i ≤ p.daemon.maxfd then p.i + 1 else p.i := by
  simp only [MainLoop.step, running, if_true]
  by_cases within : p.i ≤ p.daemon.maxfd
  · by_cases found : p.i ∈ p.tmp_fds
    · simp only [within, found, if_true]
      exact ⟨attends_look running attends accepted r sys, tmp_fds_look fds p _ r sys, trivial⟩
    · simp only [within, found, if_true, if_false]
      exact ⟨attends, trivial, trivial⟩
  · simp only [within, if_false]
    exact ⟨attends, trivial, trivial⟩

private theorem turned_select {p : MainLoop} (running : p.daemon.running = true)
    (ended : p.daemon.maxfd < p.i) (found : Finset Nat) (now : Nat) :
    let p' := (p.step fds (.select found now)).1
    SameTable p.daemon p'.daemon ∧ p'.tmp_fds = p.daemon.active_fds ∩ found ∧ p'.i = 0 := by
  simp only [MainLoop.step, running, if_true, if_pos ended]
  exact ⟨sameTable_expire p.daemon now, trivial, trivial⟩

private theorem unturned_select {p : MainLoop} (within : p.i ≤ p.daemon.maxfd)
    (found : Finset Nat) (now : Nat) : (p.step fds (.select found now)).1 = p := by
  simp only [MainLoop.step, if_neg (Nat.not_lt.mpr within)]
  split_ifs <;> rfl

end

inductive Stepped (fds : Descriptors) (w : Watched) : Watched → List (Note (Pid × Nat)) → Prop
  | idle : Stepped fds w w []
  | ends (pid : Pid) (status : Nat) (running : w.loop.daemon.running = true)
      (alive : pid ∈ w.loop.daemon.children) (first : ∀ child ∈ w.notices.waiting, child.1 ≠ pid) :
      Stepped fds w (w.notice (.finish (pid, status))).1 (w.notice (.finish (pid, status))).2
  | deliver (running : w.loop.daemon.running = true) :
      Stepped fds w (w.notice .deliver).1 (w.notice .deliver).2
  | select (others : Finset Nat) (now : Nat) (running : w.loop.daemon.running = true) :
      Stepped fds w (w.turn fds (.select (w.ready fds others) now)) []
  | look (accepted : Option (Nat × Int × Int)) (r : Recv) (sys : Nat → SysCalls)
      (running : w.loop.daemon.running = true) (apart : ¬Watched.AtPipe fds w.loop) :
      Stepped fds w (w.turn fds (.look [] (Watched.opened fds w.loop accepted) r sys)) []
  | read (running : w.loop.daemon.running = true) (here : Watched.AtPipe fds w.loop)
      (idle : w.notices.collecting = false) :
      Stepped fds w (w.notice (.read 100)).1 (w.notice (.read 100)).2
  | done (accepted : Option (Nat × Int × Int)) (r : Recv) (sys : Nat → SysCalls)
      (running : w.loop.daemon.running = true) (here : Watched.AtPipe fds w.loop)
      (collecting : w.notices.collecting = true) (none_left : w.notices.waiting = []) :
      Stepped fds w
        ((w.turn fds (.look [] (Watched.opened fds w.loop accepted) r sys)).notice .done).1
        ((w.turn fds (.look [] (Watched.opened fds w.loop accepted) r sys)).notice .done).2
  | waitpid (n : Nat) (child : Pid × Nat) (running : w.loop.daemon.running = true)
      (collecting : w.notices.collecting = true) (there : w.notices.waiting[n]? = some child) :
      Stepped fds w (({ w with loop := w.loop.reap [child] } : Watched).notice (.collect n)).1
        (({ w with loop := w.loop.reap [child] } : Watched).notice (.collect n)).2

theorem stepped (fds : Descriptors) (w : Watched) (happening : Happening) :
    Stepped fds w (w.step fds happening).1 (w.step fds happening).2 := by
  cases running : w.loop.daemon.running with
  | false =>
    simp only [Watched.step, running, Bool.false_eq_true, if_false]
    exact .idle
  | true =>
    simp only [Watched.step, running, if_true]
    cases happening with
    | ends pid status =>
      simp only
      split_ifs with ending
      · exact .ends pid status running (by simpa using ending.1) (by simpa using ending.2)
      · exact .idle
    | deliver => exact .deliver running
    | select others now => exact .select others now running
    | look accepted r sys =>
      simp only [Watched.look]
      split_ifs with here collecting none_left
      · exact .done accepted r sys running here collecting (List.length_eq_zero_iff.mp none_left)
      · exact .idle
      · exact .read running here (Bool.eq_false_of_not_eq_true collecting)
      · exact .look accepted r sys running here
    | waitpid n =>
      simp only [Watched.waitpid]
      split_ifs with collecting
      · cases there : w.notices.waiting[n]? with
        | none => exact .idle
        | some child => exact .waitpid n child running collecting there
      · exact .idle

/-- The loop collects only at the pipe, and what the snapshot has still to come of the pipe is
there. -/
structure Follows (fds : Descriptors) (w : Watched) : Prop where
  attends : Attends fds w.loop.daemon
  collects : w.notices.collecting = true → Watched.AtPipe fds w.loop
  readable : fds.pipeOfDeath ∈ w.loop.tmp_fds → w.loop.i ≤ fds.pipeOfDeath →
    w.notices.collecting = false → 0 < w.notices.pipe

theorem follows_new (fds : Descriptors) : Follows fds (.new fds) where
  attends := attends_new fds
  collects collecting := by cases collecting
  readable member := absurd member (Finset.notMem_empty _)

section

variable {fds : Descriptors} {w : Watched}

private theorem Follows.notice (follows : Follows fds w) {notice : Notice (Pid × Nat)}
    (collecting : (w.notices.step notice).1.collecting = w.notices.collecting)
    (pipe : w.notices.pipe ≤ (w.notices.step notice).1.pipe) :
    Follows fds (w.notice notice).1 where
  attends := follows.attends
  collects now := follows.collects (collecting.symm.trans now)
  readable member before idle :=
    Nat.lt_of_lt_of_le (follows.readable member before (collecting.symm.trans idle)) pipe

private theorem Follows.select (follows : Follows fds w) (running : w.loop.daemon.running = true)
    (others : Finset Nat) (now : Nat) :
    Follows fds (w.turn fds (.select (w.ready fds others) now)) := by
  by_cases ended : w.loop.daemon.maxfd < w.loop.i
  · obtain ⟨same, found, -⟩ := turned_select running ended (w.ready fds others) now
    have idle : w.notices.collecting = true → False := fun collecting =>
      Nat.not_lt.mpr (follows.collects collecting).2.1 ended
    refine ⟨follows.attends.same same, fun collecting => (idle collecting).elim, ?_⟩
    intro member _ _
    have ready : fds.pipeOfDeath ∈ w.ready fds others :=
      Finset.mem_of_mem_inter_right (found ▸ member)
    by_contra empty
    simp [Watched.ready, show ¬0 < w.notices.pipe from empty] at ready
  · have same : w.turn fds (.select (w.ready fds others) now) = w := by
      simp only [Watched.turn, unturned_select (Nat.not_lt.mp ended)]
    rw [same]
    exact follows

private theorem Follows.look (follows : Follows fds w) (running : w.loop.daemon.running = true)
    (apart : ¬Watched.AtPipe fds w.loop) (accepted : Option (Nat × Int × Int)) (r : Recv)
    (sys : Nat → SysCalls) :
    Follows fds (w.turn fds (.look [] (Watched.opened fds w.loop accepted) r sys)) := by
  obtain ⟨attends, same, next⟩ := turned_look running follows.attends accepted r sys
  refine ⟨attends, fun collecting => absurd (follows.collects collecting) apart, ?_⟩
  intro member before idle
  refine follows.readable (same ▸ member) (Nat.le_trans ?_ before) idle
  simp only [Watched.turn, next]
  split_ifs
  · exact Nat.le_succ _
  · exact Nat.le_refl _

private theorem Follows.done (follows : Follows fds w) (running : w.loop.daemon.running = true)
    (here : Watched.AtPipe fds w.loop) (collecting : w.notices.collecting = true)
    (none_left : w.notices.waiting = []) (accepted : Option (Nat × Int × Int)) (r : Recv)
    (sys : Nat → SysCalls) :
    Follows fds
      ((w.turn fds (.look [] (Watched.opened fds w.loop accepted) r sys)).notice .done).1 := by
  obtain ⟨attends, -, next⟩ := turned_look running follows.attends accepted r sys
  have closed : (w.notices.step .done).1 = { w.notices with collecting := false } := by
    simp [Notices.step, collecting, none_left]
  refine ⟨attends, fun still => ?_, fun _ before _ => ?_⟩
  · have no : (w.notices.step .done).1.collecting = true := still
    rw [closed] at no
    cases no
  · rw [if_pos here.2.1] at next
    have behind : w.loop.i + 1 ≤ fds.pipeOfDeath := next ▸ before
    rw [here.1] at behind
    exact absurd behind (Nat.not_succ_le_self _)

private theorem Follows.waitpid (follows : Follows fds w)
    (collecting : w.notices.collecting = true) (n : Nat) (child : Pid × Nat) :
    Follows fds (({ w with loop := w.loop.reap [child] } : Watched).notice (.collect n)).1 := by
  have same := (sameTable_reaps [child] w.loop).1
  obtain ⟨at_pipe, within, found⟩ := follows.collects collecting
  have still : (w.notices.step (.collect n)).1.collecting = true := by
    simp only [Notices.step, collecting, if_true]
    cases w.notices.waiting[n]? with
    | none => exact collecting
    | some _ => rfl
  refine ⟨follows.attends.same same, fun _ => ⟨at_pipe, ?_, found⟩, fun _ _ idle => ?_⟩
  · have kept : (w.loop.reap [child]).daemon.maxfd = w.loop.daemon.maxfd := same.maxfd
    exact kept.symm ▸ within
  · have no : (w.notices.step (.collect n)).1.collecting = false := idle
    rw [still] at no
    cases no

theorem Follows.step (follows : Follows fds w) (happening : Happening) :
    Follows fds (w.step fds happening).1 := by
  have ways := stepped fds w happening
  generalize w.step fds happening = after at ways
  obtain ⟨w', notes⟩ := after
  cases ways with
  | idle => exact follows
  | ends pid status => exact follows.notice rfl (Nat.le_refl _)
  | deliver =>
    refine follows.notice ?_ ?_
    · simp only [Notices.step]
      split_ifs <;> rfl
    · simp only [Notices.step]
      split_ifs
      · exact Nat.le_succ _
      · exact Nat.le_refl _
  | select others now running => exact follows.select running others now
  | look accepted r sys running apart => exact follows.look running apart accepted r sys
  | read running here idle =>
    have pending := follows.readable (here.1 ▸ here.2.2) (Nat.le_of_eq here.1) idle
    have read : (w.notices.step (.read 100)).1 =
        { w.notices with pipe := w.notices.pipe - 100, collecting := true } := by
      simp only [Notices.step, if_pos pending]
    refine ⟨follows.attends, fun _ => here, fun _ _ still => ?_⟩
    have no : (w.notices.step (.read 100)).1.collecting = false := still
    rw [read] at no
    cases no
  | done accepted r sys running here collecting none_left =>
    exact follows.done running here collecting none_left accepted r sys
  | waitpid n child running collecting there => exact follows.waitpid collecting n child

end

private theorem accounted_step {fds : Descriptors} {w : Watched} {notes : List (Note (Pid × Nat))}
    (accounted : Accounted notes w.notices) (happening : Happening) :
    Accounted (notes ++ (w.step fds happening).2) (w.step fds happening).1.notices := by
  have ways := stepped fds w happening
  generalize w.step fds happening = after at ways
  obtain ⟨w', new⟩ := after
  cases ways with
  | idle | select | look =>
    rw [List.append_nil]
    exact accounted
  | ends pid status => exact accounted.step (.finish (pid, status))
  | deliver => exact accounted.step .deliver
  | read => exact accounted.step (.read 100)
  | done => exact accounted.step .done
  | waitpid n => exact accounted.step (.collect n)

abbrev Watched.after (fds : Descriptors) (hs : List Happening) : Watched :=
  run (Watched.step fds) (.new fds) hs

abbrev Watched.notes (fds : Descriptors) (hs : List Happening) : List (Note (Pid × Nat)) :=
  (outputs (Watched.step fds) (.new fds) hs).flatten

theorem follows_run (fds : Descriptors) (hs : List Happening) : Follows fds (.after fds hs) :=
  invariant_run (follows_new fds) (fun _ happening follows => follows.step happening) hs

theorem accounted_run (fds : Descriptors) (hs : List Happening) :
    Accounted (Watched.notes fds hs) (Watched.after fds hs).notices :=
  outputs_induction (P := fun notes (w : Watched) => Accounted notes w.notices) accounted_new
    (fun _ _ happening accounted => accounted_step accounted happening) hs

/-- In every interleaving of children that end, signals and the main loop: a child that has
ended is waited for once, with its own status, or is still to be waited for; while there is one,
the signal is pending, the pipe has a byte, or the reaping loop runs; the read of the pipe finds
a byte; and the pipe holds no more bytes than children have ended. -/
theorem no_child_forgotten (fds : Descriptors) (hs : List Happening) :
    let w := Watched.after fds hs
    let notes := Watched.notes fds hs
    (finishedOf notes).Perm (collectedOf notes ++ w.notices.waiting) ∧
      (w.notices.waiting ≠ [] →
        w.notices.signal = true ∨ 0 < w.notices.pipe ∨ w.notices.collecting = true) ∧
      (Watched.AtPipe fds w.loop → w.notices.collecting = false → 0 < w.notices.pipe) ∧
      w.notices.pipe ≤ (finishedOf notes).length := by
  intro w notes
  have accounted := accounted_run fds hs
  have follows := follows_run fds hs
  refine ⟨accounted.conserved, accounted.awake, fun here idle => ?_, ?_⟩
  · exact follows.readable (here.1 ▸ here.2.2) (Nat.le_of_eq here.1) idle
  · exact Nat.le_trans (Nat.le_add_right _ _) accounted.bytes

/-- A child that has ended and whose pipe is still to come in the snapshot. -/
structure Due (fds : Descriptors) (child : Pid × Nat) (w : Watched) : Prop where
  follows : Follows fds w
  ended : child ∈ w.notices.waiting
  found : fds.pipeOfDeath ∈ w.loop.tmp_fds
  before : w.loop.i ≤ fds.pipeOfDeath

section

variable {fds : Descriptors} {child : Pid × Nat} {w : Watched}

private theorem due_step (due : Due fds child w) (happening : Happening) :
    child ∈ collectedOf (w.step fds happening).2 ∨ Due fds child (w.step fds happening).1 := by
  have follows := due.follows.step happening
  have ways := stepped fds w happening
  generalize w.step fds happening = after at ways follows
  obtain ⟨w', notes⟩ := after
  have within : w.loop.i ≤ w.loop.daemon.maxfd :=
    Nat.le_trans due.before due.follows.attends.below
  cases ways with
  | idle => exact Or.inr due
  | ends pid status =>
    exact Or.inr ⟨follows, List.mem_append_left _ due.ended, due.found, due.before⟩
  | deliver =>
    refine Or.inr ⟨follows, ?_, due.found, due.before⟩
    have kept : (w.notices.step .deliver).1.waiting = w.notices.waiting := by
      simp only [Notices.step]
      split_ifs <;> rfl
    exact kept.symm ▸ due.ended
  | select others now =>
    refine Or.inr ?_
    simp only [unturned_select within]
    exact due
  | look accepted r sys running apart =>
    obtain ⟨-, same, next⟩ := turned_look running due.follows.attends accepted r sys
    refine Or.inr ⟨follows, due.ended, ?_, ?_⟩
    · exact same.symm ▸ due.found
    · have other : w.loop.i ≠ fds.pipeOfDeath := fun here =>
        apart ⟨here, within, here.symm ▸ due.found⟩
      rw [if_pos within] at next
      have behind : w.loop.i + 1 ≤ fds.pipeOfDeath := Nat.lt_of_le_of_ne due.before other
      exact next.symm ▸ behind
  | read =>
    refine Or.inr ⟨follows, ?_, due.found, due.before⟩
    have kept : (w.notices.step (.read 100)).1.waiting = w.notices.waiting := by
      simp only [Notices.step]
      split_ifs <;> rfl
    exact kept.symm ▸ due.ended
  | done accepted r sys running here collecting none_left =>
    exact absurd due.ended (none_left ▸ List.not_mem_nil)
  | waitpid n other running collecting there =>
    have collect : w.notices.step (.collect n) =
        ({ w.notices with waiting := w.notices.waiting.eraseIdx n }, [.collected other]) := by
      simp only [Notices.step, collecting, if_true, there]
    by_cases same : child = other
    · refine Or.inl ?_
      simp [collect, collectedOf, same]
    · refine Or.inr ⟨follows, ?_, due.found, due.before⟩
      obtain ⟨inside, here⟩ := List.getElem?_eq_some_iff.mp there
      have rest := (List.getElem_cons_eraseIdx_perm inside).mem_iff.mpr due.ended
      have left : child ∈ w.notices.waiting.eraseIdx n :=
        (List.mem_cons.mp rest).resolve_left fun first => same (first.trans here)
      simp only [collect]
      exact left

private theorem due_run (due : Due fds child w) (hs : List Happening)
    (behind : fds.pipeOfDeath < (run (Watched.step fds) w hs).loop.i) :
    child ∈ collectedOf (outputs (Watched.step fds) w hs).flatten := by
  induction hs generalizing w with
  | nil => exact absurd due.before (Nat.not_le.mpr behind)
  | cons happening hs ih =>
    rw [outputs, List.flatten_cons, collectedOf_append]
    rcases due_step due happening with collected | still
    · exact List.mem_append_left _ collected
    · exact List.mem_append_right _ (ih still behind)

end

/-- Every child that has ended when `select` is called with its signal delivered is waited for
before the loop is past the pipe, whatever happens in between. -/
theorem reaped_in_sweep (fds : Descriptors) (hs hs' : List Happening) (others : Finset Nat)
    (now : Nat) (running : (Watched.after fds hs).loop.daemon.running = true)
    (ended : (Watched.after fds hs).loop.daemon.maxfd < (Watched.after fds hs).loop.i)
    (delivered : (Watched.after fds hs).notices.signal = false)
    (behind : fds.pipeOfDeath < (Watched.after fds (hs ++ .select others now :: hs')).loop.i) :
    ∀ child ∈ (Watched.after fds hs).notices.waiting, child ∈ collectedOf
      (outputs (Watched.step fds) (Watched.after fds hs) (.select others now :: hs')).flatten := by
  intro child waits
  have follows := follows_run fds hs
  have passed : fds.pipeOfDeath <
      (run (Watched.step fds) (Watched.after fds hs) (.select others now :: hs')).loop.i := by
    rw [Watched.after, run_append] at behind
    exact behind
  have awake := (accounted_run fds hs).awake
  generalize Watched.after fds hs = w at running ended delivered follows waits passed awake
  have pending : 0 < w.notices.pipe := by
    rcases awake (List.ne_nil_of_mem waits) with signal | pipe | collecting
    · rw [delivered] at signal
      cases signal
    · exact pipe
    · exact absurd ended (Nat.not_lt.mpr (follows.collects collecting).2.1)
  have selected : w.step fds (.select others now) =
      (w.turn fds (.select (w.ready fds others) now), []) := by
    simp only [Watched.step, running, if_true]
  obtain ⟨-, found, start⟩ := turned_select running ended (w.ready fds others) now
  have due : Due fds child (w.step fds (.select others now)).1 := by
    refine ⟨follows.step _, ?_, ?_, ?_⟩
    · rw [selected]
      exact waits
    · rw [selected]
      have ready : fds.pipeOfDeath ∈ w.ready fds others := by simp [Watched.ready, pending]
      exact found.symm ▸ Finset.mem_inter.mpr ⟨follows.attends.active, ready⟩
    · rw [selected]
      exact start.symm ▸ Nat.zero_le _
  rw [outputs, List.flatten_cons, collectedOf_append]
  exact List.mem_append_right _ (due_run due hs' passed)

def plainLook : Happening := .look none .interrupted uidOnly

def childEnds : List Happening :=
  [.select {3} 100, plainLook, plainLook, plainLook, .look (some (6, 1000, 0)) .interrupted uidOnly,
    plainLook, plainLook, plainLook, .select {6} 101] ++ List.replicate 6 plainLook ++
  [.look none (.data (ascii "PASS pw 60\nEXEC ls root\n")) fun _ => ⟨1000, 101, 101, some 77⟩,
    .ends 77 768, .deliver]

def sweep : List Happening := List.replicate 5 plainLook ++ [.waitpid 0, plainLook]

theorem reaped_in_sweep_childEnds :
    (77, 768) ∈ collectedOf (outputs (Watched.step .lowest)
      (Watched.after .lowest childEnds) (.select ∅ 102 :: sweep)).flatten :=
  reaped_in_sweep .lowest childEnds sweep ∅ 102 (by decide +kernel) (by decide +kernel)
    (by decide +kernel) (by decide +kernel) (77, 768) (by decide +kernel)

def waitedIn : Turn → List (Pid × Nat)
  | .select _ _ => []
  | .look waited _ _ _ => waited

/-- A turn that reaps is at the pipe, and `accept` answers no open descriptor. -/
def Regular (fds : Descriptors) (m : Moment MainLoop Turn) : Prop :=
  (waitedIn m.event ≠ [] → Watched.AtPipe fds m.before) ∧ acceptsClosed fds m = true

/-- The loop has come through these turns, and reaped these children in the present one. -/
structure Reached (fds : Descriptors) (w : Watched) (ts : List Turn) (waited : List (Pid × Nat)) :
    Prop where
  loop : w.loop = (MainLoop.after fds ts).reap waited
  regular : ∀ m ∈ MainLoop.past fds ts, Regular fds m
  between : w.notices.collecting = false → waited = []

section

variable {fds : Descriptors} {w : Watched} {ts : List Turn} {waited : List (Pid × Nat)}

private theorem regular_snoc (regular : ∀ m ∈ MainLoop.past fds ts, Regular fds m) {turn : Turn}
    (last : Regular fds ⟨MainLoop.after fds ts, turn⟩) :
    ∀ m ∈ MainLoop.past fds (ts ++ [turn]), Regular fds m := by
  intro m member
  rw [MainLoop.past, history_snoc] at member
  rcases List.mem_append.mp member with earlier | now
  · exact regular m earlier
  · exact List.mem_singleton.mp now ▸ last

private theorem closed_opened (p q : MainLoop) (same : q.connections = p.connections)
    (waited : List (Pid × Nat)) (accepted : Option (Nat × Int × Int)) (r : Recv)
    (sys : Nat → SysCalls) :
    acceptsClosed fds ⟨p, .look waited (Watched.opened fds q accepted) r sys⟩ = true := by
  cases answer : Watched.opened fds q accepted with
  | none => rfl
  | some connection =>
    have kept := (Option.filter_eq_some_iff.mp answer).2
    rw [same] at kept
    exact decide_eq_true fun _ => of_decide_eq_true kept

private theorem look_reaped {p : MainLoop} (running : p.daemon.running = true)
    (here : Watched.AtPipe fds p) (waited : List (Pid × Nat))
    (accepted : Option (Nat × Int × Int)) (r : Recv) (sys : Nat → SysCalls) :
    ((p.reap waited).step fds (.look [] accepted r sys)).1 =
      (p.step fds (.look waited accepted r sys)).1 := by
  obtain ⟨table, runs⟩ := sameTable_reaps waited p
  obtain ⟨at_pipe, within, found⟩ := here
  have within' : (p.reap waited).i ≤ (p.reap waited).daemon.maxfd := table.maxfd.symm ▸ within
  have found' : (p.reap waited).i ∈ (p.reap waited).tmp_fds := found
  have again : (p.reap waited).look fds [] accepted r sys = p.look fds waited accepted r sys := by
    simp only [MainLoop.look]
    rw [if_pos at_pipe, if_pos (show (p.reap waited).i = fds.pipeOfDeath from at_pipe)]
    rfl
  simp only [MainLoop.step, runs, running, if_true, if_pos within, if_pos within', if_pos found,
    if_pos found', again]
  rfl

private theorem Reached.turn (reached : Reached fds w ts []) {turn : Turn}
    (regular : Regular fds ⟨w.loop, turn⟩) : Reached fds (w.turn fds turn) (ts ++ [turn]) [] := by
  have loop : w.loop = MainLoop.after fds ts := reached.loop
  refine ⟨?_, regular_snoc reached.regular (loop ▸ regular), fun _ => rfl⟩
  rw [MainLoop.after, run_snoc, ← MainLoop.after, ← loop]
  rfl

private theorem Reached.done (reached : Reached fds w ts waited)
    (running : w.loop.daemon.running = true) (here : Watched.AtPipe fds w.loop)
    (accepted : Option (Nat × Int × Int)) (r : Recv) (sys : Nat → SysCalls) :
    let turn : Turn := .look waited (Watched.opened fds w.loop accepted) r sys
    Reached fds
      ((w.turn fds (.look [] (Watched.opened fds w.loop accepted) r sys)).notice .done).1
      (ts ++ [turn]) [] := by
  intro turn
  obtain ⟨table, runs⟩ := sameTable_reaps waited (MainLoop.after fds ts)
  have running' : (MainLoop.after fds ts).daemon.running = true := by
    rw [← runs, ← reached.loop]
    exact running
  have here' : Watched.AtPipe fds (MainLoop.after fds ts) := by
    rw [reached.loop] at here
    obtain ⟨at_pipe, within, found⟩ := here
    exact ⟨at_pipe, table.maxfd ▸ within, found⟩
  have same : w.loop.connections = (MainLoop.after fds ts).connections := by
    rw [reached.loop]
    rfl
  refine ⟨?_, regular_snoc reached.regular ⟨fun _ => here', closed_opened _ _ same _ _ _ _⟩,
    fun _ => rfl⟩
  rw [MainLoop.after, run_snoc, ← MainLoop.after]
  refine Eq.trans ?_ (look_reaped running' here' waited _ r sys)
  rw [← reached.loop]
  rfl

/-- One step: the turns that it completes, and the children that it reaps. -/
private theorem reached_step (follows : Follows fds w) (reached : Reached fds w ts waited)
    (happening : Happening) :
    ∃ ts' waited', Reached fds (w.step fds happening).1 ts' waited' ∧
      ts'.flatMap waitedIn ++ waited' =
        ts.flatMap waitedIn ++ waited ++ collectedOf (w.step fds happening).2 := by
  have ways := stepped fds w happening
  generalize w.step fds happening = after at ways
  obtain ⟨w', notes⟩ := after
  have unmoved (notices : Notices (Pid × Nat))
      (between : notices.collecting = false → waited = []) :
      Reached fds ⟨w.loop, notices⟩ ts waited := ⟨reached.loop, reached.regular, between⟩
  cases ways with
  | idle => exact ⟨ts, waited, reached, (List.append_nil _).symm⟩
  | ends pid status => exact ⟨ts, waited, unmoved _ reached.between, (List.append_nil _).symm⟩
  | deliver =>
    refine ⟨ts, waited, unmoved _ fun idle => reached.between ?_, ?_⟩
    · rw [← idle]
      simp only [Notices.step]
      split_ifs <;> rfl
    · simp only [Notices.step]
      split_ifs <;> exact (List.append_nil _).symm
  | select others now running =>
    by_cases collecting : w.notices.collecting = true
    · refine ⟨ts, waited, ?_, (List.append_nil _).symm⟩
      simp only [unturned_select (follows.collects collecting).2.1]
      exact reached
    · obtain rfl := reached.between (Bool.eq_false_of_not_eq_true collecting)
      refine ⟨_, [], reached.turn ⟨fun more => absurd rfl more, rfl⟩, ?_⟩
      simp [waitedIn, collectedOf]
  | look accepted r sys running apart =>
    have idle : w.notices.collecting = false :=
      Bool.eq_false_of_not_eq_true fun collecting => apart (follows.collects collecting)
    obtain rfl := reached.between idle
    refine ⟨_, [], reached.turn ⟨fun more => absurd rfl more, ?_⟩, ?_⟩
    · exact closed_opened _ _ rfl _ _ _ _
    · simp [waitedIn, collectedOf]
  | read running here idle =>
    obtain rfl := reached.between idle
    refine ⟨ts, [], unmoved _ fun _ => rfl, ?_⟩
    simp only [Notices.step]
    split_ifs <;> exact (List.append_nil _).symm
  | done accepted r sys running here collecting none_left =>
    refine ⟨_, [], reached.done running here accepted r sys, ?_⟩
    simp [waitedIn, collectedOf, Watched.turn, Notices.step, collecting, none_left]
  | waitpid n child running collecting there =>
    have collect : w.notices.step (.collect n) =
        ({ w.notices with waiting := w.notices.waiting.eraseIdx n }, [.collected child]) := by
      simp only [Notices.step, collecting, if_true, there]
    refine ⟨ts, waited ++ [child], ⟨?_, reached.regular, fun idle => ?_⟩, ?_⟩
    · simp only [MainLoop.reap, List.foldl_append, reached.loop]
    · rw [collect] at idle
      simp [collecting] at idle
    · simp [collect, collectedOf]

end

/-- In every interleaving the daemon comes through turns of its main loop in which `waitpid`
answers, in that order, the children that are seen to be waited for. -/
theorem watched_refines (fds : Descriptors) (hs : List Happening) :
    ∃ ts waited, (Watched.after fds hs).loop = (MainLoop.after fds ts).reap waited ∧
      ((Watched.after fds hs).notices.collecting = false → waited = []) ∧
      (∀ m ∈ MainLoop.past fds ts, Regular fds m) ∧
      ts.flatMap waitedIn ++ waited = collectedOf (Watched.notes fds hs) := by
  have start : Reached fds (.new fds) [] [] :=
    ⟨rfl, fun m member => absurd member List.not_mem_nil, fun _ => rfl⟩
  obtain ⟨-, ts, waited, reached, answered⟩ : Follows fds (.after fds hs) ∧
      ∃ ts waited, Reached fds (.after fds hs) ts waited ∧
        ts.flatMap waitedIn ++ waited = collectedOf (Watched.notes fds hs) := by
    refine outputs_induction (P := fun notes w => Follows fds w ∧ ∃ ts waited,
      Reached fds w ts waited ∧ ts.flatMap waitedIn ++ waited = collectedOf notes)
      ⟨follows_new fds, [], [], start, rfl⟩ ?_ hs
    rintro notes w happening ⟨follows, ts, waited, reached, answered⟩
    obtain ⟨ts', waited', reached', answered'⟩ := reached_step follows reached happening
    refine ⟨follows.step happening, ts', waited', reached', ?_⟩
    rw [answered', answered, collectedOf_append]
  exact ⟨ts, waited, reached.loop, reached.between, reached.regular, answered⟩

end KDESu.Daemon.Reaping
