/- KDESu/Daemon/Polling
   source: src/kdesud/kdesud.cpp, src/kdesud/handler.cpp
   digest: The main loop over a snapshot of ready descriptors, and its table of handlers. -/

import KDESu.Daemon.Receiving

set_option autoImplicit false
set_option relaxedAutoImplicit false

namespace KDESu.Daemon.Polling

open KDESu.ByteArrays
open KDESu.Library.Histories
open KDESu.Daemon.Handling
open KDESu.Daemon.Requests
open KDESu.Daemon.EventLoop
open KDESu.Daemon.Receiving

/-- The daemon inside its main loop: `tmp_fds` is the snapshot that `select` left and `i` the
descriptor that the loop looks at next. Not the program's own is `connections`, the kernel's
record of the client descriptors that are open in it. -/
structure MainLoop where
  main : Buffered
  connections : Finset Nat
  tmp_fds : Finset Nat
  i : Nat

/-- A turn of the main loop with the answers of the system calls: `select` with what is ready
and the clock that `expire` reads, or a look at descriptor `i`. Of the answers a look can get
(of `waitpid`, of `accept` with `none` for a failure, and of `recv` and the calls behind it) it
takes those that it asks for. -/
inductive Turn
  | select (ready : Finset Nat) (now : Nat)
  | look (waited : List (Pid × Nat)) (accepted : Option (Nat × Int × Int)) (r : Recv)
      (sys : Nat → SysCalls)

/-- The descriptors that are no client's. -/
def Own (fds : Descriptors) (fd : Nat) : Prop :=
  fd = fds.sockfd ∨ fd = fds.pipeOfDeath ∨ fds.x11Fd = some fd

instance ownDecidable (fds : Descriptors) (fd : Nat) : Decidable (Own fds fd) :=
  inferInstanceAs (Decidable (_ ∨ _))

namespace MainLoop

def new (fds : Descriptors) : MainLoop where
  main := Buffered.new fds
  connections := ∅
  tmp_fds := ∅
  i := (Kdesud.new fds).maxfd + 1

abbrev daemon (p : MainLoop) : Kdesud := p.main.daemon

/-- `delete` of a handler: its destructor closes its descriptor, if it is not null. -/
def delete (p : MainLoop) (h : Option ConnectionHandler) : MainLoop × List Nat :=
  match h with
  | none => (p, [])
  | some h => ({ p with connections := p.connections.erase h.m_Fd }, [h.m_Fd])

def reap (p : MainLoop) (waited : List (Pid × Nat)) : MainLoop :=
  { p with main := waited.foldl (fun b w => (b.step (.reap w.1 w.2)).1) p.main }

/-- A new connection: the kernel opens its descriptor, and what the table holds there goes. -/
def accept (p : MainLoop) : Option (Nat × Int × Int) → MainLoop × List Nat
  | none => (p, [])
  | some (fd, uid, uninitialised) =>
      let p := { p with connections := insert fd p.connections }
      let (p, closed) := p.delete (p.daemon.handlerAt fd)
      ({ p with main := (p.main.step (.accept fd uid uninitialised)).1 }, closed)

/-- What `handle` makes of a read, seen from the loop. -/
def handled (p : MainLoop) (r : Recv) (sys : Nat → SysCalls) : Handled Session :=
  handle (Session.doCommand p.i sys) (p.main.m_Buf p.i) ⟨p.daemon, 0, []⟩ r

def serve (p : MainLoop) (r : Recv) (sys : Nat → SysCalls) : MainLoop × List Nat :=
  if (p.daemon.handlerAt p.i).isSome then
    let handled := p.handled r sys
    let (p', closed) :=
      if handled.ending = .error then p.delete (handled.state.daemon.handlerAt p.i) else (p, [])
    ({ p' with main := (p.main.step (.readable p.i r sys)).1 }, closed)
  else (p, [])

/-- The body of the loop for a descriptor that is ready. Behind the reaping loop it goes on to
the table. -/
def look (fds : Descriptors) (p : MainLoop) (waited : List (Pid × Nat))
    (accepted : Option (Nat × Int × Int)) (r : Recv) (sys : Nat → SysCalls) :
    MainLoop × List Nat :=
  let p := if p.i = fds.pipeOfDeath then p.reap waited else p
  if fds.x11Fd = some p.i then (p, [])
  else if p.i = fds.sockfd then p.accept accepted
  else p.serve r sys

def step (fds : Descriptors) (p : MainLoop) (turn : Turn) : MainLoop × List Nat :=
  if p.daemon.running then
    match turn with
    | .select ready now =>
        if p.daemon.maxfd < p.i then
          ({ p with main := (p.main.step (.expire now)).1
                    tmp_fds := p.daemon.active_fds ∩ ready
                    i := 0 }, [])
        else (p, [])
    | .look waited accepted r sys =>
        if p.i ≤ p.daemon.maxfd then
          let (p', closed) :=
            if p.i ∈ p.tmp_fds then p.look fds waited accepted r sys else (p, [])
          ({ p' with i := p.i + 1 }, closed)
        else (p, [])
  else (p, [])

end MainLoop

/-- The table, the connections and `active_fds` agree. -/
structure Tracks (fds : Descriptors) (d : Kdesud) (connections : Finset Nat) : Prop where
  handlers : ∀ fd, d.handlerAt fd ≠ none ↔ fd ∈ connections
  active : ∀ fd, fd ∈ connections ↔ fd ∈ d.active_fds ∧ ¬Own fds fd
  own_fd : ∀ fd h, d.handlerAt fd = some h → h.m_Fd = fd
  bounds : ∀ fd ∈ connections, fd ≤ d.maxfd ∧ fd < d.handler.length

structure SameTable (d d' : Kdesud) : Prop where
  handlers : ∀ fd, (d'.handlerAt fd).map ConnectionHandler.m_Fd =
    (d.handlerAt fd).map ConnectionHandler.m_Fd
  active : d'.active_fds = d.active_fds
  maxfd : d'.maxfd = d.maxfd
  length : d'.handler.length = d.handler.length

theorem SameTable.rfl {d : Kdesud} : SameTable d d :=
  ⟨fun _ => Eq.refl _, Eq.refl _, Eq.refl _, Eq.refl _⟩

theorem SameTable.trans {d d' d'' : Kdesud} (first : SameTable d d')
    (second : SameTable d' d'') : SameTable d d'' where
  handlers fd := (second.handlers fd).trans (first.handlers fd)
  active := second.active.trans first.active
  maxfd := second.maxfd.trans first.maxfd
  length := second.length.trans first.length

private theorem SameTable.tracks {d d' : Kdesud} (same : SameTable d d') {fds : Descriptors}
    {connections : Finset Nat} (tracks : Tracks fds d connections) :
    Tracks fds d' connections where
  handlers fd := by
    have live := congrArg Option.isSome (same.handlers fd)
    rw [Option.isSome_map, Option.isSome_map] at live
    rw [← tracks.handlers fd, ← Option.isSome_iff_ne_none, ← Option.isSome_iff_ne_none, live]
  active fd := by
    rw [same.active]
    exact tracks.active fd
  own_fd fd h live := by
    have mapped := same.handlers fd
    rw [live, Option.map_some] at mapped
    obtain ⟨h', live', equal⟩ := Option.map_eq_some_iff.mp mapped.symm
    rw [← equal, tracks.own_fd fd h' live']
  bounds fd member := by
    rw [same.maxfd, same.length]
    exact tracks.bounds fd member

private theorem sameTable_set {d d' : Kdesud} {fd : Nat} {h h' : ConnectionHandler}
    (live : d.handlerAt fd = some h) (own_fd : h'.m_Fd = h.m_Fd)
    (placed : d'.handler = d.handler.set fd (some h')) (active : d'.active_fds = d.active_fds)
    (maxfd : d'.maxfd = d.maxfd) : SameTable d d' where
  handlers fd' := by
    have there : d'.handlerAt fd' = if fd' = fd then some h' else d.handlerAt fd' := by
      rw [← handlerAt_set live, Kdesud.handlerAt, placed]
      exact Eq.refl _
    rw [there]
    split_ifs with here
    · rw [here, live, Option.map_some, Option.map_some, own_fd]
    · exact Eq.refl _
  active := active
  maxfd := maxfd
  length := by rw [placed, List.length_set]

theorem sameTable_expire (d : Kdesud) (now : Nat) :
    SameTable d (step d (.expire now)).1 := by
  simp only [step]
  split_ifs <;> exact ⟨fun _ => Eq.refl _, Eq.refl _, Eq.refl _, Eq.refl _⟩

private theorem sameTable_reap (d : Kdesud) (pid : Pid) (status : Nat) :
    SameTable d (step d (.reap pid status)).1 ∧
      (step d (.reap pid status)).1.running = d.running := by
  simp only [step, Kdesud.reap]
  split
  · split
    · exact ⟨⟨fun _ => Eq.refl _, Eq.refl _, Eq.refl _, Eq.refl _⟩, Eq.refl _⟩
    · split
      · exact ⟨⟨fun _ => Eq.refl _, Eq.refl _, Eq.refl _, Eq.refl _⟩, Eq.refl _⟩
      · rename_i j waits h live
        exact ⟨sameTable_set live (by exact Eq.refl h.m_Fd) (Eq.refl _) (Eq.refl _) (Eq.refl _),
          Eq.refl _⟩
  · exact ⟨.rfl, Eq.refl _⟩

private theorem sameTable_doCommand (fd : Nat) (sys : Nat → SysCalls) (S : Session)
    (buf : Bytes) : SameTable S.daemon (S.doCommand fd sys buf).1.daemon := by
  simp only [Session.doCommand]
  cases live : S.daemon.handlerAt fd with
  | none => exact .rfl
  | some h =>
    exact sameTable_set live (doCommand_m_Fd _ h S.daemon.repo buf) (Eq.refl _) (Eq.refl _)
      (Eq.refl _)

theorem sameTable_handled (p : MainLoop) (r : Recv) (sys : Nat → SysCalls) :
    SameTable p.daemon (p.handled r sys).state.daemon :=
  handle_invariant (I := fun S => SameTable p.daemon S.daemon)
    (fun S line same => same.trans (sameTable_doCommand p.i sys S line)) _ .rfl r

section

variable {fds : Descriptors} {d : Kdesud} {connections : Finset Nat} {fd : Nat}

private theorem tracks_close (tracks : Tracks fds d connections) {h : ConnectionHandler}
    (live : d.handlerAt fd = some h) : Tracks fds (d.close fd) (connections.erase fd) where
  handlers fd' := by
    have there : (d.close fd).handlerAt fd' = if fd' = fd then none else d.handlerAt fd' :=
      handlerAt_set live none fd'
    rw [there, Finset.mem_erase, ← tracks.handlers fd']
    split_ifs with here <;> simp [here]
  active fd' := by
    rw [Finset.mem_erase, tracks.active fd', Kdesud.close, Finset.mem_erase, and_assoc]
  own_fd fd' h' live' := by
    have there : (d.close fd).handlerAt fd' = if fd' = fd then none else d.handlerAt fd' :=
      handlerAt_set live none fd'
    rw [there] at live'
    split_ifs at live'
    exact tracks.own_fd fd' h' live'
  bounds fd' member := by
    obtain ⟨high, inside⟩ := tracks.bounds fd' (Finset.mem_of_mem_erase member)
    refine ⟨high, ?_⟩
    rw [Kdesud.close, List.length_set]
    exact inside

private theorem handlerAt_accept (uid uninitialised : Int) (fd' : Nat) :
    (d.accept fd uid uninitialised).handlerAt fd' =
      if fd' = fd then some (.new fd uid uninitialised) else d.handlerAt fd' :=
  handlerAt_step { d with running := true } (.accept fd uid uninitialised) fd'

private theorem tracks_accept (tracks : Tracks fds d connections) (client : ¬Own fds fd)
    (settable : fd < FD_SETSIZE) (uid uninitialised : Int) :
    Tracks fds (d.accept fd uid uninitialised) (insert fd connections) where
  handlers fd' := by
    rw [handlerAt_accept, Finset.mem_insert, ← tracks.handlers fd']
    split_ifs with here <;> simp [here]
  active fd' := by
    rw [Finset.mem_insert, tracks.active fd', Kdesud.accept, mem_FD_SET, or_and_right]
    have same : (fd' = fd ∧ fd < FD_SETSIZE) ∧ ¬Own fds fd' ↔ fd' = fd :=
      ⟨fun here => here.1.1, fun here => ⟨⟨here, settable⟩, here ▸ client⟩⟩
    rw [same]
  own_fd fd' h' live' := by
    rw [handlerAt_accept] at live'
    split_ifs at live' with here
    · cases live'
      exact here.symm
    · exact tracks.own_fd fd' h' live'
  bounds fd' member := by
    have longer : (d.accept fd uid uninitialised).handler.length =
        max d.handler.length (fd + 1) := by
      simp only [Kdesud.accept, List.length_set, List.length_append, List.length_replicate]
      omega
    have higher : (d.accept fd uid uninitialised).maxfd = max d.maxfd fd := Eq.refl _
    rw [longer, higher]
    rcases Finset.mem_insert.mp member with rfl | member
    · omega
    · have bounds := tracks.bounds fd' member
      omega

end

/-- `accept` answers a descriptor that is not open in the daemon. -/
def acceptsClosed (fds : Descriptors) (m : Moment MainLoop Turn) : Bool :=
  match m.event with
  | .look _ (some (fd, _, _)) _ _ =>
      m.before.i = fds.sockfd → ¬Own fds fd ∧ fd ∉ m.before.connections
  | _ => true

/-- `accept`, where the loop comes to it, answers a descriptor with a bit in an fd_set. -/
def acceptsSettable (fds : Descriptors) (m : Moment MainLoop Turn) : Bool :=
  match m.event with
  | .look _ (some (fd, _, _)) _ _ =>
      m.before.i = fds.sockfd ∧ m.before.i ∈ m.before.tmp_fds → fd < FD_SETSIZE
  | _ => true

/-- The `delete handler[fd]` behind `accept` deletes null, and no descriptor is closed. -/
def DeletesNull (fds : Descriptors) (m : Moment MainLoop Turn) : Prop :=
  match m.event with
  | .look _ (some (fd, _, _)) _ _ =>
      m.before.i = fds.sockfd →
        m.before.daemon.handlerAt fd = none ∧ (m.before.step fds m.event).2 = []
  | _ => True

section

variable {fds : Descriptors} {p : MainLoop}

theorem sameTable_reaps (waited : List (Pid × Nat)) (p : MainLoop) :
    SameTable p.daemon (p.reap waited).daemon ∧
      (p.reap waited).daemon.running = p.daemon.running := by
  have loop : ∀ (waited : List (Pid × Nat)) (b : Buffered),
      SameTable b.daemon (waited.foldl (fun b w => (b.step (.reap w.1 w.2)).1) b).daemon ∧
        (waited.foldl (fun b w => (b.step (.reap w.1 w.2)).1) b).daemon.running =
          b.daemon.running := by
    intro waited
    induction waited with
    | nil => exact fun b => ⟨.rfl, Eq.refl _⟩
    | cons w waited ih =>
      intro b
      obtain ⟨first, runs⟩ := sameTable_reap b.daemon w.1 w.2
      obtain ⟨later, runs'⟩ := ih (b.step (.reap w.1 w.2)).1
      exact ⟨first.trans later, runs'.trans runs⟩
  exact loop waited p.main

private theorem tracks_accepted (running : p.daemon.running = true)
    (tracks : Tracks fds p.daemon p.connections) {accepted : Option (Nat × Int × Int)}
    (fresh : ∀ fd uid uninitialised, accepted = some (fd, uid, uninitialised) →
      ¬Own fds fd ∧ fd ∉ p.connections ∧ fd < FD_SETSIZE) :
    Tracks fds (p.accept accepted).1.daemon (p.accept accepted).1.connections ∧
      (p.accept accepted).2 = [] := by
  match accepted with
  | none => exact ⟨tracks, Eq.refl _⟩
  | some (fd, uid, uninitialised) =>
    obtain ⟨client, unused, settable⟩ := fresh fd uid uninitialised (Eq.refl _)
    have null : p.daemon.handlerAt fd = none := by
      by_contra live
      exact unused ((tracks.handlers fd).mp live)
    have stepped : step p.main.daemon (.accept fd uid uninitialised) =
        (p.daemon.accept fd uid uninitialised, []) := by
      simp only [step, running, if_true]
    simp only [MainLoop.accept, null, MainLoop.delete, Buffered.step, Buffered.other, stepped]
    exact ⟨tracks_accept tracks client settable uid uninitialised, trivial⟩

theorem daemon_served (running : p.daemon.running = true)
    (served : (p.daemon.handlerAt p.i).isSome) {r : Recv} {sys : Nat → SysCalls} :
    (p.main.step (.readable p.i r sys)).1.daemon =
      (p.handled r sys).state.daemon.conclude p.i (p.handled r sys).ending := by
  simp only [Buffered.step, running, served, and_self, if_true]
  exact Eq.refl _

private theorem tracks_served (running : p.daemon.running = true)
    (tracks : Tracks fds p.daemon p.connections) (r : Recv) (sys : Nat → SysCalls) :
    Tracks fds (p.serve r sys).1.daemon (p.serve r sys).1.connections := by
  by_cases served : (p.daemon.handlerAt p.i).isSome
  · have handled := (sameTable_handled p r sys).tracks tracks
    simp only [MainLoop.serve, served, if_true, MainLoop.daemon]
    rw [daemon_served running served]
    cases ended : (p.handled r sys).ending with
    | ok => exact handled
    | exit => exact ⟨handled.handlers, handled.active, handled.own_fd, handled.bounds⟩
    | error =>
      have still : ((p.handled r sys).state.daemon.handlerAt p.i).isSome := by
        rw [← Option.isSome_map, (sameTable_handled p r sys).handlers, Option.isSome_map]
        exact served
      obtain ⟨h, live⟩ := Option.isSome_iff_exists.mp still
      simp only [if_true, live, MainLoop.delete, Kdesud.conclude, handled.own_fd p.i h live]
      exact tracks_close handled live
  · simpa only [MainLoop.serve, if_neg served] using tracks

private theorem tracks_looked (running : p.daemon.running = true)
    (tracks : Tracks fds p.daemon p.connections) (waited : List (Pid × Nat))
    {accepted : Option (Nat × Int × Int)} (r : Recv) (sys : Nat → SysCalls)
    (fresh : p.i = fds.sockfd → ∀ fd uid uninitialised,
      accepted = some (fd, uid, uninitialised) →
        ¬Own fds fd ∧ fd ∉ p.connections ∧ fd < FD_SETSIZE) :
    Tracks fds (p.look fds waited accepted r sys).1.daemon
        (p.look fds waited accepted r sys).1.connections ∧
      (p.i = fds.sockfd → (p.look fds waited accepted r sys).2 = []) := by
  obtain ⟨q, reaped, runs, held, clients, same⟩ : ∃ q : MainLoop,
      (if p.i = fds.pipeOfDeath then p.reap waited else p) = q ∧ q.daemon.running = true ∧
        Tracks fds q.daemon q.connections ∧ q.connections = p.connections ∧ q.i = p.i := by
    split_ifs
    · obtain ⟨table, runs⟩ := sameTable_reaps waited p
      exact ⟨_, Eq.refl _, runs.trans running, table.tracks tracks, Eq.refl _, Eq.refl _⟩
    · exact ⟨_, Eq.refl _, running, tracks, Eq.refl _, Eq.refl _⟩
  rw [← same, ← clients] at fresh
  simp only [MainLoop.look, reaped]
  rw [← same]
  split_ifs with display listens
  · exact ⟨held, fun _ => Eq.refl _⟩
  · obtain ⟨after, nothing⟩ := tracks_accepted runs held (fresh listens)
    exact ⟨after, fun _ => nothing⟩
  · exact ⟨tracks_served runs held r sys, fun listens' => absurd listens' listens⟩

private theorem tracks_turn (tracks : Tracks fds p.daemon p.connections) (turn : Turn)
    (closed : acceptsClosed fds ⟨p, turn⟩ = true)
    (settable : acceptsSettable fds ⟨p, turn⟩ = true) :
    Tracks fds (p.step fds turn).1.daemon (p.step fds turn).1.connections ∧
      (p.i = fds.sockfd → (p.step fds turn).2 = []) := by
  by_cases running : p.daemon.running = true
  · cases turn with
    | select ready now =>
      simp only [MainLoop.step, running, if_true]
      split_ifs
      · exact ⟨(sameTable_expire p.daemon now).tracks tracks, fun _ => Eq.refl _⟩
      · exact ⟨tracks, fun _ => Eq.refl _⟩
    | look waited accepted r sys =>
      simp only [MainLoop.step, running, if_true]
      split_ifs with within ready
      · refine tracks_looked running tracks waited r sys ?_
        rintro listens fd uid uninitialised rfl
        obtain ⟨client, unused⟩ := of_decide_eq_true closed listens
        exact ⟨client, unused, of_decide_eq_true settable ⟨listens, ready⟩⟩
      · exact ⟨tracks, fun _ => Eq.refl _⟩
      · exact ⟨tracks, fun _ => Eq.refl _⟩
  · simp only [MainLoop.step, if_neg running]
    exact ⟨tracks, fun _ => trivial⟩

private theorem deletesNull_of_tracks (tracks : Tracks fds p.daemon p.connections)
    {turn : Turn} (closed : acceptsClosed fds ⟨p, turn⟩ = true)
    (settable : acceptsSettable fds ⟨p, turn⟩ = true) : DeletesNull fds ⟨p, turn⟩ := by
  have nothing := (tracks_turn tracks turn closed settable).2
  match turn with
  | .select _ _ | .look _ none _ _ => trivial
  | .look waited (some (fd, uid, uninitialised)) r sys =>
    intro listens
    have unused := (of_decide_eq_true closed listens).2
    refine ⟨?_, nothing listens⟩
    by_contra live
    exact unused ((tracks.handlers fd).mp live)

theorem mem_active_new_iff (fds : Descriptors) (fd : Nat) :
    fd ∈ (Kdesud.new fds).active_fds ↔ Own fds fd := by
  obtain ⟨listening, death, display⟩ := fds.settable
  cases there : fds.x11Fd with
  | none =>
    simp only [Kdesud.new, Own, there, Option.elim_none, mem_FD_SET, listening, death,
      Finset.notMem_empty]
    tauto
  | some x11Fd =>
    have inside := display x11Fd there
    simp only [Kdesud.new, Own, there, Option.elim_some, mem_FD_SET, listening, death, inside,
      Finset.notMem_empty, Option.some.injEq]
    tauto

private theorem tracks_new (fds : Descriptors) : Tracks fds (Kdesud.new fds) ∅ where
  handlers fd := by simp [Kdesud.new, Kdesud.handlerAt]
  active fd := by
    rw [mem_active_new_iff]
    exact iff_of_false (Finset.notMem_empty fd) and_not_self
  own_fd fd h live := by cases live
  bounds fd member := absurd member (Finset.notMem_empty fd)

end

abbrev MainLoop.after (fds : Descriptors) (ts : List Turn) : MainLoop :=
  run (MainLoop.step fds) (MainLoop.new fds) ts

abbrev MainLoop.past (fds : Descriptors) (ts : List Turn) : List (Moment MainLoop Turn) :=
  history (MainLoop.step fds) (MainLoop.new fds) ts

/-- If `accept` never answers an open descriptor, nor one without a bit in an fd_set, then in
every reachable state of the main loop the table tracks the open connections, and what `accept`
replaces in it is always null. -/
theorem handler_table_tracks (fds : Descriptors) (ts : List Turn)
    (closed : ∀ m ∈ MainLoop.past fds ts, acceptsClosed fds m = true)
    (settable : ∀ m ∈ MainLoop.past fds ts, acceptsSettable fds m = true) :
    Tracks fds (MainLoop.after fds ts).daemon (MainLoop.after fds ts).connections ∧
      ∀ m ∈ MainLoop.past fds ts, DeletesNull fds m := by
  refine run_induction_under (C := fun m => acceptsClosed fds m = true ∧
    acceptsSettable fds m = true) (P := fun past p => Tracks fds p.daemon p.connections ∧
    ∀ m ∈ past, DeletesNull fds m) ?_ ?_ ts fun m member => ⟨closed m member, settable m member⟩
  · exact ⟨tracks_new fds, fun m member => absurd member List.not_mem_nil⟩
  · rintro past p turn ⟨tracks, earlier⟩ ⟨closed, settable⟩
    refine ⟨(tracks_turn tracks turn closed settable).1, fun m member => ?_⟩
    rcases List.mem_append.mp member with old | new
    · exact earlier m old
    · obtain rfl := List.mem_singleton.mp new
      exact deletesNull_of_tracks tracks closed settable

def oneClient (fd : Nat) : List Turn :=
  let look : Option (Nat × Int × Int) → Turn := (.look [] · .interrupted uidOnly)
  [.select {3} 100, look none, look none, look none, look (some (fd, 1000, 0))]

theorem handler_table_tracks_oneClient :
    Tracks .lowest (MainLoop.after .lowest (oneClient 6)).daemon
        (MainLoop.after .lowest (oneClient 6)).connections ∧
      ∀ m ∈ MainLoop.past .lowest (oneClient 6), DeletesNull .lowest m :=
  handler_table_tracks .lowest (oneClient 6) (by decide +kernel) (by decide +kernel)

/-- The connection on descriptor 1024 has a handler, and no bit in `active_fds`. -/
theorem connection_untracked : ¬∀ fds ts,
    (∀ m ∈ MainLoop.past fds ts, acceptsClosed fds m = true) →
      Tracks fds (MainLoop.after fds ts).daemon (MainLoop.after fds ts).connections := by
  intro always
  have tracks := always .lowest (oneClient 1024) (by decide +kernel)
  have connected : 1024 ∈ (MainLoop.after .lowest (oneClient 1024)).connections := by
    decide +kernel
  have active := ((tracks.active 1024).mp connected).1
  exact absurd active (by decide +kernel)

private theorem main_reap (p : MainLoop) (waited : List (Pid × Nat)) :
    (p.reap waited).main = run Buffered.step p.main (waited.map fun w => .reap w.1 w.2) := by
  have loop : ∀ (waited : List (Pid × Nat)) (b : Buffered),
      waited.foldl (fun b w => (b.step (.reap w.1 w.2)).1) b =
        run Buffered.step b (waited.map fun w => .reap w.1 w.2) := by
    intro waited
    induction waited with
    | nil => exact fun _ => Eq.refl _
    | cons w waited ih => exact fun b => ih (b.step (.reap w.1 w.2)).1
  exact loop waited p.main

private theorem main_look (fds : Descriptors) (p : MainLoop) (waited : List (Pid × Nat))
    (accepted : Option (Nat × Int × Int)) (r : Recv) (sys : Nat → SysCalls) :
    ∃ ws, (p.look fds waited accepted r sys).1.main = run Buffered.step p.main ws := by
  obtain ⟨q, ws, reaped, main⟩ : ∃ q ws,
      (if p.i = fds.pipeOfDeath then p.reap waited else p) = q ∧
        q.main = run Buffered.step p.main ws := by
    split_ifs
    · exact ⟨_, _, Eq.refl _, main_reap p waited⟩
    · exact ⟨_, [], Eq.refl _, Eq.refl _⟩
  simp only [MainLoop.look, reaped]
  split_ifs
  · exact ⟨ws, main⟩
  · match accepted with
    | none => exact ⟨ws, main⟩
    | some (fd, uid, uninitialised) =>
      refine ⟨ws ++ [.accept fd uid uninitialised], ?_⟩
      rw [run_snoc, ← main]
      simp only [MainLoop.accept]
      cases q.daemon.handlerAt fd <;> exact Eq.refl _
  · by_cases served : (q.daemon.handlerAt q.i).isSome
    · refine ⟨ws ++ [.readable q.i r sys], ?_⟩
      rw [run_snoc, ← main]
      simp only [MainLoop.serve, if_pos served]
    · refine ⟨ws, ?_⟩
      simp only [MainLoop.serve, if_neg served, main]

/-- Every turn of the main loop is a run of the daemon on wakeups. -/
theorem main_refines (fds : Descriptors) (ts : List Turn) :
    ∃ ws, (MainLoop.after fds ts).main = run Buffered.step (Buffered.new fds) ws := by
  refine invariant_run (I := fun p : MainLoop =>
    ∃ ws, p.main = run Buffered.step (Buffered.new fds) ws) ⟨[], Eq.refl _⟩ ?_ ts
  rintro p turn ⟨ws, main⟩
  obtain ⟨later, turned⟩ : ∃ later,
      (p.step fds turn).1.main = run Buffered.step p.main later := by
    by_cases running : p.daemon.running = true
    · cases turn with
      | select ready now =>
        simp only [MainLoop.step, running, if_true]
        split_ifs
        · exact ⟨[.expire now], Eq.refl _⟩
        · exact ⟨[], Eq.refl _⟩
      | look waited accepted r sys =>
        simp only [MainLoop.step, running, if_true]
        split_ifs
        · exact main_look fds p waited accepted r sys
        · exact ⟨[], Eq.refl _⟩
        · exact ⟨[], Eq.refl _⟩
    · simp only [MainLoop.step, if_neg running]
      exact ⟨[], Eq.refl _⟩
  exact ⟨ws ++ later, by rw [run_append, ← main, turned]⟩

end KDESu.Daemon.Polling
