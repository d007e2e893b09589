/- KDESu/Client/Commanding
   source: src/client.cpp, src/kdesud/handler.cpp
   digest: Client::command beside the daemon: which replies the client reads, and in what step. -/

import KDESu.Client.Requesting
import KDESu.Daemon.Receiving
import KDESu.Process.Launching

set_option autoImplicit false
set_option relaxedAutoImplicit false

namespace KDESu.Client.Commanding

open KDESu.ByteArrays
open KDESu.Library.Histories
open KDESu.Daemon.Repositories (Repository)
open KDESu.Daemon.Handling
open KDESu.Daemon.Requests
open KDESu.Daemon.EventLoop
open KDESu.Daemon.Receiving
open KDESu.Client.Requesting
open KDESu.Process.Launching (constData constData_eq_iff constData_append_nul)

def mid (s : Bytes) (pos : Nat) (len : Int) : Bytes :=
  if len < 0 then s.drop pos else (s.drop pos).take len.toNat

/-- The end of `Client::command`: its return value, and the result, empty when there is none. -/
def readReply (reply : Bytes) : Int × Bytes :=
  if reply.take 2 ≠ ascii "OK" then (-1, []) else (0, mid reply 3 (reply.length - 4))

/-- What `recv` is asked for at most; one byte of `buf` is for the NUL. -/
def RECV_SIZE : Nat := 1023

/-- `Client::command` on what `recv` gives. -/
def command (buf : Bytes) : Int × Bytes :=
  if buf = [] then (-1, []) else readReply (constData buf)

/-- The loop of `getKeys`. The fuel bounds the keys. -/
def splitKeys : Nat → Bytes → List Bytes
  | 0, _ => []
  | fuel + 1, reply =>
      match reply.idxOf? 7 with
      | none => [reply]
      | some pos => reply.take pos :: splitKeys fuel (reply.drop (pos + 1))

def keyList (reply : Bytes) : List Bytes :=
  if reply = [] then [] else splitKeys (reply.length + 1) reply

inductive Method
  | request (call : Call)
  | ping

inductive Result
  | code (n : Int)
  | value (v : Bytes)
  | keys (list : List Bytes)
  | found (b : Bool)
  deriving DecidableEq, Repr

namespace Method

def line : Method → Bytes
  | .request call => call.line
  | .ping => ascii "PING\n"

def Carried : Method → Prop
  | .request call => call.Carried
  | .ping => True

def result : Method → Int × Bytes → Result
  | .request (.getVar _), (_, reply) => .value reply
  | .request (.getKeys _), (_, reply) => .keys (keyList reply)
  | .request (.findGroup _), (ret, _) => .found (ret != -1)
  | _, (ret, _) => .code ret

def meant : Method → Request
  | .request call => call.request
  | .ping => .ping

end Method

/-- The daemon, and at the client's end of the connection whether the daemon still has its end,
and the bytes that were sent and not received. -/
structure Link where
  daemon : Buffered
  connected : Bool
  pending : Bytes

/-- What happens: a call of the client, or anything else that wakes the daemon. -/
inductive Turn
  | call (m : Method) (sys : Nat → SysCalls)
  | other (w : Wakeup)

/-- A call: the bytes that the daemon sends for it, the bytes that the client receives, and what
the call returns; none while it waits for a reply. -/
structure Exchange where
  method : Method
  reply : Bytes
  received : Bytes
  result : Option Result

def isOpen (b : Buffered) (fd : Nat) : Bool :=
  b.daemon.running && (b.daemon.handlerAt fd).isSome

def bytesTo (fd : Nat) (sent : List (Nat × Reply)) : Bytes :=
  (sent.filter (·.1 = fd)).flatMap fun r => r.2.buf

/-- Wakeups that the descriptor of an open connection cannot cause without its client. -/
def touches (fd : Nat) : Wakeup → Bool
  | .accept fd' _ _ => fd' = fd
  | .readable fd' _ _ => fd' = fd
  | _ => false

namespace Link

/-- A wakeup for others. One that would touch the open connection does nothing. -/
def wake (fd : Nat) (l : Link) (w : Wakeup) : Link :=
  if l.connected && touches fd w then l
  else
    let (daemon, sent) := l.daemon.step w
    { daemon := daemon
      connected := l.connected && isOpen daemon fd
      pending := if l.connected then l.pending ++ bytesTo fd sent else l.pending }

/-- `Client::command` in a method: `send` fails on a connection that the daemon has closed, and
else the daemon receives what fits into its buffer and answers before the client's `recv`. -/
def call (fd : Nat) (l : Link) (m : Method) (sys : Nat → SysCalls) : Link × List Exchange :=
  if l.connected then
    let (daemon, sent) :=
      l.daemon.step (.readable fd (.data (m.line.take (room (l.daemon.m_Buf fd)))) sys)
    let reply := bytesTo fd sent
    let pending := l.pending ++ reply
    let received := pending.take RECV_SIZE
    let result := if received = [] ∧ isOpen daemon fd then none
      else some (m.result (command received))
    (⟨daemon, isOpen daemon fd, pending.drop RECV_SIZE⟩, [⟨m, reply, received, result⟩])
  else (l, [⟨m, [], [], some (m.result (-1, []))⟩])

def step (fd : Nat) (l : Link) : Turn → Link × List Exchange
  | .call m sys => l.call fd m sys
  | .other w => (l.wake fd w, [])

end Link

def accepted (fds : Descriptors) (ws : List Wakeup) (fd : Nat) (uid uninitialised : Int) : Link :=
  let daemon := run Buffered.step (Buffered.new fds) (ws ++ [.accept fd uid uninitialised])
  ⟨daemon, isOpen daemon fd, []⟩

/-- The call has received its own reply and nothing else, and computes its result from all of
it. -/
structure Exchange.InStep (x : Exchange) : Prop where
  own : x.received = x.reply
  complete : x.result = some (x.method.result (readReply x.reply))

/-- A value that a reply of the daemon brings back: it fits into one `recv`, with the OK before
it and the newline behind it, and holds no NUL. -/
structure Whole (v : Bytes) : Prop where
  short : v.length ≤ RECV_SIZE - 4
  noNul : (0 : UInt8) ∉ v

theorem whole_nil : Whole [] := ⟨Nat.zero_le _, by simp⟩

theorem respond_buf {v : Bytes} (more : v ≠ []) :
    (Reply.respond .Res_OK v).buf = ascii "OK" ++ blank :: (v ++ [newline]) := by
  simp [Reply.buf, more]

private theorem readReply_text (text : Bytes) :
    readReply (ascii "OK" ++ blank :: text) = (0, mid text 0 (text.length - 1)) := by
  have shape : ascii "OK" ++ blank :: text = [79, 75, 32] ++ text := rfl
  have length : (([79, 75, 32] ++ text : Bytes).length : Int) - 4 = text.length - 1 := by
    simp only [List.length_append, List.length_cons, List.length_nil]
    omega
  rw [shape, readReply, if_neg (by simp [ascii]), length]
  rfl

theorem readReply_value (v : Bytes) :
    readReply (ascii "OK" ++ blank :: (v ++ [newline])) = (0, v) := by
  have length : ((v ++ [newline]).length : Int) - 1 = v.length := by
    rw [List.length_append, List.length_singleton]
    omega
  rw [readReply_text, length, mid, if_neg (by omega), List.drop_zero, Int.toNat_natCast,
    List.take_left' rfl]

theorem command_respond {v : Bytes} (more : v ≠ []) (noNul : (0 : UInt8) ∉ v) :
    command (Reply.respond .Res_OK v).buf = (0, v) := by
  have plain : constData (ascii "OK" ++ blank :: (v ++ [newline])) =
      ascii "OK" ++ blank :: (v ++ [newline]) := by
    rw [constData_eq_iff, List.mem_append, List.mem_cons, List.mem_append]
    rintro (word | space | member | last)
    · exact absurd word (by decide)
    · exact absurd space (by decide)
    · exact noNul member
    · exact absurd last (by decide)
  rw [respond_buf more, command, if_neg (by simp [ascii]), plain, readReply_value]

theorem command_cut {v : Bytes} (nul : (0 : UInt8) ∈ v) :
    ∃ w, command (ascii "OK" ++ blank :: (v ++ [newline])) = (0, w) ∧ w.length < v.length := by
  obtain ⟨front, later, rfl, free⟩ := List.eq_append_cons_of_mem nul
  have cut : constData (ascii "OK" ++ blank :: (front ++ 0 :: later ++ [newline])) =
      ascii "OK" ++ blank :: front := by
    have plain : (0 : UInt8) ∉ ascii "OK" ++ blank :: front := by
      rw [List.mem_append, List.mem_cons]
      rintro (word | space | member)
      · exact absurd word (by decide)
      · exact absurd space (by decide)
      · exact free member
    rw [← constData_append_nul plain (later ++ [newline])]
    simp
  refine ⟨mid front 0 (front.length - 1), ?_, ?_⟩
  · rw [command, if_neg (by simp [ascii]), cut, readReply_text]
  · have shorter : (mid front 0 (front.length - 1)).length ≤ front.length := by
      rw [mid]
      split_ifs
      · simp
      · simp
    rw [List.length_append, List.length_cons]
    omega

private theorem splitKeys_eq_splitOn {fuel : Nat} {reply : Bytes}
    (enough : reply.length < fuel) : splitKeys fuel reply = reply.splitOn 7 := by
  induction fuel generalizing reply with
  | zero => cases enough
  | succ fuel ih =>
    simp only [splitKeys]
    by_cases member : (7 : UInt8) ∈ reply
    · obtain ⟨key, later, rfl, free⟩ := List.eq_append_cons_of_mem member
      have dropped : (key ++ 7 :: later).drop (key.length + 1) = later := by
        rw [List.append_cons]
        exact List.drop_left' (by simp)
      rw [List.length_append, List.length_cons] at enough
      rw [idxOf_of_free free, List.splitOn_append_cons_self_of_not_mem free]
      simp only [List.take_left' rfl, dropped]
      rw [ih (by omega)]
    · rw [List.idxOf?_eq_none_iff.mpr member, List.splitOn_eq_singleton member]

theorem keyList_eq_splitOn {reply : Bytes} (more : reply ≠ []) :
    keyList reply = reply.splitOn 7 := by
  rw [keyList, if_neg more, splitKeys_eq_splitOn (Nat.lt_succ_self _)]

theorem keyList_injective {a b : Bytes} (same : keyList a = keyList b) : a = b := by
  by_cases empty : a = [] <;> by_cases empty' : b = []
  · rw [empty, empty']
  · rw [empty, keyList_eq_splitOn empty'] at same
    exact absurd same.symm (List.splitOn_ne_nil 7 b)
  · rw [empty', keyList_eq_splitOn empty] at same
    exact absurd same (List.splitOn_ne_nil 7 a)
  · rw [keyList_eq_splitOn empty, keyList_eq_splitOn empty'] at same
    have joined (s : Bytes) : [7].intercalate (s.splitOn 7) = s := List.intercalate_splitOn 7
    rw [← joined a, same, joined b]

private theorem result_injective {m : Method} {repo : Repository}
    (more : m.meant.value repo ≠ []) {v w : Bytes}
    (same : m.result (0, v) = m.result (0, w)) : v = w := by
  cases m with
  | ping => exact absurd rfl more
  | request call =>
    cases call with
    | getVar key => exact Result.value.inj same
    | getKeys group => exact keyList_injective (Result.keys.inj same)
    | _ => exact absurd rfl more

/-- The reply to a request is received and read whole exactly if its value is whole. -/
theorem inStep_iff_whole {m : Method} {repo : Repository} {ok : Results}
    (fine : m.meant.value repo ≠ [] → ok = .Res_OK) :
    let reply := (Reply.respond ok (m.meant.value repo)).buf
    (reply.take RECV_SIZE = reply ∧
        m.result (command (reply.take RECV_SIZE)) = m.result (readReply reply)) ↔
      Whole (m.meant.value repo) := by
  intro reply
  by_cases more : m.meant.value repo = []
  · rw [more]
    refine iff_of_true ?_ whole_nil
    simp only [reply, more]
    cases ok <;> exact ⟨by decide, by rfl⟩
  · generalize value : m.meant.value repo = v at more
    obtain rfl := fine (value ▸ more)
    have text : reply = ascii "OK" ++ blank :: (v ++ [newline]) := by
      rw [← respond_buf more, ← value]
    have length : reply.length = v.length + 4 := by
      rw [text]
      simp [ascii]
    have size : RECV_SIZE = 1023 := rfl
    constructor
    · rintro ⟨own, complete⟩
      have short : reply.length ≤ RECV_SIZE := by
        rw [← own]
        exact List.length_take_le _ _
      refine ⟨by omega, fun nul => ?_⟩
      obtain ⟨w, cut, shorter⟩ := command_cut nul
      rw [own, text, cut, readReply_value] at complete
      have equal := result_injective (value ▸ more) complete
      rw [equal] at shorter
      exact absurd shorter (Nat.lt_irrefl _)
    · rintro ⟨short, noNul⟩
      have own : reply.take RECV_SIZE = reply := List.take_of_length_le (by omega)
      refine ⟨own, ?_⟩
      rw [own, text, readReply_value, ← respond_buf more, command_respond more noNul]

theorem Method.oneLine (m : Method) : OneLine m.line := by
  cases m with
  | request call => exact oneLine_call call
  | ping => exact ⟨ascii "PING", rfl, by decide⟩

theorem Method.regular (m : Method) : m.meant ≠ .exit ∧ m.meant ≠ .stop := by
  cases m with
  | request call =>
    simp only [meant]
    cases call <;> exact ⟨Request.noConfusion, Request.noConfusion⟩
  | ping => exact ⟨by simp [meant], by simp [meant]⟩

theorem doCommand_method (m : Method) (sys : SysCalls) (h : ConnectionHandler)
    (repo : Repository) :
    ((m.Carried ∧ peerIsMe sys h) ∧
        doCommand sys h repo m.line = perform sys h repo m.meant) ∨
      (¬(m.Carried ∧ peerIsMe sys h) ∧
        ∃ h', doCommand sys h repo m.line = parseError h' repo) := by
  by_cases me : peerIsMe sys h
  · cases m with
    | request call =>
      rcases doCommand_call call with ⟨carried, -, performed⟩ | ⟨lost, refused⟩
      · exact Or.inl ⟨⟨carried, me⟩, (performed sys h repo).trans (if_pos me)⟩
      · exact Or.inr ⟨fun both => lost both.1, refused sys h repo⟩
    | ping =>
      have read : readRequest (ascii "PING\n") = some .ping := by decide +kernel
      exact Or.inl ⟨⟨trivial, me⟩, doCommand_of_request me repo read⟩
  · exact Or.inr ⟨fun both => me both.2, h, doCommand_of_stranger me repo m.line⟩

section

variable {b : Buffered} {fd : Nat} {h : ConnectionHandler}

theorem serve_line (live : b.daemon.handlerAt fd = some h) (empty : b.m_Buf fd = [])
    {line : Bytes} (one : OneLine line) (short : line.length ≤ BUF_SIZE - 2)
    (sys : Nat → SysCalls) :
    b.serve fd (.data line) sys =
      (⟨(b.daemon.store fd (doCommand (sys 0) h b.daemon.repo line)).conclude fd
          (doCommand (sys 0) h b.daemon.repo line).ending, Function.update b.m_Buf fd []⟩,
        (doCommand (sys 0) h b.daemon.repo line).sent.map (fd, ·)) := by
  obtain ⟨body, rfl, free⟩ := one
  have size : BUF_SIZE = 1024 := rfl
  have taken : (body ++ [newline]).take (body.length + 1) = body ++ [newline] :=
    List.take_of_length_le (by simp)
  have dropped : (body ++ [newline]).drop (body.length + 1) = [] :=
    List.drop_eq_nil_of_le (by simp)
  have unfilled : ¬(body ++ [newline]).length = BUF_SIZE - 1 := by omega
  have fuel : (body ++ [newline]).length = body.length + 1 := by simp
  have performed : Session.doCommand fd sys ⟨b.daemon, 0, []⟩ (body ++ [newline]) =
      (⟨b.daemon.store fd (doCommand (sys 0) h b.daemon.repo (body ++ [newline])), 1,
        (doCommand (sys 0) h b.daemon.repo (body ++ [newline])).sent.map (fd, ·)⟩,
        (doCommand (sys 0) h b.daemon.repo (body ++ [newline])).ending) := by
    simp only [Session.doCommand, live]
    rfl
  have nothing (fuel : Nat) (S : Session) :
      handleLines (Session.doCommand fd sys) fuel [] S = ⟨.ok, [], S, []⟩ := by
    cases fuel <;> rfl
  simp only [Buffered.serve, handle, empty, List.nil_append, if_neg unfilled]
  rw [fuel, handleLines, idxOf_newline free []]
  simp only [taken, dropped, performed]
  split_ifs with ok
  · rw [nothing, ok]
  · rfl

theorem line_taken (empty : b.m_Buf fd = []) {line : Bytes} (short : line.length ≤ BUF_SIZE - 2) :
    line.take (room (b.m_Buf fd)) = line := by
  refine List.take_of_length_le ?_
  rw [room, empty, List.length_nil]
  omega

theorem serve_long (empty : b.m_Buf fd = []) {line : Bytes} (long : BUF_SIZE - 1 ≤ line.length)
    (sys : Nat → SysCalls) :
    b.serve fd (.data (line.take (room (b.m_Buf fd)))) sys =
      (⟨b.daemon.close fd, Function.update b.m_Buf fd (line.take (BUF_SIZE - 1))⟩, []) := by
  have full : (line.take (BUF_SIZE - 1)).length = BUF_SIZE - 1 := List.length_take_of_le long
  simp only [Buffered.serve, room, empty, List.length_nil, Nat.sub_zero, handle, List.nil_append,
    if_pos full]
  rfl

end

theorem bytesTo_apart {fd : Nat} {sent : List (Nat × Reply)} (apart : ∀ r ∈ sent, r.1 ≠ fd) :
    bytesTo fd sent = [] := by
  have none_left : sent.filter (·.1 = fd) = [] := by
    rw [List.filter_eq_nil_iff]
    exact fun r member => by simpa using apart r member
  rw [bytesTo, none_left]
  rfl

/-- A handler that nothing was received for, and that owes no exit code. -/
structure Live (fd : Nat) (b : Buffered) : Prop where
  handler : ∃ h, b.daemon.handlerAt fd = some h ∧ h.m_needExitCode = false
  buffer : b.m_Buf fd = []

private theorem live_other {b : Buffered} {fd : Nat} {e : Event} (buffer : b.m_Buf fd = [])
    (handler : ∃ h, handlerAfter b.daemon fd (action b.daemon e) = some h ∧
      h.m_needExitCode = false)
    (silent : bytesTo fd (repliesOf b.daemon (action b.daemon e)) = []) :
    Live fd (b.other e).1 ∧ bytesTo fd (b.other e).2 = [] := by
  refine ⟨⟨?_, buffer⟩, ?_⟩
  · simp only [Buffered.other, handlerAt_step]
    exact handler
  · simp only [Buffered.other, replies_step]
    exact silent

section

variable {b : Buffered} {fd : Nat} (live : Live fd b)

include live

private theorem live_expire (now : Nat) :
    Live fd (b.step (.expire now)).1 ∧ bytesTo fd (b.step (.expire now)).2 = [] := by
  refine live_other live.buffer ?_ ?_
  all_goals
    simp only [action]
    split_ifs
  · exact live.handler
  · exact live.handler
  · rfl
  · rfl

private theorem live_accept {fd' : Nat} (other : fd' ≠ fd) (uid uninitialised : Int) :
    Live fd (b.step (.accept fd' uid uninitialised)).1 ∧
      bytesTo fd (b.step (.accept fd' uid uninitialised)).2 = [] := by
  refine live_other ((Function.update_of_ne other.symm _ _).trans live.buffer) ?_ ?_
  all_goals
    simp only [action]
    split_ifs
  · simp only [handlerAfter, if_neg other.symm]
    exact live.handler
  · exact live.handler
  · rfl
  · rfl

private theorem live_reap (pid : Pid) (status : Nat) :
    Live fd (b.step (.reap pid status)).1 ∧ bytesTo fd (b.step (.reap pid status)).2 = [] := by
  obtain ⟨h, here, needless⟩ := live.handler
  refine live_other live.buffer ?_ ?_
  all_goals
    simp only [action]
    split_ifs
  · simp only [handlerAfter]
    split_ifs
    · exact ⟨reaped h status, by rw [here]; rfl, needless⟩
    · exact live.handler
  · exact live.handler
  · simp only [repliesOf]
    split
    · rfl
    · rename_i j waits
      split
      · rfl
      · rename_i h' here'
        by_cases same : j = fd
        · subst same
          obtain rfl := Option.some.inj (here.symm.trans here')
          have silent : sendExitCode (reaped h status) = [] := by
            simp [sendExitCode, reaped, needless]
          rw [silent]
          rfl
        · refine bytesTo_apart fun r member => ?_
          obtain ⟨reply, -, rfl⟩ := List.mem_map.mp member
          exact same
  · rfl

private theorem live_readable {fd' : Nat} (other : fd' ≠ fd) (r : Recv) (sys : Nat → SysCalls) :
    Live fd (b.step (.readable fd' r sys)).1 ∧
      bytesTo fd (b.step (.readable fd' r sys)).2 = [] := by
  obtain ⟨h, here, needless⟩ := live.handler
  simp only [Buffered.step]
  split_ifs
  · let I (S : Session) : Prop := S.daemon.handlerAt fd = some h ∧ ∀ s ∈ S.sent, s.1 ≠ fd
    have kept (S : Session) (line : Bytes) (holds : I S) :
        I (Session.doCommand fd' sys S line).1 := by
      simp only [Session.doCommand]
      split
      · exact holds
      · rename_i h' here'
        refine ⟨?_, ?_⟩
        · exact (handlerAt_set here' _ fd).trans ((if_neg other.symm).trans holds.1)
        · intro s member
          rcases List.mem_append.mp member with old | new
          · exact holds.2 s old
          · obtain ⟨reply, -, rfl⟩ := List.mem_map.mp new
            exact other
    have served : I (handle (Session.doCommand fd' sys) (b.m_Buf fd') ⟨b.daemon, 0, []⟩ r).state :=
      handle_invariant kept (b.m_Buf fd') ⟨here, by simp⟩ r
    refine ⟨⟨⟨h, ?_, needless⟩, ?_⟩, bytesTo_apart served.2⟩
    · simp only [Buffered.serve, Kdesud.conclude]
      split
      · exact served.1
      · rw [handlerAt_close, if_neg other.symm]
        exact served.1
      · exact served.1
    · exact (Function.update_of_ne other.symm _ _).trans live.buffer
  · exact ⟨live, rfl⟩

/-- Nothing that others do reaches the connection. -/
theorem live_wake {w : Wakeup} (apart : touches fd w = false) :
    Live fd (b.step w).1 ∧ bytesTo fd (b.step w).2 = [] := by
  cases w with
  | expire now => exact live_expire live now
  | reap pid status => exact live_reap live pid status
  | accept fd' uid uninitialised =>
    exact live_accept live (of_decide_eq_false apart) uid uninitialised
  | readable fd' r sys => exact live_readable live (of_decide_eq_false apart) r sys

end

/-- Between two calls nothing is pending, and an open connection has a handler that waits for
a line. -/
structure Ready (fd : Nat) (l : Link) : Prop where
  pending : l.pending = []
  live : l.connected = true → Live fd l.daemon
  opened : l.connected = true → isOpen l.daemon fd = true

/-- The daemon performs the call: the connection is open, the line fits into the daemon's
buffer, its arguments survive the way, and the peer is the daemon's user. -/
def Performed (fd : Nat) (l : Link) (m : Method) (sys : Nat → SysCalls) : Prop :=
  l.connected = true ∧ m.line.length ≤ BUF_SIZE - 2 ∧ m.Carried ∧
    ∃ h, l.daemon.daemon.handlerAt fd = some h ∧ peerIsMe (sys 0) h

def Answerable (fd : Nat) (moment : Moment Link Turn) : Prop :=
  match moment.event with
  | .call m sys => Performed fd moment.before m sys →
      Whole (m.meant.value moment.before.daemon.daemon.repo)
  | .other _ => True

private theorem ready_wake {fd : Nat} {l : Link} (ready : Ready fd l) (w : Wakeup) :
    Ready fd (l.wake fd w) := by
  simp only [Link.wake]
  split_ifs with stays connected
  · exact ready
  · have apart : touches fd w = false := by simpa [connected] using stays
    obtain ⟨live, nothing⟩ := live_wake (ready.live connected) apart
    refine ⟨?_, fun _ => live, ?_⟩
    · simp only [ready.pending, nothing, List.nil_append]
    · simp [connected]
  · refine ⟨ready.pending, ?_, ?_⟩
    · simp [connected]
    · simp [connected]

private theorem handlerOf_needExitCode {request : Request} (other : request ≠ .exit)
    (h : ConnectionHandler) (child : Option Child) :
    (handlerOf h child request).m_needExitCode = h.m_needExitCode := by
  cases request
  case exit => exact absurd rfl other
  case exec => cases child <;> rfl
  all_goals rfl

section

variable {fd : Nat} {l : Link} (ready : Ready fd l) (connected : l.connected = true) {m : Method}
    {sys : Nat → SysCalls} {daemon : Buffered}

include ready connected

private theorem call_closed
    (stepped : l.daemon.step (.readable fd (.data (m.line.take (room (l.daemon.m_Buf fd)))) sys) =
      (daemon, [])) (closed : isOpen daemon fd = false) :
    (∀ x ∈ (l.call fd m sys).2, x.InStep) ∧ Ready fd (l.call fd m sys).1 := by
  have nothing : bytesTo fd [] = [] := rfl
  simp only [Link.call, connected, if_true, stepped, closed, nothing, ready.pending]
  refine ⟨fun x member => ?_, ?_⟩
  · obtain rfl := List.mem_singleton.mp member
    exact ⟨rfl, rfl⟩
  · exact ⟨rfl, by simp, by simp⟩

private theorem call_answered {repo : Repository} {ok : Results}
    (fine : m.meant.value repo ≠ [] → ok = .Res_OK)
    (stepped : l.daemon.step (.readable fd (.data (m.line.take (room (l.daemon.m_Buf fd)))) sys) =
      (daemon, [(fd, .respond ok (m.meant.value repo))]))
    (live : Live fd daemon) (opened : isOpen daemon fd = true) :
    ((∀ x ∈ (l.call fd m sys).2, x.InStep) ↔ Whole (m.meant.value repo)) ∧
      (Whole (m.meant.value repo) → Ready fd (l.call fd m sys).1) := by
  have reply : bytesTo fd [(fd, .respond ok (m.meant.value repo))] =
      (Reply.respond ok (m.meant.value repo)).buf := by
    simp [bytesTo]
  have whole := inStep_iff_whole fine
  dsimp only at whole
  have more : (Reply.respond ok (m.meant.value repo)).buf ≠ [] := by simp [Reply.buf]
  generalize (Reply.respond ok (m.meant.value repo)).buf = buf at reply whole more
  have some_received : buf.take RECV_SIZE ≠ [] := by
    simp [more, RECV_SIZE]
  simp only [Link.call, connected, if_true, stepped, reply, ready.pending, List.nil_append,
    some_received, false_and, if_false, List.forall_mem_singleton]
  constructor
  · rw [← whole]
    constructor
    · rintro ⟨own, complete⟩
      exact ⟨own, Option.some.inj complete⟩
    · rintro ⟨own, complete⟩
      exact ⟨own, congrArg some complete⟩
  · intro comes_back
    refine ⟨?_, fun _ => live, fun _ => opened⟩
    have own : buf.take RECV_SIZE = buf := (whole.mpr comes_back).1
    have short : buf.length ≤ RECV_SIZE := by
      rw [← own]
      exact List.length_take_le _ _
    exact List.drop_eq_nil_of_le short

private theorem step_served (r : Recv) :
    l.daemon.step (.readable fd r sys) = l.daemon.serve fd r sys := by
  have opened := Bool.and_eq_true_iff.mp (ready.opened connected)
  simp only [Buffered.step]
  exact if_pos opened

private theorem refused_closes (apart : ¬Performed fd l m sys) :
    ∃ daemon, l.daemon.step
        (.readable fd (.data (m.line.take (room (l.daemon.m_Buf fd)))) sys) = (daemon, []) ∧
      isOpen daemon fd = false := by
  obtain ⟨⟨h, here, -⟩, empty⟩ := ready.live connected
  rw [step_served ready connected]
  by_cases short : m.line.length ≤ BUF_SIZE - 2
  · have served := serve_line here empty m.oneLine short sys
    rw [line_taken empty short]
    rcases doCommand_method m (sys 0) h l.daemon.daemon.repo with
      ⟨⟨carried, me⟩, -⟩ | ⟨-, h', refused⟩
    · exact absurd ⟨connected, short, carried, h, here, me⟩ apart
    · rw [refused] at served
      exact ⟨_, served, by simp [isOpen, parseError, Kdesud.conclude, handlerAt_close]⟩
  · refine ⟨_, serve_long empty ?_ sys, by simp [isOpen, handlerAt_close]⟩
    have size : BUF_SIZE = 1024 := rfl
    omega

private theorem performed_answers (performed : Performed fd l m sys) :
    ∃ daemon ok, (m.meant.value l.daemon.daemon.repo ≠ [] → ok = .Res_OK) ∧
      l.daemon.step (.readable fd (.data (m.line.take (room (l.daemon.m_Buf fd)))) sys) =
        (daemon, [(fd, .respond ok (m.meant.value l.daemon.daemon.repo))]) ∧
      Live fd daemon ∧ isOpen daemon fd = true := by
  obtain ⟨⟨h, here, needless⟩, empty⟩ := ready.live connected
  obtain ⟨-, short, carried, h', here', me⟩ := performed
  obtain rfl := Option.some.inj (here.symm.trans here')
  have served := serve_line here empty m.oneLine short sys
  rcases doCommand_method m (sys 0) h l.daemon.daemon.repo with ⟨-, same⟩ | ⟨lost, -⟩
  · obtain ⟨ok, sent, fine⟩ := perform_answer (sys 0) h l.daemon.daemon.repo m.regular.1
    have ending : (perform (sys 0) h l.daemon.daemon.repo m.meant).ending = .ok :=
      (perform_ending (sys 0) h l.daemon.daemon.repo m.meant).trans (if_neg m.regular.2)
    rw [same, ending, sent] at served
    have stored := handlerAt_store here (perform (sys 0) h l.daemon.daemon.repo m.meant)
    have still : (perform (sys 0) h l.daemon.daemon.repo m.meant).handler.m_needExitCode =
        false := by
      rw [perform_handler, handlerOf_needExitCode m.regular.1, needless]
    rw [step_served ready connected, line_taken empty short]
    refine ⟨_, ok, fine, served, ⟨⟨_, stored, still⟩, Function.update_self ..⟩, ?_⟩
    have running := (Bool.and_eq_true_iff.mp (ready.opened connected)).1
    rw [isOpen, Bool.and_eq_true_iff]
    exact ⟨running, by rw [Kdesud.conclude, stored]; rfl⟩
  · exact absurd ⟨carried, me⟩ lost

private theorem call_connected :
    ((∀ x ∈ (l.call fd m sys).2, x.InStep) ↔ Answerable fd ⟨l, .call m sys⟩) ∧
      (Answerable fd ⟨l, .call m sys⟩ → Ready fd (l.call fd m sys).1) := by
  by_cases performed : Performed fd l m sys
  · obtain ⟨daemon, ok, fine, stepped, live, opened⟩ :=
      performed_answers ready connected performed
    have answerable : Answerable fd ⟨l, .call m sys⟩ ↔
        Whole (m.meant.value l.daemon.daemon.repo) :=
      ⟨fun whole => whole performed, fun whole _ => whole⟩
    rw [answerable]
    exact call_answered ready connected fine stepped live opened
  · obtain ⟨daemon, stepped, closed⟩ := refused_closes ready connected performed
    obtain ⟨in_step, ready'⟩ := call_closed ready connected stepped closed
    exact ⟨iff_of_true in_step fun whole => absurd whole performed, fun _ => ready'⟩

end

/-- One turn: its exchange is in step exactly if the call is answerable, and then nothing is
left over. -/
private theorem step_in_step {fd : Nat} {l : Link} (ready : Ready fd l) (turn : Turn) :
    ((∀ x ∈ (l.step fd turn).2, x.InStep) ↔ Answerable fd ⟨l, turn⟩) ∧
      (Answerable fd ⟨l, turn⟩ → Ready fd (l.step fd turn).1) := by
  cases turn with
  | other w =>
    exact ⟨iff_of_true (by simp [Link.step]) trivial, fun _ => ready_wake ready w⟩
  | call m sys =>
    by_cases connected : l.connected = true
    · exact call_connected ready connected
    · simp only [Link.step, Link.call, if_neg connected, List.forall_mem_singleton]
      exact ⟨iff_of_true ⟨rfl, rfl⟩ fun performed => absurd performed.1 connected, fun _ => ready⟩

private theorem ready_accepted (fds : Descriptors) (ws : List Wakeup) (fd : Nat)
    (uid uninitialised : Int) : Ready fd (accepted fds ws fd uid uninitialised) := by
  refine ⟨rfl, fun connected => ?_, id⟩
  have opened : isOpen (accepted fds ws fd uid uninitialised).daemon fd = true := connected
  simp only [accepted, run_snoc, Buffered.step] at opened ⊢
  generalize run Buffered.step (Buffered.new fds) ws = b at opened ⊢
  by_cases running : b.daemon.running = true
  · refine ⟨⟨.new fd uid uninitialised, ?_, rfl⟩, Function.update_self ..⟩
    simp [Buffered.other, handlerAt_step, action, running, handlerAfter]
  · refine absurd opened ?_
    simp [isOpen, Buffered.other, step, running]

/-- The calls of a client on one connection are in step with the daemon exactly if every value
that they ask for comes back whole. -/
theorem in_step_iff (fds : Descriptors) (ws : List Wakeup) (fd : Nat) (uid uninitialised : Int)
    (turns : List Turn) :
    (∀ x ∈ (outputs (Link.step fd) (accepted fds ws fd uid uninitialised) turns).flatten,
        x.InStep) ↔
      ∀ moment ∈ history (Link.step fd) (accepted fds ws fd uid uninitialised) turns,
        Answerable fd moment :=
  outputs_iff_history (fun _ turn ready => step_in_step ready turn)
    (ready_accepted fds ws fd uid uninitialised) turns

def twoLongNames : List Turn :=
  let name (c : UInt8) : Bytes := List.replicate 520 c ++ ascii "-"
  [.call (.request (.setVar (name 97) (ascii "v") 60 (ascii "g"))) uidOnly,
    .call (.request (.setVar (name 98) (ascii "v") 60 (ascii "g"))) uidOnly,
    .call (.request (.getKeys (ascii "g"))) uidOnly,
    .call .ping uidOnly]

theorem keys_left_for_next_call : ¬∀ fds ws fd uid uninitialised turns,
    ∀ x ∈ (outputs (Link.step fd) (accepted fds ws fd uid uninitialised) turns).flatten,
      x.InStep := by
  intro always
  have in_step := always .lowest [] 6 1000 0 twoLongNames
  have cut : ¬∀ x ∈
      (outputs (Link.step 6) (accepted .lowest [] 6 1000 0) twoLongNames).flatten,
      x.received = x.reply := by decide +kernel
  exact cut fun x member => (in_step x member).own

end KDESu.Client.Commanding
