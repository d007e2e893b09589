/- KDESu/Client/Connecting
   source: src/client.cpp
   digest: The descriptor of a client, from its constructor over reconnections to its destructor. -/

import KDESu.Client.Commanding
import KDESu.Client.Meeting
import KDESu.Library.Typestates

set_option autoImplicit false
set_option relaxedAutoImplicit false

namespace KDESu.Client.Connecting

open KDESu.ByteArrays
open KDESu.Library.Typestates
open KDESu.Client.Meeting hiding Locale
open KDESu.Process.Launching (constData)

/-- How the client was built to look at its peer: `HAVE_STRUCT_UCRED` with `SO_PEERCRED`,
`HAVE_GETPEEREID`, or neither. -/
inductive PeerCheck
  | SO_PEERCRED | getpeereid | lstat
  deriving DecidableEq, Repr

/-- What the client learns of its peer: the owner that the call tells, if it succeeds, and for
`lstat` whether the path is that of a socket. -/
structure Peer where
  getuid : Nat
  owner : Option Nat
  isSocket : Bool
  deriving DecidableEq, Repr

/-- The connection is given up; where the kernel is asked for the peer and does not tell, it is
not. -/
def refused (b : PeerCheck) (peer : Peer) : Bool :=
  match b with
  | .SO_PEERCRED | .getpeereid =>
      match peer.owner with
      | none => false
      | some uid => uid ≠ peer.getuid
  | .lstat =>
      match peer.owner with
      | none => true
      | some uid => uid ≠ peer.getuid || !peer.isSocket

inductive Use
  | socket
  | connect (address : Bytes) (done : Bool)
  | peer (p : Peer)
  | send (data : Bytes)
  | recv
  | close
  deriving DecidableEq, Repr

/-- `ClientPrivate`, and what was done with descriptors so far. -/
structure ClientPrivate where
  daemon : Bytes
  sockfd : Int
  sock : Bytes
  uses : List (Int × Use)
  deriving DecidableEq, Repr

structure ConnectAnswers where
  accessFails : Bool
  socket : Int
  addr : SockaddrUn
  connectFails : Bool
  peer : Peer

/-- What `send` returns and what `recv` gives, nothing where it fails. -/
structure CommandAnswers where
  sent : Int
  received : Bytes

structure StartAnswers where
  findDaemon : Bytes
  finishes : Bool
  exitCode : Int
  connect : ConnectAnswers

namespace ClientPrivate

def use (c : ClientPrivate) (u : Use) : ClientPrivate :=
  { c with uses := c.uses ++ [(c.sockfd, u)] }

def drop (c : ClientPrivate) : ClientPrivate := { c.use .close with sockfd := -1 }

/-- `Client::connect` from the call of `connect` on. -/
def join (b : PeerCheck) (a : ConnectAnswers) (address : Bytes) (c : ClientPrivate) :
    ClientPrivate × Int :=
  let c := c.use (.connect address !a.connectFails)
  if a.connectFails then (c.drop, -1)
  else
    let c := c.use (.peer a.peer)
    if refused b a.peer then (c.drop, -1) else (c, 0)

/-- `Client::connect`; none if the copy leaves `sun_path`. -/
def connect (b : PeerCheck) (a : ConnectAnswers) (c : ClientPrivate) :
    Option (ClientPrivate × Int) :=
  let c := if 0 ≤ c.sockfd then c.use .close else c
  if a.accessFails then some ({ c with sockfd := -1 }, -1)
  else
    let c := { c with sockfd := a.socket }
    if a.socket < 0 then some (c, -1)
    else
      let c := c.use .socket
      (connectAddress a.addr c.sock).map fun address => c.join b a address

def new (l : Meeting.Locale) (env : Environment) (b : PeerCheck) (a : ConnectAnswers) :
    Option ClientPrivate :=
  match clientSock l env with
  | none => some ⟨[], -1, [], []⟩
  | some sock => (connect b a ⟨[], -1, sock, []⟩).map Prod.fst

def command (cmd : Bytes) (a : CommandAnswers) (c : ClientPrivate) : ClientPrivate × Int × Bytes :=
  if c.sockfd < 0 then (c, -1, [])
  else
    let c := c.use (.send cmd)
    if a.sent ≠ cmd.length then (c, -1, [])
    else (c.use .recv, Commanding.command (a.received.take Commanding.RECV_SIZE))

def startServer (b : PeerCheck) (a : StartAnswers) (c : ClientPrivate) :
    Option (ClientPrivate × Int) :=
  let c := if c.daemon = [] then { c with daemon := a.findDaemon } else c
  if c.daemon = [] then some (c, -1)
  else if !a.finishes then some (c, -1)
  else (connect b a.connect c).map fun (c, _) => (c, a.exitCode)

def delete (c : ClientPrivate) : List (Int × Use) :=
  if 0 ≤ c.sockfd then (c.use .close).uses else c.uses

end ClientPrivate

/-- A call of a method: all but `startServer` send one command. -/
inductive Op
  | command (cmd : Bytes) (a : CommandAnswers)
  | startServer (a : StartAnswers)

def ClientPrivate.step (b : PeerCheck) (c : ClientPrivate) : Op → Option ClientPrivate
  | .command cmd a => some (c.command cmd a).1
  | .startServer a => (c.startServer b a).map Prod.fst

def life (l : Meeting.Locale) (env : Environment) (b : PeerCheck) (a : ConnectAnswers)
    (ops : List Op) : Option ClientPrivate :=
  (ClientPrivate.new l env b a).bind fun c => ops.foldlM (ClientPrivate.step b) c

inductive Stage
  | opened | connected | refused | trusted
  deriving DecidableEq, Repr

/-- A descriptor is connected to the client's path, its peer is looked at, and only when it is not
refused, commands are sent and replies received. It is closed once. -/
def rules (b : PeerCheck) (path : Bytes) : Protocol Stage Use
  | none, .socket => some (some .opened)
  | some .opened, .connect address true =>
      if address = path then some (some .connected) else none
  | some .opened, .connect _ false => some (some .opened)
  | some .connected, .peer p => some (some (if refused b p then .refused else .trusted))
  | some .trusted, .send _ => some (some .trusted)
  | some .trusted, .recv => some (some .trusted)
  | some _, .close => some none
  | _, _ => none

/-- The client has its descriptor and no other one, or none. -/
def held (c : ClientPrivate) : Option Stage := if 0 ≤ c.sockfd then some .trusted else none

/-- All uses were allowed, with one descriptor at a time, and they left what the client has. -/
def Tracked (b : PeerCheck) (c : ClientPrivate) : Prop :=
  Single (rules b (constData c.sock)) c.uses c.sockfd (held c)

section

variable {b : PeerCheck} {c : ClientPrivate}

theorem tracked_without {old fd : Int}
    (closed : Single (rules b (constData c.sock)) c.uses old none) (none_held : fd < 0) :
    Tracked b { c with sockfd := fd } := by
  rw [Tracked, held, if_neg (Int.not_le.mpr none_held)]
  exact closed.other fd

theorem tracked_of_trusted (valid : 0 ≤ c.sockfd)
    (trusted : Single (rules b (constData c.sock)) c.uses c.sockfd (some .trusted)) :
    Tracked b c := by
  rw [Tracked, held, if_pos valid]
  exact trusted

theorem single_close {stage : Stage}
    (single : Single (rules b (constData c.sock)) c.uses c.sockfd (some stage)) :
    Single (rules b (constData c.sock)) (c.use .close).uses c.sockfd none := by
  have allowed : rules b (constData c.sock) (some stage) .close = some none := by
    cases stage <;> rfl
  exact single.use allowed

theorem tracked_drop {stage : Stage}
    (single : Single (rules b (constData c.sock)) c.uses c.sockfd (some stage)) :
    Tracked b c.drop :=
  tracked_without (c := c.use .close) (single_close single) (by decide)

theorem single_reconnect (tracked : Tracked b c) :
    Single (rules b (constData c.sock)) (if 0 ≤ c.sockfd then c.use .close else c).uses
      c.sockfd none := by
  rw [Tracked, held] at tracked
  split_ifs at tracked ⊢
  · exact single_close tracked
  · exact tracked

theorem single_delete (tracked : Tracked b c) :
    Single (rules b (constData c.sock)) c.delete c.sockfd none := by
  have closed := single_reconnect tracked
  rw [ClientPrivate.delete]
  split_ifs at closed ⊢ <;> exact closed

theorem tracked_join
    (opened : Single (rules b (constData c.sock)) c.uses c.sockfd (some .opened))
    (valid : 0 ≤ c.sockfd) (a : ConnectAnswers) :
    Tracked b (c.join b a (constData c.sock)).1 := by
  simp only [ClientPrivate.join]
  by_cases fails : a.connectFails = true
  · have again : Single (rules b (constData c.sock))
        (c.use (.connect (constData c.sock) !a.connectFails)).uses c.sockfd (some .opened) :=
      opened.use (by rw [fails]; rfl)
    rw [if_pos fails]
    exact tracked_drop (c := c.use _) again
  · have connected : Single (rules b (constData c.sock))
        (c.use (.connect (constData c.sock) !a.connectFails)).uses c.sockfd (some .connected) :=
      opened.use (by rw [Bool.eq_false_iff.mpr fails]; exact if_pos rfl)
    have known : Single (rules b (constData c.sock))
        ((c.use (.connect (constData c.sock) !a.connectFails)).use (.peer a.peer)).uses c.sockfd
        (some (if refused b a.peer then .refused else .trusted)) :=
      connected.use rfl
    rw [if_neg fails]
    by_cases foreign : refused b a.peer = true
    · rw [if_pos foreign]
      exact tracked_drop (c := (c.use _).use _) known
    · rw [if_neg foreign] at known ⊢
      exact tracked_of_trusted (c := (c.use _).use _) valid known

theorem join_sock (b : PeerCheck) (a : ConnectAnswers) (address : Bytes) (c : ClientPrivate) :
    (c.join b a address).1.sock = c.sock := by
  simp only [ClientPrivate.join]
  by_cases fails : a.connectFails = true
  · rw [if_pos fails]
    rfl
  · rw [if_neg fails]
    split_ifs <;> rfl

theorem tracked_connect (tracked : Tracked b c)
    (fits : (constData c.sock).length < sizeofSunPath) (a : ConnectAnswers) :
    ∃ c' ret, c.connect b a = some (c', ret) ∧ c'.sock = c.sock ∧ Tracked b c' := by
  have closed := single_reconnect tracked
  have same : (if 0 ≤ c.sockfd then c.use .close else c).sock = c.sock := by split_ifs <;> rfl
  simp only [ClientPrivate.connect]
  generalize (if 0 ≤ c.sockfd then c.use .close else c) = old at closed same ⊢
  rw [← same] at closed fits ⊢
  by_cases inaccessible : a.accessFails = true
  · rw [if_pos inaccessible]
    exact ⟨_, _, rfl, rfl, tracked_without closed (by decide)⟩
  · rw [if_neg inaccessible]
    by_cases unopened : a.socket < 0
    · rw [if_pos unopened]
      exact ⟨_, _, rfl, rfl, tracked_without closed unopened⟩
    · have opened : Single (rules b (constData old.sock))
          (({ old with sockfd := a.socket } : ClientPrivate).use .socket).uses a.socket
          (some .opened) := (closed.other a.socket).use rfl
      have joined :=
        tracked_join (c := ({ old with sockfd := a.socket } : ClientPrivate).use .socket)
          opened (Int.not_lt.mp unopened) a
      have address : connectAddress a.addr old.sock = some (constData old.sock) := by
        rw [connectAddress_eq, if_pos fits]
      rw [if_neg unopened]
      exact ⟨_, _, congrArg (Option.map _) address, join_sock b a _ _, joined⟩

theorem tracked_command (tracked : Tracked b c) (cmd : Bytes) (a : CommandAnswers) :
    Tracked b (c.command cmd a).1 := by
  simp only [ClientPrivate.command]
  by_cases closed : c.sockfd < 0
  · rw [if_pos closed]
    exact tracked
  · have trusted : Single (rules b (constData c.sock)) c.uses c.sockfd (some .trusted) := by
      rw [Tracked, held, if_pos (Int.not_lt.mp closed)] at tracked
      exact tracked
    have sent : Single (rules b (constData c.sock)) (c.use (.send cmd)).uses c.sockfd
        (some .trusted) := trusted.use rfl
    have received : Single (rules b (constData c.sock)) ((c.use (.send cmd)).use .recv).uses
        c.sockfd (some .trusted) := sent.use rfl
    have open_still : 0 ≤ c.sockfd := Int.not_lt.mp closed
    rw [if_neg closed]
    split_ifs
    · exact tracked_of_trusted (c := c.use _) open_still sent
    · exact tracked_of_trusted (c := (c.use _).use _) open_still received

theorem tracked_step (tracked : Tracked b c) (fits : (constData c.sock).length < sizeofSunPath)
    (op : Op) : ∃ c', c.step b op = some c' ∧ c'.sock = c.sock ∧ Tracked b c' := by
  cases op with
  | command cmd a =>
    refine ⟨_, rfl, ?_, tracked_command tracked cmd a⟩
    simp only [ClientPrivate.command]
    split_ifs <;> rfl
  | startServer a =>
    have found : Tracked b (if c.daemon = [] then { c with daemon := a.findDaemon } else c) := by
      split_ifs <;> exact tracked
    have same : (if c.daemon = [] then { c with daemon := a.findDaemon } else c).sock = c.sock := by
      split_ifs <;> rfl
    simp only [ClientPrivate.step, ClientPrivate.startServer]
    generalize (if c.daemon = [] then { c with daemon := a.findDaemon } else c) = d at found same ⊢
    rw [← same] at fits ⊢
    obtain ⟨c', ret, connected, kept, tracked'⟩ := tracked_connect found fits a.connect
    split_ifs
    · exact ⟨d, rfl, rfl, found⟩
    · exact ⟨d, rfl, rfl, found⟩
    · exact ⟨c', by rw [connected]; rfl, kept, tracked'⟩

theorem tracked_run (tracked : Tracked b c) (fits : (constData c.sock).length < sizeofSunPath)
    (ops : List Op) :
    ∃ c', ops.foldlM (ClientPrivate.step b) c = some c' ∧ c'.sock = c.sock ∧ Tracked b c' := by
  induction ops generalizing c with
  | nil => exact ⟨c, rfl, rfl, tracked⟩
  | cons op ops ih =>
    obtain ⟨d, stepped, same, tracked'⟩ := tracked_step tracked fits op
    obtain ⟨e, ran, same', tracked''⟩ := ih tracked' (same ▸ fits)
    refine ⟨e, ?_, same'.trans same, tracked''⟩
    rw [List.foldlM_cons, stepped]
    exact ran

end

theorem tracked_life (l : Meeting.Locale) (env : Environment) (b : PeerCheck) (a : ConnectAnswers)
    (ops : List Op)
    (fits : ∀ sock, clientSock l env = some sock → (constData sock).length < sizeofSunPath) :
    ∃ c, life l env b a ops = some c ∧ (∀ sock, clientSock l env = some sock → c.sock = sock) ∧
      Tracked b c := by
  have fresh (sock : Bytes) : Tracked b ⟨[], -1, sock, []⟩ := .begin (-1)
  cases computed : clientSock l env with
  | none =>
    obtain ⟨c, ran, -, tracked⟩ := tracked_run (fresh []) (by decide) ops
    refine ⟨c, ?_, fun sock given => (nomatch given), tracked⟩
    rw [life, ClientPrivate.new, computed]
    exact ran
  | some sock =>
    obtain ⟨c, ret, connected, same, tracked⟩ := tracked_connect (fresh sock) (fits sock computed) a
    obtain ⟨d, ran, same', tracked'⟩ := tracked_run tracked (same ▸ fits sock computed) ops
    refine ⟨d, ?_, fun other given => ?_, tracked'⟩
    · rw [life, ClientPrivate.new, computed]
      simp only [connected, Option.map_some, Option.bind_some]
      exact ran
    · rw [same', same]
      exact Option.some.inj given

theorem trusted_of_send {b : PeerCheck} {path data : Bytes} {stage next : Option Stage}
    (allowed : rules b path stage (.send data) = some next) : stage = some .trusted := by
  cases stage with
  | none => cases allowed
  | some stage =>
    cases stage with
    | trusted => rfl
    | opened | connected | refused => cases allowed

/-- Whatever is called and whatever the kernel answers, a client whose path fits opens a descriptor
only when it has none, closes each once, and uses none afterwards, so that at no time there are two;
it sends only through one that is connected to its path and whose peer was not refused; and its
destructor leaves none open. -/
theorem descriptors_in_order (l : Meeting.Locale) (env : Environment) (b : PeerCheck)
    (a : ConnectAnswers) (ops : List Op)
    (fits : ∀ sock, clientSock l env = some sock → (constData sock).length < sizeofSunPath) :
    ∃ c, life l env b a ops = some c ∧ (∀ sock, clientSock l env = some sock → c.sock = sock) ∧
      follow (rules b (constData c.sock)) idle c.uses = some (holding c.sockfd (held c)) ∧
      follow (rules b (constData c.sock)) idle c.delete = some idle ∧
      (∀ pre, pre <+: c.delete → ∃ fd stage,
        follow (rules b (constData c.sock)) idle pre = some (holding fd stage)) ∧
      ∀ pre fd data post, c.uses = pre ++ (fd, .send data) :: post →
        ∃ t, follow (rules b (constData c.sock)) idle pre = some t ∧ t fd = some .trusted := by
  obtain ⟨c, lived, same, tracked⟩ := tracked_life l env b a ops fits
  have deleted := single_delete tracked
  refine ⟨c, lived, same, tracked.follow, deleted.follow, deleted.fronts,
    fun pre fd data post split => ?_⟩
  rw [Tracked, split] at tracked
  obtain ⟨between, next, before, allowed⟩ := allowed_of_follow tracked.follow
  exact ⟨between, before, trusted_of_send allowed⟩

def connecting (fd : Int) : ConnectAnswers := ⟨false, fd, zeroed, false, ⟨1000, some 1000, true⟩⟩

def atDisplay : Environment := ⟨some (ascii ":0"), none, QStringLiteral "/run/user/1000"⟩

theorem descriptors_in_order_restarted :
    ∃ c, life latin1 atDisplay .SO_PEERCRED (connecting 5)
        [.command (ascii "PING\n") ⟨5, []⟩,
          .startServer ⟨ascii "/usr/libexec/kdesud", true, 0, connecting 6⟩] = some c ∧
      follow (rules .SO_PEERCRED (constData c.sock)) idle c.delete = some idle := by
  have fits : ∀ sock, clientSock latin1 atDisplay = some sock →
      (constData sock).length < sizeofSunPath := by
    have computed : clientSock latin1 atDisplay = some (ascii "/run/user/1000/kdesud_:0") := by
      decide +kernel
    intro sock given
    rw [computed] at given
    obtain rfl := Option.some.inj given
    decide +kernel
  obtain ⟨c, lived, -, -, done, -⟩ := descriptors_in_order latin1 atDisplay .SO_PEERCRED
    (connecting 5) [.command (ascii "PING\n") ⟨5, []⟩,
      .startServer ⟨ascii "/usr/libexec/kdesud", true, 0, connecting 6⟩] fits
  exact ⟨c, lived, done⟩

end KDESu.Client.Connecting
