/- KDESu/Client/Meeting
   source: src/client.cpp, src/kdesud/kdesud.cpp
   digest: The sockets of the client and of the daemon, and the environments where they meet. -/

import KDESu.Library.CheckedMemory
import KDESu.Process.Launching

set_option autoImplicit false
set_option relaxedAutoImplicit false

namespace KDESu.Client.Meeting

open KDESu.ByteArrays
open KDESu.Library.CheckedMemory
open KDESu.Process.Launching (constData constData_eq_iff constData_append_nul)

/-- A string of UTF-16 code units. -/
abbrev QString := List UInt16

def QStringLiteral (s : String) : QString := (ascii s).map UInt8.toUInt16

/-- Qt's conversions from the locale's bytes and to the names of files. -/
structure Locale where
  fromLocal8Bit : Bytes → QString
  encodeName : QString → Bytes

/-- What both programs read of their environment; an unset variable is null. -/
structure Environment where
  DISPLAY : QByteArray
  WAYLAND_DISPLAY : QByteArray
  RuntimeLocation : QString

namespace Locale

def decode (l : Locale) : QByteArray → QString
  | none => []
  | some s => l.fromLocal8Bit s

end Locale

def isDigit (c : UInt16) : Bool := 48 ≤ c ∧ c ≤ 57

/-- What is behind a match of `\.[0-9]+$` at the front, where `$` is the end or a last newline. -/
def matchScreen : QString → Option QString
  | [] => none
  | c :: rest =>
      let behind := rest.dropWhile isDigit
      if c = 46 ∧ rest.takeWhile isDigit ≠ [] ∧ (behind = [] ∨ behind = [10]) then some behind
      else none

/-- `display.remove` of all matches: there is nothing to match behind the first. -/
def stripScreen : QString → QString
  | [] => []
  | c :: rest =>
      match matchScreen (c :: rest) with
      | some behind => behind
      | none => c :: stripScreen rest

/-- `QString::arg` on a string whose place markers are all `%1`. -/
def arg (a : QString) : QString → QString
  | 37 :: 49 :: rest => a ++ arg a rest
  | c :: rest => c :: arg a rest
  | [] => []

def sizeofSunPath : Nat := 108

/-- A `sockaddr_un` on the stack, whose path can be anything at first. -/
structure SockaddrUn where
  sun_path : Bytes
  size : sun_path.length = sizeofSunPath

def strncpy (dst s : Bytes) (n : Nat) : Bytes :=
  (s ++ List.replicate n 0).take n ++ dst.drop n

/-- The socket path that `Client::Client` computes, if it gets that far. -/
def clientSock (l : Locale) (env : Environment) : Option Bytes :=
  let display := l.decode env.DISPLAY
  let display := if display = [] then l.decode env.WAYLAND_DISPLAY else display
  if display = [] then none
  else
    some (l.encodeName (env.RuntimeLocation ++ QStringLiteral "/kdesud_" ++ stripScreen display))

/-- The address that `Client::connect` fills in; none if the copy leaves `sun_path`. -/
def connectAddress (addr : SockaddrUn) (sock : Bytes) : Option Bytes :=
  (strcpy 0 addr.sun_path (constData sock ++ [0])).map constData

/-- The address that `create_socket` fills in, as far as `SUN_LEN` reaches. -/
def bindAddress (addr : SockaddrUn) (sock : Bytes) : Bytes :=
  constData ((strncpy addr.sun_path (constData sock) (sizeofSunPath - 1)).set
    (sizeofSunPath - 1) 0)

inductive SocketOption
  | SO_LINGER | SO_REUSEADDR | SO_KEEPALIVE
  deriving DecidableEq, Repr

/-- The calls of `create_socket`; a ping is that of a client that it makes. -/
inductive SysCall
  | lstat (path : Bytes) | unlink (path : Bytes) | access (path : Bytes) | ping
  | socket | bind (sockfd : Int) (address : Bytes)
  | setsockopt (sockfd : Int) (option : SocketOption)
  | chmod (path : Bytes) (mode : Nat) | close (fd : Int)
  deriving DecidableEq, Repr

structure Answers where
  symlink : Bool
  unlinkLinkFails : Bool
  accessible : Bool
  ping : Int
  unlinkStaleFails : Bool
  socket : Int
  bindFails : Bool
  setsockoptFails : SocketOption → Bool

structure Run where
  calls : List SysCall
  ret : Int
  deriving DecidableEq, Repr

namespace Run

def after (r : Run) (calls : List SysCall) : Run := { r with calls := calls ++ r.calls }

end Run

/-- The options, one after the other; whoever fails closes the socket. -/
def setOptions (path : Bytes) (a : Answers) : List SocketOption → Run
  | [] => ⟨[.chmod path 0o600], a.socket⟩
  | option :: rest =>
      if a.setsockoptFails option then ⟨[.setsockopt a.socket option, .close a.socket], -1⟩
      else (setOptions path a rest).after [.setsockopt a.socket option]

/-- From `socket` on. -/
def openSocket (sock : Bytes) (addr : SockaddrUn) (a : Answers) : Run :=
  if a.socket < 0 then ⟨[.socket], -1⟩
  else
    let bound := [.socket, .bind a.socket (bindAddress addr sock)]
    if a.bindFails then ⟨bound ++ [.close a.socket], -1⟩
    else (setOptions (constData sock) a [.SO_LINGER, .SO_REUSEADDR, .SO_KEEPALIVE]).after bound

/-- From `access` on. -/
def removeStale (sock : Bytes) (addr : SockaddrUn) (a : Answers) : Run :=
  let path := constData sock
  if a.accessible then
    if a.ping = -1 then
      if a.unlinkStaleFails then ⟨[.access path, .ping, .unlink path], -1⟩
      else (openSocket sock addr a).after [.access path, .ping, .unlink path]
    else ⟨[.access path, .ping], -1⟩
  else (openSocket sock addr a).after [.access path]

def createSocket (l : Locale) (env : Environment) (addr : SockaddrUn) (a : Answers) : Run :=
  let display := l.decode env.DISPLAY
  if display = [] then ⟨[], -1⟩
  else
    let sock := l.encodeName (env.RuntimeLocation ++
      arg (stripScreen display) (QStringLiteral "/kdesud_%1"))
    let path := constData sock
    if a.symlink then
      if a.unlinkLinkFails then ⟨[.lstat path, .unlink path], -1⟩
      else (removeStale sock addr a).after [.lstat path, .unlink path]
    else (removeStale sock addr a).after [.lstat path]

theorem arg_kdesud (display : QString) :
    arg display (QStringLiteral "/kdesud_%1") = QStringLiteral "/kdesud_" ++ display := by
  have marker : QStringLiteral "/kdesud_%1" = QStringLiteral "/kdesud_" ++ [37, 49] := by
    decide +kernel
  have plain : QStringLiteral "/kdesud_" = [47, 107, 100, 101, 115, 117, 100, 95] := by
    decide +kernel
  rw [marker, plain]
  simp [arg]

private theorem nul_not_mem_constData (s : Bytes) : (0 : UInt8) ∉ constData s := by
  refine (constData_eq_iff _).mp ?_
  rw [constData, constData, List.takeWhile_idem]

private theorem constData_strncpy {dst path : Bytes} {n : Nat} (free : (0 : UInt8) ∉ path)
    (size : dst.length = n + 1) : constData ((strncpy dst path n).set n 0) = path.take n := by
  have copied : ((path ++ List.replicate n 0).take n).length = n := by
    rw [List.length_take, List.length_append, List.length_replicate]
    omega
  have last : (dst.drop n).set 0 0 = [0] := by
    have single : (dst.drop n).length = 1 := by
      rw [List.length_drop]
      omega
    obtain ⟨b, one⟩ := List.length_eq_one_iff.mp single
    rw [one, List.set_cons_zero]
  have ends : (strncpy dst path n).set n 0 =
      path.take n ++ 0 :: List.replicate (min (n - path.length) n) 0 := by
    rw [strncpy, List.set_append_right _ _ (Nat.le_of_eq copied), copied, Nat.sub_self, last,
      List.take_append, List.take_replicate, List.append_assoc, ← List.replicate_succ',
      List.replicate_succ]
  rw [ends, constData_append_nul fun member => free (List.mem_of_mem_take member)]

/-- `create_socket` cuts a path that does not fit. -/
theorem bindAddress_eq (addr : SockaddrUn) (sock : Bytes) :
    bindAddress addr sock = (constData sock).take (sizeofSunPath - 1) :=
  constData_strncpy (nul_not_mem_constData sock) addr.size

/-- `Client::connect` takes a path that fits whole, and overruns `sun_path` with any other. -/
theorem connectAddress_eq (addr : SockaddrUn) (sock : Bytes) :
    connectAddress addr sock =
      if (constData sock).length < sizeofSunPath then some (constData sock) else none := by
  have free := nul_not_mem_constData sock
  rw [connectAddress, ← addr.size]
  split_ifs with room
  · rw [strcpy_append free [] room, Option.map_some, constData_append_nul free]
  · rw [strcpy_short free [] (Nat.le_of_not_lt room), Option.map_none]

private theorem bind_not_mem_setOptions (path : Bytes) (a : Answers) (options : List SocketOption)
    (fd : Int) (address : Bytes) : .bind fd address ∉ (setOptions path a options).calls := by
  induction options with
  | nil => simp [setOptions]
  | cons option rest ih =>
    simp only [setOptions]
    split_ifs
    · simp
    · simpa [Run.after] using ih

private theorem bind_mem_openSocket {sock : Bytes} {addr : SockaddrUn} {a : Answers} {fd : Int}
    {address : Bytes} : .bind fd address ∈ (openSocket sock addr a).calls ↔
      0 ≤ a.socket ∧ fd = a.socket ∧ address = bindAddress addr sock := by
  have options := bind_not_mem_setOptions (constData sock) a
    [.SO_LINGER, .SO_REUSEADDR, .SO_KEEPALIVE] fd address
  simp only [openSocket]
  split_ifs with failed
  · simp [Int.not_le.mpr failed]
  · simp [Int.not_lt.mp failed]
  · simp [Run.after, options, Int.not_lt.mp failed]

/-- Nothing keeps `create_socket` from its socket: a symbolic link and a stale socket are removed,
and no daemon is running. -/
structure Answers.Free (a : Answers) : Prop where
  link : a.symlink = true → a.unlinkLinkFails = false
  stale : a.accessible = true → a.ping = -1 ∧ a.unlinkStaleFails = false
  socket : 0 ≤ a.socket

private theorem bind_mem_removeStale {sock : Bytes} {addr : SockaddrUn} {a : Answers} {fd : Int}
    {address : Bytes} : .bind fd address ∈ (removeStale sock addr a).calls ↔
      (a.accessible = true → a.ping = -1 ∧ a.unlinkStaleFails = false) ∧
        .bind fd address ∈ (openSocket sock addr a).calls := by
  simp only [removeStale]
  split_ifs with accessible stale stays
  · simp [accessible, stale, stays]
  · simp [accessible, stale, stays, Run.after]
  · simp [accessible, stale]
  · simp [accessible, Run.after]

theorem bind_mem_createSocket {l : Locale} {env : Environment} (given : l.decode env.DISPLAY ≠ [])
    {addr : SockaddrUn} {a : Answers} {fd : Int} {address : Bytes} :
    .bind fd address ∈ (createSocket l env addr a).calls ↔
      a.Free ∧ fd = a.socket ∧ address = bindAddress addr (l.encodeName (env.RuntimeLocation ++
        QStringLiteral "/kdesud_" ++ stripScreen (l.decode env.DISPLAY))) := by
  have free : a.Free ↔ (a.symlink = true → a.unlinkLinkFails = false) ∧
      (a.accessible = true → a.ping = -1 ∧ a.unlinkStaleFails = false) ∧ 0 ≤ a.socket :=
    ⟨fun ⟨link, stale, socket⟩ => ⟨link, stale, socket⟩,
      fun ⟨link, stale, socket⟩ => ⟨link, stale, socket⟩⟩
  simp only [createSocket, if_neg given, arg_kdesud, ← List.append_assoc]
  split_ifs with symlink stays
  · simp [free, symlink, stays]
  · simp [free, symlink, stays, Run.after, bind_mem_removeStale, bind_mem_openSocket, and_assoc]
  · simp [free, symlink, Run.after, bind_mem_removeStale, bind_mem_openSocket, and_assoc]

/-- Whatever the calls answer, `create_socket` gets past its check of the display, binds a socket
at a path if nothing keeps it from it, and binds none anywhere else. -/
structure MeetsAt (l : Locale) (env : Environment) (path : Bytes) : Prop where
  past : ∀ addr a, (createSocket l env addr a).calls ≠ []
  binds : ∀ addr a, a.Free → .bind a.socket path ∈ (createSocket l env addr a).calls
  only : ∀ addr a fd address,
    .bind fd address ∈ (createSocket l env addr a).calls → address = path

def unhindered : Answers := ⟨false, false, false, -1, false, 3, false, fun _ => false⟩

private theorem unhindered_free : unhindered.Free :=
  ⟨fun symlink => (by cases symlink), fun accessible => (by cases accessible), by decide⟩

def zeroed : SockaddrUn := ⟨List.replicate sizeofSunPath 0, List.length_replicate⟩

private theorem past_createSocket {l : Locale} {env : Environment}
    (given : l.decode env.DISPLAY ≠ []) (addr : SockaddrUn) (a : Answers) :
    (createSocket l env addr a).calls ≠ [] := by
  simp only [createSocket, if_neg given]
  split_ifs <;> simp [Run.after]

theorem meetsAt_iff {l : Locale} {env : Environment} {sock : Bytes}
    (given : l.decode env.DISPLAY ≠ []) (computed : clientSock l env = some sock) :
    MeetsAt l env (constData sock) ↔ (constData sock).length < sizeofSunPath := by
  have same : sock = l.encodeName (env.RuntimeLocation ++ QStringLiteral "/kdesud_" ++
      stripScreen (l.decode env.DISPLAY)) := by
    simp only [clientSock, if_neg given, Option.some.injEq] at computed
    exact computed.symm
  constructor
  · intro meets
    have bound := meets.binds zeroed unhindered unhindered_free
    rw [bind_mem_createSocket given, ← same, bindAddress_eq] at bound
    have short := List.length_take_le (sizeofSunPath - 1) (constData sock)
    rw [← bound.2.2] at short
    exact Nat.lt_of_le_of_lt short (by decide)
  · intro fits
    have whole : ∀ addr, bindAddress addr sock = constData sock := by
      intro addr
      rw [bindAddress_eq, List.take_of_length_le (Nat.le_sub_one_of_lt fits)]
    refine ⟨past_createSocket given, ?_, ?_⟩
    · intro addr a free
      rw [bind_mem_createSocket given, ← same, whole]
      exact ⟨free, rfl, rfl⟩
    · intro addr a fd address called
      rw [bind_mem_createSocket given, ← same, whole] at called
      exact called.2.2

private theorem not_past_createSocket {l : Locale} {env : Environment}
    (missing : l.decode env.DISPLAY = []) (path : Bytes) : ¬MeetsAt l env path := by
  intro meets
  refine meets.past zeroed unhindered ?_
  simp only [createSocket, if_pos missing]

theorem connectAddress_of_meetsAt {l : Locale} {env : Environment} {sock : Bytes}
    (computed : clientSock l env = some sock) (meets : MeetsAt l env (constData sock))
    (addr : SockaddrUn) : connectAddress addr sock = some (constData sock) := by
  by_cases missing : l.decode env.DISPLAY = []
  · exact absurd meets (not_past_createSocket missing _)
  · rw [connectAddress_eq, if_pos ((meetsAt_iff missing computed).mp meets)]

/-- The daemon is met in an environment exactly if the client has no display there, or `DISPLAY`
has one and the path of its socket fits into an address. -/
theorem meets_iff (l : Locale) (env : Environment) :
    (∀ sock, clientSock l env = some sock → MeetsAt l env (constData sock)) ↔
      l.decode env.DISPLAY = [] ∧ l.decode env.WAYLAND_DISPLAY = [] ∨
      l.decode env.DISPLAY ≠ [] ∧
        (constData (l.encodeName (env.RuntimeLocation ++ QStringLiteral "/kdesud_" ++
          stripScreen (l.decode env.DISPLAY)))).length < sizeofSunPath := by
  by_cases missing : l.decode env.DISPLAY = []
  · simp only [clientSock, missing, if_true, not_past_createSocket missing]
    by_cases wayland : l.decode env.WAYLAND_DISPLAY = []
    · simp [wayland]
    · simp [wayland]
  · have computed : clientSock l env = some (l.encodeName (env.RuntimeLocation ++
        QStringLiteral "/kdesud_" ++ stripScreen (l.decode env.DISPLAY))) := by
      simp only [clientSock, if_neg missing]
    simp only [computed, Option.some.injEq, forall_eq', meetsAt_iff missing computed, missing,
      false_and, false_or, ne_eq, not_false_eq_true, true_and]

def latin1 : Locale := ⟨List.map UInt8.toUInt16, List.map UInt16.toUInt8⟩

def onWayland : Environment :=
  ⟨none, some (ascii "wayland-0"), QStringLiteral "/run/user/1000"⟩

/-- On Wayland alone the client computes a path, and the daemon stops at its check. -/
theorem daemon_missing_on_wayland : ¬∀ l env sock, clientSock l env = some sock →
    MeetsAt l env (constData sock) := by
  intro meets
  have computed : clientSock latin1 onWayland =
      some (ascii "/run/user/1000/kdesud_wayland-0") := by
    decide +kernel
  refine (meets latin1 onWayland _ computed).past zeroed unhindered ?_
  decide +kernel

private theorem matchScreen_inner (c : UInt16) (front : QString) {digits : QString}
    (nonempty : digits ≠ []) : matchScreen (c :: (front ++ 46 :: digits)) = none := by
  obtain ⟨later, behind⟩ : ∃ later,
      (front ++ 46 :: digits).dropWhile isDigit = later ++ 46 :: digits := by
    have dot : (46 :: digits).dropWhile isDigit = 46 :: digits :=
      List.dropWhile_cons_of_neg (by decide)
    rw [List.dropWhile_append]
    split_ifs
    · exact ⟨[], dot⟩
    · exact ⟨_, rfl⟩
  have long : 2 ≤ (later ++ 46 :: digits).length := by
    rw [List.length_append, List.length_cons]
    have := List.length_pos_iff.mpr nonempty
    omega
  refine if_neg ?_
  rintro ⟨-, -, ends⟩
  rw [behind] at ends
  rcases ends with none | newline
  · rw [none] at long
    exact absurd long (by decide)
  · rw [newline] at long
    exact absurd long (by decide)

theorem stripScreen_screen (display : QString) {digits : QString} (nonempty : digits ≠ [])
    (numeric : ∀ d ∈ digits, isDigit d = true) :
    stripScreen (display ++ 46 :: digits) = display := by
  induction display with
  | nil =>
    have all : digits.takeWhile isDigit = digits := List.takeWhile_eq_self_iff.mpr numeric
    have behind : digits.dropWhile isDigit = [] := List.dropWhile_eq_nil_iff.mpr numeric
    have found : matchScreen (46 :: digits) = some [] := by
      simp [matchScreen, all, behind, nonempty]
    rw [List.nil_append, stripScreen, found]
  | cons c display ih =>
    rw [List.cons_append, stripScreen, matchScreen_inner c display nonempty]
    exact congrArg (List.cons c) ih

example : stripScreen (QStringLiteral ":0.1") = QStringLiteral ":0" := by decide +kernel

theorem screens_share_socket {l : Locale} {env env' : Environment} {digits : QString}
    (nonempty : digits ≠ []) (numeric : ∀ d ∈ digits, isDigit d = true)
    (place : env'.RuntimeLocation = env.RuntimeLocation) (given : l.decode env.DISPLAY ≠ [])
    (plain : stripScreen (l.decode env.DISPLAY) = l.decode env.DISPLAY)
    (screen : l.decode env'.DISPLAY = l.decode env.DISPLAY ++ 46 :: digits) :
    clientSock l env' = clientSock l env ∧
      ∀ addr a, createSocket l env' addr a = createSocket l env addr a := by
  have given' : l.decode env'.DISPLAY ≠ [] := by
    rw [screen]
    exact List.append_ne_nil_of_left_ne_nil given _
  have same : stripScreen (l.decode env'.DISPLAY) = stripScreen (l.decode env.DISPLAY) := by
    rw [screen, stripScreen_screen _ nonempty numeric, plain]
  constructor
  · simp only [clientSock, if_neg given, if_neg given', place, same]
  · intro addr a
    simp only [createSocket, if_neg given, if_neg given', place, same]

end KDESu.Client.Meeting
