/- KDESu/Daemon/Starting
   source: src/kdesud/kdesud.cpp
   digest: How kdesud comes up and goes, and what its sockets are in the file system meanwhile. -/

import KDESu.Client.Meeting
import KDESu.Stub.Running
import Mathlib.Logic.Function.Basic

set_option autoImplicit false
set_option relaxedAutoImplicit false

namespace KDESu.Daemon.Starting

open KDESu.ByteArrays
open KDESu.Client.Meeting hiding Locale
open KDESu.Process.Launching (constData)
open KDESu.Stub.Running (atoi)

/-- What is at a path; sockets are numbered in the order in which they were bound. -/
inductive Node
  | absent | symlink | other
  | socket (id : Nat)
  deriving DecidableEq, Repr

/-- A daemon in its main loop: its socket, where it bound it, and the path it will remove. -/
structure Running where
  id : Nat
  address : Bytes
  sock : Bytes
  deriving DecidableEq, Repr

structure World where
  nodes : Bytes → Node
  daemons : List Running
  bound : Nat

namespace World

def remove (w : World) (path : Bytes) : World :=
  { w with nodes := Function.update w.nodes path .absent }

def bind (w : World) (address : Bytes) : World :=
  { w with nodes := Function.update w.nodes address (.socket w.bound), bound := w.bound + 1 }

@[simp] theorem nodes_remove_self (w : World) (path : Bytes) :
    (w.remove path).nodes path = .absent := Function.update_self _ _ _

@[simp] theorem nodes_remove_of_ne {w : World} {path other : Bytes} (apart : other ≠ path) :
    (w.remove path).nodes other = w.nodes other := Function.update_of_ne apart _ _

@[simp] theorem nodes_bind_self (w : World) (address : Bytes) :
    (w.bind address).nodes address = .socket w.bound := Function.update_self _ _ _

@[simp] theorem nodes_bind_of_ne {w : World} {address other : Bytes} (apart : other ≠ address) :
    (w.bind address).nodes other = w.nodes other := Function.update_of_ne apart _ _

/-- A daemon answers at a path. -/
def Listens (w : World) (path : Bytes) : Prop := ∃ d ∈ w.daemons, w.nodes path = .socket d.id

end World

instance (w : World) (path : Bytes) : Decidable (w.Listens path) :=
  inferInstanceAs (Decidable (∃ d ∈ w.daemons, w.nodes path = .socket d.id))

def effect (a : Answers) (w : World) : SysCall → World
  | .unlink path =>
      match w.nodes path with
      | .absent => w
      | .symlink => if a.unlinkLinkFails then w else w.remove path
      | _ => if a.unlinkStaleFails then w else w.remove path
  | .bind _ address => if a.bindFails then w else w.bind address
  | _ => w

def effects (a : Answers) (w : World) (calls : List SysCall) : World := calls.foldl (effect a) w

/-- The answer to a call is right about the file system, and a daemon that listens at the path
answers a ping. A ping has an answer also where an accessible path does not fit: what the client's
copy into `sun_path` overwrites there is left out. -/
def Right (path : Bytes) (a : Answers) (w : World) : SysCall → Prop
  | .lstat path => a.symlink = true ↔ w.nodes path = .symlink
  | .access path => a.accessible = true → w.nodes path ≠ .absent
  | .ping => w.Listens path → a.ping ≠ -1
  | .bind _ address => w.nodes address ≠ .absent → a.bindFails = true
  | _ => True

instance (path : Bytes) (a : Answers) (w : World) : (call : SysCall) →
    Decidable (Right path a w call)
  | .lstat other => inferInstanceAs (Decidable (_ ↔ w.nodes other = .symlink))
  | .access other => inferInstanceAs (Decidable (_ → w.nodes other ≠ .absent))
  | .ping => inferInstanceAs (Decidable (w.Listens path → _))
  | .bind _ address => inferInstanceAs (Decidable (w.nodes address ≠ .absent → _))
  | .unlink _ | .socket | .setsockopt _ _ | .chmod _ _ | .close _ => isTrue trivial

def Truthful (path : Bytes) (a : Answers) (w : World) : List SysCall → Prop
  | [] => True
  | call :: calls => Right path a w call ∧ Truthful path a (effect a w call) calls

instance truthfulDecidable (path : Bytes) (a : Answers) : (w : World) → (calls : List SysCall) →
    Decidable (Truthful path a w calls)
  | _, [] => isTrue trivial
  | w, call :: calls =>
      @instDecidableAnd _ _ inferInstance (truthfulDecidable path a (effect a w call) calls)

def sockOf (l : Client.Meeting.Locale) (env : Environment) : Bytes :=
  l.encodeName (env.RuntimeLocation ++
    arg (stripScreen (l.decode env.DISPLAY)) (QStringLiteral "/kdesud_%1"))

inductive CloseRange
  | done | missing | failed
  deriving DecidableEq, Repr

/-- What the calls of `closeExtraFds` answer: `close_range`, if it was built in, and the directory
`/dev/fd`, if it can be opened: its descriptor and the names in it. -/
structure Closing where
  close_range : Option CloseRange
  opendir : Option (Int × List Bytes)
  closeFails : Int → Bool

/-- The loop over the names, with the descriptors that are open. -/
def closeListed (c : Closing) (dirFd : Int) : List Bytes → List Int → Int × List Int
  | [], fds => (0, fds)
  | name :: names, fds =>
      let currFd := atoi name
      if 3 < currFd ∧ currFd ≠ dirFd then
        if c.closeFails currFd then (-1, fds)
        else closeListed c dirFd names (fds.filter (· ≠ currFd))
      else closeListed c dirFd names fds

def closeExtraFds (c : Closing) (fds : List Int) : Int × List Int :=
  match c.close_range with
  | some .done => (0, fds.filter (· < 4))
  | some .failed => (-1, fds)
  | some .missing | none =>
      match c.opendir with
      | none => (-1, fds)
      | some (dirFd, names) => closeListed c dirFd names fds

structure StartAnswers where
  setrlimitFails : Bool
  create : Answers
  listenFails : Bool
  dup3Fails : Bool
  closing : Closing
  forkFails : Bool
  unlinkFails : Bool

structure Started where
  world : World
  code : Int
  fds : Option (List Int)

def kdesud_cleanup (unlinkFails : Bool) (sock : Bytes) (w : World) : World :=
  if unlinkFails then w else w.remove (constData sock)

def moveSocket (dup3Fails : Bool) (sockfd : Int) (fds : List Int) : Int × List Int :=
  if sockfd ≠ 3 then
    if dup3Fails then (-1, fds) else (3, 3 :: fds.filter (· ≠ 3))
  else (sockfd, fds)

/-- `main` from `listen` to `fork`: what is open then, or nothing where a call fails. -/
def detach (a : StartAnswers) (sockfd : Int) (fds : List Int) : Option (List Int) :=
  if a.listenFails then none
  else
    let (sockfd, fds) := moveSocket a.dup3Fails sockfd fds
    if sockfd < 0 then none
    else
      let (closed, fds) := closeExtraFds a.closing fds
      if closed < 0 then none
      else if a.forkFails then none
      else some fds

/-- `main` up to its loop. Open are the descriptors that it was started with and those that its
libraries have opened before `create_socket`. -/
def main (l : Client.Meeting.Locale) (env : Environment) (addr : SockaddrUn) (a : StartAnswers)
    (inherited : List Int) (w : World) : Started :=
  if a.setrlimitFails then ⟨w, 1, none⟩
  else
    let run := createSocket l env addr a.create
    let created := effects a.create w run.calls
    let sock := sockOf l env
    if run.ret < 0 then ⟨created, 1, none⟩
    else
      match detach a run.ret (run.ret :: inherited) with
      | none => ⟨kdesud_cleanup a.unlinkFails sock created, 1, none⟩
      | some fds =>
          -- the parent exits, and its child goes on to the loop
          ⟨{ created with daemons := ⟨w.bound, bindAddress addr sock, sock⟩ :: created.daemons },
            0, some fds⟩

/-- What happens in a session: a start; the end of a daemon that cleans up, at a STOP, a signal or
the loss of the display; and one that does not, at a failure of `select` or a kill. A signal that
hits a child of a daemon is no event here; `childSignalled` says what it does. -/
inductive Event
  | start (l : Client.Meeting.Locale) (env : Environment) (addr : SockaddrUn) (a : StartAnswers)
      (inherited : List Int)
  | clean (id : Nat) (unlinkFails : Bool)
  | die (id : Nat)

def World.step (w : World) : Event → World
  | .start l env addr a inherited => (main l env addr a inherited w).world
  | .clean id unlinkFails =>
      match w.daemons.find? (·.id = id) with
      | none => w
      | some d =>
          let w := kdesud_cleanup unlinkFails d.sock w
          { w with daemons := w.daemons.filter (·.id ≠ id) }
  | .die id => { w with daemons := w.daemons.filter (·.id ≠ id) }

/-- The answers that `create_socket` gets in a start are right. -/
def Possible (w : World) : Event → Prop
  | .start l env addr a _ => a.setrlimitFails = false →
      Truthful (constData (sockOf l env)) a.create w (createSocket l env addr a.create).calls
  | _ => True

/-- The worlds behind starts and ends in any order, of daemons for any displays. -/
inductive Reached : World → Prop
  | initial {nodes : Bytes → Node} {bound : Nat}
      (older : ∀ path id, nodes path = .socket id → id < bound) : Reached ⟨nodes, [], bound⟩
  | next {w : World} {e : Event} (reached : Reached w) (possible : Possible w e) :
      Reached (w.step e)

/-- The path is cleared, if it is, of what no daemon answers at. -/
def Cleared (path : Bytes) (w w' : World) : Prop :=
  w' = w ∨ w' = w.remove path ∧ ¬w.Listens path

/-- `create_socket` gives up, or it binds its socket where nothing is, and has it or closes it
again. -/
inductive Created (path address : Bytes) (w : World) : World → Int → Prop
  | refused {w' : World} (cleared : Cleared path w w') : Created path address w w' (-1)
  | closed {w' : World} (cleared : Cleared path w w') (free : w'.nodes address = .absent) :
      Created path address w (w'.bind address) (-1)
  | opened {w' : World} {fd : Int} (cleared : Cleared path w w')
      (free : w'.nodes address = .absent) (valid : 0 ≤ fd) :
      Created path address w (w'.bind address) fd

theorem Cleared.refl (path : Bytes) (w : World) : Cleared path w w := Or.inl rfl

theorem remove_remove (w : World) (path : Bytes) :
    (w.remove path).remove path = w.remove path := by
  simp [World.remove]

theorem Created.of_cleared {path address : Bytes} {w v w' : World} {ret : Int}
    (first : Cleared path w v) (created : Created path address v w' ret) :
    Created path address w w' ret := by
  have both {u : World} (later : Cleared path v u) : Cleared path w u := by
    rcases first with rfl | ⟨rfl, unheard⟩
    · exact later
    · rcases later with rfl | ⟨rfl, -⟩
      · exact Or.inr ⟨rfl, unheard⟩
      · exact Or.inr ⟨remove_remove w path, unheard⟩
  cases created with
  | refused later => exact .refused (both later)
  | closed later free => exact .closed (both later) free
  | opened later free valid => exact .opened (both later) free valid

section

variable {path address : Bytes} {sock : Bytes} {addr : SockaddrUn} {a : Answers} {w : World}

@[simp] theorem effects_nil : effects a w [] = w := rfl

@[simp] theorem effects_cons (call : SysCall) (calls : List SysCall) :
    effects a w (call :: calls) = effects a (effect a w call) calls := rfl

theorem setOptions_effects (path : Bytes) (a : Answers) (w : World) (options : List SocketOption) :
    effects a w (setOptions path a options).calls = w := by
  induction options with
  | nil => rfl
  | cons option rest ih =>
    simp only [setOptions]
    split_ifs
    · rfl
    · exact ih

theorem setOptions_ret (path : Bytes) (a : Answers) (options : List SocketOption) :
    (setOptions path a options).ret = -1 ∨ (setOptions path a options).ret = a.socket := by
  induction options with
  | nil => exact Or.inr rfl
  | cons option rest ih =>
    simp only [setOptions]
    split_ifs
    · exact Or.inl rfl
    · exact ih

theorem openSocket_created
    (truthful : Truthful path a w (openSocket sock addr a).calls) :
    Created path (bindAddress addr sock) w (effects a w (openSocket sock addr a).calls)
      (openSocket sock addr a).ret := by
  have options := setOptions_effects (constData sock) a (w.bind (bindAddress addr sock))
    [.SO_LINGER, .SO_REUSEADDR, .SO_KEEPALIVE]
  rw [openSocket] at truthful ⊢
  by_cases unopened : a.socket < 0
  · rw [if_pos unopened]
    exact .refused (Cleared.refl path w)
  · rw [if_neg unopened] at truthful ⊢
    simp only at truthful ⊢
    by_cases bindFails : a.bindFails = true
    · rw [if_pos bindFails]
      simp only [List.cons_append, List.nil_append, effects_cons, effects_nil, effect, bindFails,
        if_true]
      exact .refused (Cleared.refl path w)
    · rw [if_neg bindFails] at truthful ⊢
      have free : w.nodes (bindAddress addr sock) = .absent := by
        by_contra taken
        exact bindFails (truthful.2.1 taken)
      simp only [Run.after, List.cons_append, List.nil_append, effects_cons, effect,
        if_neg bindFails, options]
      rcases setOptions_ret (constData sock) a [.SO_LINGER, .SO_REUSEADDR, .SO_KEEPALIVE] with
        failed | done
      · rw [failed]
        exact .closed (Cleared.refl path w) free
      · rw [done]
        exact .opened (Cleared.refl path w) free (Int.not_lt.mp unopened)

theorem effect_unlink (unheard : ¬w.Listens path) :
    Cleared path w (effect a w (.unlink path)) := by
  have removed {fails : Bool} : Cleared path w (if fails then w else w.remove path) := by
    split_ifs
    · exact Cleared.refl path w
    · exact Or.inr ⟨rfl, unheard⟩
  simp only [effect]
  split
  · exact Cleared.refl path w
  · exact removed
  · exact removed

theorem removeStale_created
    (truthful : Truthful (constData sock) a w (removeStale sock addr a).calls) :
    Created (constData sock) (bindAddress addr sock) w
      (effects a w (removeStale sock addr a).calls) (removeStale sock addr a).ret := by
  rw [removeStale] at truthful ⊢
  by_cases accessible : a.accessible = true
  · rw [if_pos accessible] at truthful ⊢
    by_cases stale : a.ping = -1
    · rw [if_pos stale] at truthful ⊢
      have unheard : ¬w.Listens (constData sock) := by
        split_ifs at truthful
        · exact fun listens => truthful.2.1 listens stale
        · exact fun listens => truthful.2.1 listens stale
      have cleared : Cleared _ w (effect a w (.unlink (constData sock))) := effect_unlink unheard
      by_cases stays : a.unlinkStaleFails = true
      · rw [if_pos stays]
        exact .refused cleared
      · rw [if_neg stays] at truthful ⊢
        exact (openSocket_created truthful.2.2.2).of_cleared cleared
    · rw [if_neg stale]
      exact .refused (Cleared.refl _ w)
  · rw [if_neg accessible] at truthful ⊢
    exact openSocket_created truthful.2

theorem createSocket_eq (l : Client.Meeting.Locale) (env : Environment) (addr : SockaddrUn)
    (a : Answers) : createSocket l env addr a =
      if l.decode env.DISPLAY = [] then ⟨[], -1⟩
      else
        let path := constData (sockOf l env)
        if a.symlink then
          if a.unlinkLinkFails then ⟨[.lstat path, .unlink path], -1⟩
          else (removeStale (sockOf l env) addr a).after [.lstat path, .unlink path]
        else (removeStale (sockOf l env) addr a).after [.lstat path] := rfl

theorem createSocket_created {l : Client.Meeting.Locale} {env : Environment}
    (truthful : Truthful (constData (sockOf l env)) a w (createSocket l env addr a).calls) :
    Created (constData (sockOf l env)) (bindAddress addr (sockOf l env)) w
      (effects a w (createSocket l env addr a).calls) (createSocket l env addr a).ret := by
  rw [createSocket_eq] at truthful ⊢
  by_cases missing : l.decode env.DISPLAY = []
  · rw [if_pos missing]
    exact .refused (Cleared.refl _ w)
  · rw [if_neg missing] at truthful ⊢
    by_cases symlink : a.symlink = true
    · rw [if_pos symlink] at truthful ⊢
      have unheard : ¬w.Listens (constData (sockOf l env)) := by
        have linked : w.nodes (constData (sockOf l env)) = .symlink := by
          split_ifs at truthful
          · exact truthful.1.mp symlink
          · exact truthful.1.mp symlink
        rintro ⟨d, -, socket⟩
        rw [linked] at socket
        cases socket
      have cleared : Cleared _ w (effect a w (.unlink (constData (sockOf l env)))) :=
        effect_unlink unheard
      by_cases stays : a.unlinkLinkFails = true
      · rw [if_pos stays]
        exact .refused cleared
      · rw [if_neg stays] at truthful ⊢
        exact (removeStale_created truthful.2.2).of_cleared cleared
    · rw [if_neg symlink] at truthful ⊢
      exact removeStale_created truthful.2

end

def daemonOf (l : Client.Meeting.Locale) (env : Environment) (addr : SockaddrUn) (id : Nat) :
    Running :=
  ⟨id, bindAddress addr (sockOf l env), sockOf l env⟩

/-- A start fails before it has a socket, it fails with one, which it may remove, or it leaves a
daemon that listens. -/
inductive Came (l : Client.Meeting.Locale) (env : Environment) (addr : SockaddrUn) (w : World) :
    Started → Prop
  | refused {w' : World} (cleared : Cleared (constData (sockOf l env)) w w') :
      Came l env addr w ⟨w', 1, none⟩
  | left {w' : World} (cleared : Cleared (constData (sockOf l env)) w w')
      (free : w'.nodes (bindAddress addr (sockOf l env)) = .absent) :
      Came l env addr w ⟨w'.bind (bindAddress addr (sockOf l env)), 1, none⟩
  | removed {w' : World} (cleared : Cleared (constData (sockOf l env)) w w')
      (free : w'.nodes (bindAddress addr (sockOf l env)) = .absent) :
      Came l env addr w
        ⟨(w'.bind (bindAddress addr (sockOf l env))).remove (constData (sockOf l env)), 1, none⟩
  | up {w' : World} (cleared : Cleared (constData (sockOf l env)) w w')
      (free : w'.nodes (bindAddress addr (sockOf l env)) = .absent) (fds : List Int) :
      Came l env addr w
        ⟨{ w'.bind (bindAddress addr (sockOf l env)) with
            daemons := daemonOf l env addr w.bound :: w'.daemons }, 0, some fds⟩

theorem main_came {l : Client.Meeting.Locale} {env : Environment} {addr : SockaddrUn}
    {a : StartAnswers} {inherited : List Int} {w : World}
    (possible : Possible w (.start l env addr a inherited)) :
    Came l env addr w (main l env addr a inherited w) := by
  rw [main]
  by_cases unlimited : a.setrlimitFails = true
  · rw [if_pos unlimited]
    exact .refused (Cleared.refl _ w)
  · rw [if_neg unlimited]
    have created := createSocket_created (possible (Bool.eq_false_iff.mpr unlimited))
    simp only
    generalize effects a.create w (createSocket l env addr a.create).calls = w',
      (createSocket l env addr a.create).ret = ret at created ⊢
    cases created with
    | refused cleared => exact .refused cleared
    | closed cleared free => exact .left cleared free
    | opened cleared free valid =>
      rw [if_neg (Int.not_lt.mpr valid)]
      cases detach a ret (ret :: inherited) with
      | none =>
        simp only [kdesud_cleanup]
        split_ifs
        · exact .left cleared free
        · exact .removed cleared free
      | some fds => exact .up cleared free fds

/-- Every daemon is behind the socket at its address, and is not confused with another. -/
structure Sound (w : World) : Prop where
  owned : ∀ d ∈ w.daemons, w.nodes d.address = .socket d.id
  only : ∀ d ∈ w.daemons, ∀ path, w.nodes path = .socket d.id → path = d.address
  older : ∀ path id, w.nodes path = .socket id → id < w.bound
  cut : ∀ d ∈ w.daemons, d.address = (constData d.sock).take (sizeofSunPath - 1)
  nodup : (w.daemons.map (·.id)).Nodup

def Idle (w : World) (address : Bytes) : Prop := ∀ d ∈ w.daemons, d.address ≠ address

section

variable {w w' : World} {path address : Bytes}

theorem Sound.idle_of_unheard (sound : Sound w) (unheard : ¬w.Listens path) : Idle w path := by
  rintro d member rfl
  exact unheard ⟨d, member, sound.owned d member⟩

theorem Sound.idle_of_absent (sound : Sound w) (free : w.nodes address = .absent) :
    Idle w address := by
  rintro d member rfl
  rw [sound.owned d member] at free
  cases free

theorem Sound.earlier (sound : Sound w) {d : Running} (member : d ∈ w.daemons) :
    d.id < w.bound :=
  sound.older _ _ (sound.owned d member)

theorem socket_of_remove {other : Bytes} {id : Nat}
    (socket : (w.remove path).nodes other = .socket id) : w.nodes other = .socket id := by
  by_cases same : other = path
  · rw [same, World.nodes_remove_self] at socket
    cases socket
  · rw [World.nodes_remove_of_ne same] at socket
    exact socket

theorem socket_of_bind {other : Bytes} {id : Nat}
    (socket : (w.bind address).nodes other = .socket id) :
    other = address ∧ id = w.bound ∨ w.nodes other = .socket id := by
  by_cases same : other = address
  · rw [same, World.nodes_bind_self] at socket
    injection socket with ids
    exact Or.inl ⟨same, ids.symm⟩
  · rw [World.nodes_bind_of_ne same] at socket
    exact Or.inr socket

theorem Sound.remove (sound : Sound w) (idle : Idle w path) : Sound (w.remove path) where
  owned d member := by
    rw [World.nodes_remove_of_ne (idle d member)]
    exact sound.owned d member
  only d member other socket := sound.only d member other (socket_of_remove socket)
  older other id socket := sound.older other id (socket_of_remove socket)
  cut := sound.cut
  nodup := sound.nodup

theorem Sound.cleared (sound : Sound w) (cleared : Cleared path w w') : Sound w' := by
  rcases cleared with rfl | ⟨rfl, unheard⟩
  · exact sound
  · exact sound.remove (sound.idle_of_unheard unheard)

theorem Sound.bind (sound : Sound w) (idle : Idle w address) : Sound (w.bind address) where
  owned d member := by
    rw [World.nodes_bind_of_ne (idle d member)]
    exact sound.owned d member
  only d member other socket := by
    rcases socket_of_bind socket with ⟨-, ids⟩ | old
    · exact absurd (sound.earlier member) (Nat.not_lt.mpr (Nat.le_of_eq ids.symm))
    · exact sound.only d member other old
  older other id socket := by
    rcases socket_of_bind socket with ⟨-, ids⟩ | old
    · exact Nat.lt_succ_of_le (Nat.le_of_eq ids)
    · exact Nat.lt_succ_of_lt (sound.older other id old)
  cut := sound.cut
  nodup := sound.nodup

theorem Sound.idle_of_cut (sound : Sound w)
    (idle : Idle w (path.take (sizeofSunPath - 1))) : Idle w path := by
  intro d member same
  have short : path.length ≤ sizeofSunPath - 1 := by
    rw [← same, sound.cut d member]
    exact List.length_take_le _ _
  exact idle d member (by rw [List.take_of_length_le short, same])

theorem Sound.unique (sound : Sound w) {d d' : Running} (member : d ∈ w.daemons)
    (member' : d' ∈ w.daemons) (same : d.address = d'.address) : d = d' := by
  have ids : d.id = d'.id := by
    have owned := sound.owned d member
    rw [same, sound.owned d' member'] at owned
    injection owned with ids
    exact ids.symm
  exact List.inj_on_of_nodup_map sound.nodup member member' ids

theorem Sound.leave (sound : Sound w) (id : Nat) :
    Sound { w with daemons := w.daemons.filter (·.id ≠ id) } where
  owned d member := sound.owned d (List.mem_of_mem_filter member)
  only d member := sound.only d (List.mem_of_mem_filter member)
  older := sound.older
  cut d member := sound.cut d (List.mem_of_mem_filter member)
  nodup := sound.nodup.sublist (List.filter_sublist.map _)

end

theorem bound_of_cleared {w w' : World} {path : Bytes} (cleared : Cleared path w w') :
    w'.bound = w.bound ∧ w'.daemons = w.daemons := by
  rcases cleared with rfl | ⟨rfl, -⟩ <;> exact ⟨rfl, rfl⟩

theorem Sound.main {w : World} (sound : Sound w) {l : Client.Meeting.Locale} {env : Environment}
    {addr : SockaddrUn} {r : Started} (came : Came l env addr w r) : Sound r.world := by
  cases came with
  | refused cleared => exact sound.cleared cleared
  | left cleared free =>
    have between := sound.cleared cleared
    exact between.bind (between.idle_of_absent free)
  | removed cleared free =>
    have between := sound.cleared cleared
    have idle := between.idle_of_absent free
    refine (between.bind idle).remove ((between.bind idle).idle_of_cut ?_)
    rw [← bindAddress_eq addr]
    exact idle
  | @up w' cleared free fds =>
    have between := sound.cleared cleared
    have later := between.bind (between.idle_of_absent free)
    obtain ⟨same, -⟩ := bound_of_cleared cleared
    refine ⟨?_, ?_, later.older, ?_, ?_⟩
    · intro d member
      rcases List.mem_cons.mp member with rfl | old
      · exact (World.nodes_bind_self w' _).trans (congrArg Node.socket same)
      · exact later.owned d old
    · intro d member path socket
      rcases List.mem_cons.mp member with rfl | old
      · rcases socket_of_bind socket with ⟨here, -⟩ | elsewhere
        · exact here
        · exact absurd (between.older _ _ elsewhere) (same ▸ Nat.lt_irrefl _)
      · exact later.only d old path socket
    · intro d member
      rcases List.mem_cons.mp member with rfl | old
      · exact bindAddress_eq addr _
      · exact later.cut d old
    · refine List.nodup_cons.mpr ⟨fun member => ?_, later.nodup⟩
      obtain ⟨d, old, ids⟩ := List.mem_map.mp member
      have before := between.earlier old
      rw [ids, same] at before
      exact Nat.lt_irrefl _ before

theorem Sound.step {w : World} (sound : Sound w) {e : Event} (possible : Possible w e) :
    Sound (w.step e) := by
  cases e with
  | start l env addr a inherited => exact sound.main (main_came possible)
  | clean id unlinkFails =>
    simp only [World.step]
    cases found : w.daemons.find? (·.id = id) with
    | none => exact sound
    | some d =>
      have member : d ∈ w.daemons := List.mem_of_find?_eq_some found
      have named : d.id = id := by simpa using List.find?_some found
      simp only [kdesud_cleanup]
      split_ifs
      · exact sound.leave id
      · have apart := sound.leave id
        have idle : Idle { w with daemons := w.daemons.filter (·.id ≠ id) }
            ((constData d.sock).take (sizeofSunPath - 1)) := fun other old same => by
          rw [← sound.cut d member] at same
          obtain ⟨old, others⟩ := List.mem_filter.mp old
          rw [sound.unique old member same] at others
          simp [named] at others
        exact apart.remove (apart.idle_of_cut idle)
  | die id => exact sound.leave id

theorem sound_of_reached {w : World} (reached : Reached w) : Sound w := by
  induction reached with
  | initial older =>
    exact ⟨fun _ none => absurd none List.not_mem_nil, fun _ none => absurd none List.not_mem_nil,
      older, fun _ none => absurd none List.not_mem_nil, List.nodup_nil⟩
  | next reached possible sound => exact sound.step possible

/-- A start next to a daemon at its address fails, and where the path is not cut, it changes
nothing. -/
theorem Came.next_to {w : World} (sound : Sound w) {l : Client.Meeting.Locale} {env : Environment}
    {addr : SockaddrUn} {r : Started} (came : Came l env addr w r)
    (busy : ¬Idle w (bindAddress addr (sockOf l env))) :
    r.code = 1 ∧ r.world.daemons = w.daemons ∧
      ((constData (sockOf l env)).length < sizeofSunPath → r.world = w) := by
  have taken {v : World} (cleared : Cleared (constData (sockOf l env)) w v)
      (free : v.nodes (bindAddress addr (sockOf l env)) = .absent) : False := by
    refine busy fun d member => (sound.cleared cleared).idle_of_absent free d ?_
    rw [(bound_of_cleared cleared).2]
    exact member
  cases came with
  | refused cleared =>
    refine ⟨rfl, (bound_of_cleared cleared).2, fun short => ?_⟩
    rcases cleared with same | ⟨-, unheard⟩
    · exact same
    · refine absurd (sound.idle_of_unheard unheard) fun idle => busy ?_
      rw [bindAddress_eq, List.take_of_length_le (Nat.le_sub_one_of_lt short)]
      exact idle
  | left cleared free => exact (taken cleared free).elim
  | removed cleared free => exact (taken cleared free).elim
  | up cleared free => exact (taken cleared free).elim

theorem Came.adds {w : World} (sound : Sound w) {l : Client.Meeting.Locale} {env : Environment}
    {addr : SockaddrUn} {r : Started} (came : Came l env addr w r) :
    r.code = 0 ∧ Idle w (bindAddress addr (sockOf l env)) ∧
        r.world.nodes (bindAddress addr (sockOf l env)) = .socket w.bound ∧
        r.world.daemons = daemonOf l env addr w.bound :: w.daemons ∨
      r.code = 1 ∧ r.world.daemons = w.daemons := by
  by_cases idle : Idle w (bindAddress addr (sockOf l env))
  · cases came with
    | refused cleared => exact Or.inr ⟨rfl, (bound_of_cleared cleared).2⟩
    | left cleared free => exact Or.inr ⟨rfl, (bound_of_cleared cleared).2⟩
    | removed cleared free => exact Or.inr ⟨rfl, (bound_of_cleared cleared).2⟩
    | @up w' cleared free fds =>
      obtain ⟨bound, daemons⟩ := bound_of_cleared cleared
      refine Or.inl ⟨rfl, idle, ?_, congrArg (List.cons _) daemons⟩
      exact (World.nodes_bind_self w' _).trans (congrArg Node.socket bound)
  · exact Or.inr ⟨(came.next_to sound idle).1, (came.next_to sound idle).2.1⟩

/-- Whatever has been started, has ended or was killed before, every daemon that runs is behind the
socket at its address, and no other daemon has this address. A start that exits with 0 adds one at
an address where there was none; one that exits with 1 adds none, and next to a daemon a start can
only do the latter. -/
theorem single_instance {w : World} (reached : Reached w) :
    (∀ d ∈ w.daemons, w.nodes d.address = .socket d.id ∧
      ∀ d' ∈ w.daemons, d'.address = d.address → d' = d) ∧
    ∀ (l : Client.Meeting.Locale) (env : Environment) (addr : SockaddrUn) (a : StartAnswers)
      (inherited : List Int), Possible w (.start l env addr a inherited) →
      let r := main l env addr a inherited w
      let address := bindAddress addr (sockOf l env)
      (r.code = 0 ∧ Idle w address ∧ r.world.nodes address = .socket w.bound ∧
          r.world.daemons = daemonOf l env addr w.bound :: w.daemons ∨
        r.code = 1 ∧ r.world.daemons = w.daemons) ∧
      (¬Idle w address → r.code = 1 ∧
        ((constData (sockOf l env)).length < sizeofSunPath → r.world = w)) := by
  have sound := sound_of_reached reached
  refine ⟨fun d member => ⟨sound.owned d member, fun d' member' same =>
    sound.unique member' member same⟩, fun l env addr a inherited possible => ?_⟩
  have came := main_came possible
  exact ⟨came.adds sound, fun busy => ⟨(came.next_to sound busy).1, (came.next_to sound busy).2.2⟩⟩

/-- The child behind a daemon's `fork` has its handlers, SIGCHLD apart: a signal that ends it first
removes the daemon's socket. -/
def childSignalled (unlinkFails : Bool) (d : Running) (w : World) : World :=
  kdesud_cleanup unlinkFails d.sock w

/-- Behind the signal of a child a daemon runs on, but it does not listen anywhere. -/
theorem deaf_of_childSignalled {w : World} (reached : Reached w) {d : Running}
    (member : d ∈ w.daemons) (fits : (constData d.sock).length < sizeofSunPath) :
    d ∈ (childSignalled false d w).daemons ∧
      ∀ path, (childSignalled false d w).nodes path ≠ .socket d.id := by
  have sound := sound_of_reached reached
  have whole : constData d.sock = d.address := by
    rw [sound.cut d member, List.take_of_length_le (Nat.le_sub_one_of_lt fits)]
  refine ⟨member, fun path socket => ?_⟩
  rw [childSignalled, kdesud_cleanup, if_neg (by decide), whole] at socket
  obtain rfl := sound.only d member path (socket_of_remove socket)
  rw [World.nodes_remove_self] at socket
  cases socket

def session : Environment := ⟨some (ascii ":0"), none, QStringLiteral "/run/user/1000"⟩

def nowhere : World := ⟨fun _ => .absent, [], 0⟩

def starting (create : Answers) : Event :=
  .start latin1 session zeroed
    ⟨false, create, false, false, ⟨some .done, none, fun _ => false⟩, false, false⟩ [0, 1, 2]

def restarted : World :=
  ((nowhere.step (starting unhindered)).step (.die 0)).step
    (starting { unhindered with accessible := true })

theorem reached_restarted : Reached restarted := by
  have first : Reached (nowhere.step (starting unhindered)) :=
    .next (.initial fun _ _ socket => nomatch socket) fun _ => by decide +kernel
  exact .next (.next first (e := .die 0) trivial) fun _ => by decide +kernel

theorem single_instance_restarted :
    restarted.daemons.length = 1 ∧
      ∀ d ∈ restarted.daemons, restarted.nodes d.address = .socket d.id :=
  ⟨by decide +kernel, fun d member => ((single_instance reached_restarted).1 d member).1⟩

def Closing.Works (c : Closing) : Prop :=
  c.close_range = some .done ∨
    c.close_range ≠ some .failed ∧ c.opendir.isSome = true ∧ ∀ fd, c.closeFails fd = false

/-- The calls of a start succeed; those of `create_socket` where no daemon answers. -/
structure Willing (path : Bytes) (w : World) (a : StartAnswers) : Prop where
  setrlimit : a.setrlimitFails = false
  free : ¬w.Listens path → a.create.Free
  bind : ¬w.Listens path → a.create.bindFails = false
  setsockopt : ∀ option, a.create.setsockoptFails option = false
  listen : a.listenFails = false
  dup3 : a.dup3Fails = false
  closing : a.closing.Works
  fork : a.forkFails = false

theorem setOptions_done {path : Bytes} {a : Answers}
    (done : ∀ option, a.setsockoptFails option = false) (options : List SocketOption) :
    (setOptions path a options).ret = a.socket := by
  induction options with
  | nil => rfl
  | cons option rest ih =>
    rw [setOptions, if_neg (by simp [done option])]
    exact ih

theorem createSocket_done {l : Client.Meeting.Locale} {env : Environment}
    (given : l.decode env.DISPLAY ≠ []) (addr : SockaddrUn) {a : Answers} (free : a.Free)
    (bind : a.bindFails = false) (done : ∀ option, a.setsockoptFails option = false) :
    (createSocket l env addr a).ret = a.socket := by
  have opened : (openSocket (sockOf l env) addr a).ret = a.socket := by
    rw [openSocket, if_neg (Int.not_lt.mpr free.socket)]
    simp only [bind, Bool.false_eq_true, if_false]
    exact setOptions_done done _
  have cleared : (removeStale (sockOf l env) addr a).ret = a.socket := by
    simp only [removeStale]
    by_cases accessible : a.accessible = true
    · obtain ⟨stale, removable⟩ := free.stale accessible
      simp only [accessible, stale, removable, Bool.false_eq_true, if_true, if_false]
      exact opened
    · rw [if_neg accessible]
      exact opened
  simp only [createSocket_eq, if_neg given]
  by_cases symlink : a.symlink = true
  · simp only [symlink, free.link symlink, Bool.false_eq_true, if_true, if_false]
    exact cleared
  · rw [if_neg symlink]
    exact cleared

theorem closeListed_works {c : Closing} (works : ∀ fd, c.closeFails fd = false) (dirFd : Int)
    (names : List Bytes) (fds : List Int) : (closeListed c dirFd names fds).1 = 0 := by
  induction names generalizing fds with
  | nil => rfl
  | cons name names ih =>
    simp only [closeListed, works, Bool.false_eq_true, if_false]
    split_ifs
    · exact ih _
    · exact ih _

theorem closeExtraFds_works {c : Closing} (works : c.Works) (fds : List Int) :
    (closeExtraFds c fds).1 = 0 := by
  rcases works with done | ⟨unfailed, opens, closes⟩
  · simp only [closeExtraFds, done]
  · obtain ⟨⟨dirFd, names⟩, opened⟩ := Option.isSome_iff_exists.mp opens
    simp only [closeExtraFds, opened]
    split
    · rfl
    · exact absurd ‹_› unfailed
    · exact closeListed_works closes dirFd names fds
    · exact closeListed_works closes dirFd names fds

theorem detach_works {path : Bytes} {w : World} {a : StartAnswers} (willing : Willing path w a)
    {sockfd : Int} (valid : 0 ≤ sockfd) (fds : List Int) : (detach a sockfd fds).isSome = true := by
  have moved : ¬(moveSocket a.dup3Fails sockfd fds).1 < 0 := by
    simp only [moveSocket, willing.dup3, Bool.false_eq_true, if_false]
    split_ifs
    · exact Int.not_lt.mpr (Int.zero_le_ofNat 3)
    · exact Int.not_lt.mpr valid
  have closed := closeExtraFds_works willing.closing (moveSocket a.dup3Fails sockfd fds).2
  simp only [detach, willing.listen, willing.fork, Bool.false_eq_true, if_false, if_neg moved,
    closed, Int.lt_irrefl, Option.isSome_some]

theorem main_works {l : Client.Meeting.Locale} {env : Environment}
    (given : l.decode env.DISPLAY ≠ []) (addr : SockaddrUn) {a : StartAnswers} {w : World}
    (willing : Willing (constData (sockOf l env)) w a)
    (unheard : ¬w.Listens (constData (sockOf l env))) (inherited : List Int) :
    (main l env addr a inherited w).code = 0 := by
  have made := createSocket_done given addr (willing.free unheard) (willing.bind unheard)
    willing.setsockopt
  have valid := (willing.free unheard).socket
  obtain ⟨fds, detached⟩ :=
    Option.isSome_iff_exists.mp (detach_works willing valid (a.create.socket :: inherited))
  simp only [main, willing.setrlimit, Bool.false_eq_true, if_false, made,
    if_neg (Int.not_lt.mpr valid), detached]

theorem clientSock_eq {l : Client.Meeting.Locale} {env : Environment}
    (given : l.decode env.DISPLAY ≠ []) : clientSock l env = some (sockOf l env) := by
  rw [clientSock, sockOf, arg_kdesud]
  simp only [if_neg given, List.append_assoc]

/-- When a program has started kdesud, whose calls did not fail, its client finds a daemon that
listens at the address it connects to: the one that was there, or the one that came up where none
was, whatever stood in its place. -/
theorem server_found {w : World} (reached : Reached w) (l : Client.Meeting.Locale)
    (env : Environment) (given : l.decode env.DISPLAY ≠ []) (addr : SockaddrUn) (a : StartAnswers)
    (inherited : List Int) (possible : Possible w (.start l env addr a inherited))
    (willing : Willing (constData (sockOf l env)) w a)
    (fits : (constData (sockOf l env)).length < sizeofSunPath) :
    ∃ sock, clientSock l env = some sock ∧ ∀ addr', ∃ path,
      connectAddress addr' sock = some path ∧
        (main l env addr a inherited w).world.Listens path := by
  have sound := sound_of_reached reached
  refine ⟨sockOf l env, clientSock_eq given, fun addr' => ⟨constData (sockOf l env), ?_, ?_⟩⟩
  · rw [connectAddress_eq, if_pos fits]
  · have whole : bindAddress addr (sockOf l env) = constData (sockOf l env) := by
      rw [bindAddress_eq, List.take_of_length_le (Nat.le_sub_one_of_lt fits)]
    have came := main_came possible
    by_cases listens : w.Listens (constData (sockOf l env))
    · obtain ⟨d, member, socket⟩ := listens
      have here := sound.only d member _ socket
      have busy : ¬Idle w (bindAddress addr (sockOf l env)) := fun idle =>
        idle d member (whole ▸ here.symm)
      rw [(came.next_to sound busy).2.2 fits]
      exact ⟨d, member, socket⟩
    · have up := main_works given addr willing listens inherited
      rcases came.adds sound with ⟨-, -, placed, added⟩ | ⟨failed, -⟩
      · rw [whole] at placed
        exact ⟨_, added ▸ List.mem_cons_self, placed⟩
      · rw [up] at failed
        cases failed

theorem server_found_killed :
    ((nowhere.step (starting unhindered)).step (.die 0)).daemons = [] ∧
      ∃ path, restarted.Listens path := by
  have first : Reached (nowhere.step (starting unhindered)) :=
    .next (.initial fun _ _ socket => nomatch socket) fun _ => by decide +kernel
  have killed : Reached ((nowhere.step (starting unhindered)).step (.die 0)) :=
    .next first (e := .die 0) trivial
  have willing : Willing (constData (sockOf latin1 session))
      ((nowhere.step (starting unhindered)).step (.die 0))
      ⟨false, { unhindered with accessible := true }, false, false,
        ⟨some .done, none, fun _ => false⟩, false, false⟩ :=
    ⟨rfl, fun _ => ⟨fun symlink => (by cases symlink), fun _ => ⟨rfl, rfl⟩, by decide⟩,
      fun _ => rfl, fun _ => rfl, rfl, rfl, Or.inl rfl, rfl⟩
  obtain ⟨sock, -, found⟩ := server_found killed latin1 session (by decide +kernel) zeroed _
    [0, 1, 2] (fun _ => by decide +kernel) willing (by decide +kernel)
  obtain ⟨path, -, listens⟩ := found zeroed
  exact ⟨by decide +kernel, path, listens⟩

/-- `/dev/fd` names every descriptor above 3, and `opendir` gets one of its own. -/
def Closing.Lists (c : Closing) (fds : List Int) : Prop :=
  ∀ dirFd names, c.opendir = some (dirFd, names) →
    ∀ fd ∈ fds, 3 < fd → fd ≠ dirFd ∧ fd ∈ names.map atoi

theorem closeListed_sub {c : Closing} {dirFd : Int} {names : List Bytes} {fds : List Int} {fd : Int}
    (left : fd ∈ (closeListed c dirFd names fds).2) : fd ∈ fds := by
  induction names generalizing fds with
  | nil => exact left
  | cons name names ih =>
    simp only [closeListed] at left
    split_ifs at left
    · exact left
    · exact List.mem_of_mem_filter (ih left)
    · exact ih left

theorem closeListed_low {c : Closing} {dirFd : Int} {names : List Bytes} {fds : List Int} {fd : Int}
    (low : fd ≤ 3) (stays : fd ∈ fds) : fd ∈ (closeListed c dirFd names fds).2 := by
  induction names generalizing fds with
  | nil => exact stays
  | cons name names ih =>
    simp only [closeListed]
    split_ifs with other
    · exact stays
    · refine ih (List.mem_filter.mpr ⟨stays, decide_eq_true fun same => ?_⟩)
      exact absurd other.1 (Int.not_lt.mpr (same ▸ low))
    · exact ih stays

theorem closeListed_closes {c : Closing} {dirFd : Int} {names : List Bytes} {fds : List Int}
    (done : ¬(closeListed c dirFd names fds).1 < 0) {fd : Int} (high : 3 < fd)
    (apart : fd ≠ dirFd) (listed : fd ∈ names.map atoi) :
    fd ∉ (closeListed c dirFd names fds).2 := by
  induction names generalizing fds with
  | nil => cases listed
  | cons name names ih =>
    simp only [closeListed] at done ⊢
    rcases List.mem_cons.mp listed with rfl | later
    · rw [if_pos ⟨high, apart⟩] at done ⊢
      split_ifs at done ⊢
      · exact absurd (Int.negSucc_lt_zero 0) done
      · intro left
        have kept := closeListed_sub left
        simp at kept
    · split_ifs at done ⊢
      · exact absurd (Int.negSucc_lt_zero 0) done
      · exact ih done later
      · exact ih done later

theorem mem_closeExtraFds {c : Closing} {fds : List Int} (lists : c.Lists fds)
    (done : ¬(closeExtraFds c fds).1 < 0) (fd : Int) :
    fd ∈ (closeExtraFds c fds).2 ↔ fd ∈ fds ∧ fd ≤ 3 := by
  have loop {dirFd : Int} {names : List Bytes} (opened : c.opendir = some (dirFd, names))
      (done : ¬(closeListed c dirFd names fds).1 < 0) :
      fd ∈ (closeListed c dirFd names fds).2 ↔ fd ∈ fds ∧ fd ≤ 3 := by
    refine ⟨fun left => ⟨closeListed_sub left, ?_⟩, fun both => closeListed_low both.2 both.1⟩
    by_contra high
    obtain ⟨apart, listed⟩ :=
      lists dirFd names opened fd (closeListed_sub left) (Int.not_le.mp high)
    exact closeListed_closes done (Int.not_le.mp high) apart listed left
  cases range : c.close_range with
  | none =>
    cases opened : c.opendir with
    | none => simp [closeExtraFds, range, opened] at done
    | some dir =>
      simp only [closeExtraFds, range, opened] at done ⊢
      exact loop opened done
  | some answer =>
    cases answer with
    | done =>
      simp only [closeExtraFds, range, List.mem_filter, decide_eq_true_eq]
      exact and_congr_right fun _ => Int.lt_add_one_iff (b := 3)
    | failed => simp [closeExtraFds, range] at done
    | missing =>
      cases opened : c.opendir with
      | none => simp [closeExtraFds, range, opened] at done
      | some dir =>
        simp only [closeExtraFds, range, opened] at done ⊢
        exact loop opened done

theorem mem_moveSocket {sockfd : Int} {fds : List Int} {dup3Fails : Bool}
    (own : sockfd ∈ fds) (done : ¬(moveSocket dup3Fails sockfd fds).1 < 0) (fd : Int) :
    fd ∈ (moveSocket dup3Fails sockfd fds).2 ↔ fd = 3 ∨ fd ∈ fds := by
  simp only [moveSocket] at done ⊢
  split_ifs at done ⊢ with moves fails
  · exact absurd (Int.negSucc_lt_zero 0) done
  · rw [List.mem_cons, List.mem_filter, decide_eq_true_eq]
    by_cases third : fd = 3 <;> simp [third]
  · have third : sockfd = 3 := not_not.mp moves
    exact ⟨Or.inr, fun either => either.elim (fun same => same ▸ third ▸ own) id⟩

theorem createSocket_ret {l : Client.Meeting.Locale} {env : Environment} {addr : SockaddrUn}
    {a : Answers} (valid : ¬(createSocket l env addr a).ret < 0) :
    (createSocket l env addr a).ret = a.socket := by
  have opened : (openSocket (sockOf l env) addr a).ret = -1 ∨
      (openSocket (sockOf l env) addr a).ret = a.socket := by
    simp only [openSocket]
    split_ifs
    · exact Or.inl rfl
    · exact Or.inl rfl
    · exact setOptions_ret _ _ _
  have cleared : (removeStale (sockOf l env) addr a).ret = -1 ∨
      (removeStale (sockOf l env) addr a).ret = a.socket := by
    simp only [removeStale]
    split_ifs
    · exact Or.inl rfl
    · exact opened
    · exact Or.inl rfl
    · exact opened
  have all : (createSocket l env addr a).ret = -1 ∨
      (createSocket l env addr a).ret = a.socket := by
    simp only [createSocket_eq]
    split_ifs
    · exact Or.inl rfl
    · exact Or.inl rfl
    · exact cleared
    · exact cleared
  rcases all with failed | done
  · exact absurd (failed ▸ Int.negSucc_lt_zero 0) valid
  · exact done

theorem mem_detach {a : StartAnswers} {sockfd : Int} {fds left : List Int} (own : sockfd ∈ fds)
    (lists : a.closing.Lists (3 :: fds)) (detached : detach a sockfd fds = some left) (fd : Int) :
    fd ∈ left ↔ fd = 3 ∨ fd < 3 ∧ fd ∈ fds := by
  simp only [detach] at detached
  split_ifs at detached with deaf unmoved unclosed unforked
  obtain rfl := Option.some.inj detached
  have moved := mem_moveSocket own unmoved
  have lists' : a.closing.Lists (moveSocket a.dup3Fails sockfd fds).2 :=
    fun dirFd names opened fd' open' high =>
      lists dirFd names opened fd' (List.mem_cons.mpr ((moved fd').mp open')) high
  rw [mem_closeExtraFds lists' unclosed, moved]
  constructor
  · rintro ⟨third | before, low⟩
    · exact Or.inl third
    · exact (Int.lt_or_eq_of_le low).symm.imp id fun below => ⟨below, before⟩
  · rintro (rfl | ⟨below, before⟩)
    · exact ⟨Or.inl rfl, Int.le_refl 3⟩
    · exact ⟨Or.inr before, Int.le_of_lt below⟩

/-- A daemon is left with its socket at 3 and with those descriptors below 3 that the program was
started with, or that its socket was given there; all others are closed before it is forked. -/
theorem daemon_descriptors (l : Client.Meeting.Locale) (env : Environment) (addr : SockaddrUn)
    (a : StartAnswers) (inherited : List Int) (w : World)
    (lists : a.closing.Lists (3 :: a.create.socket :: inherited)) {fds : List Int}
    (up : (main l env addr a inherited w).fds = some fds) (fd : Int) :
    fd ∈ fds ↔ fd = 3 ∨ fd < 3 ∧ (fd = a.create.socket ∨ fd ∈ inherited) := by
  simp only [main] at up
  split_ifs at up with unlimited failed
  rw [createSocket_ret failed] at up
  cases detached : detach a a.create.socket (a.create.socket :: inherited) with
  | none =>
    rw [detached] at up
    cases up
  | some left =>
    rw [detached] at up
    obtain rfl := Option.some.inj up
    rw [mem_detach List.mem_cons_self lists detached, List.mem_cons]

def leaking : StartAnswers where
  setrlimitFails := false
  create := { unhindered with socket := 4 }
  listenFails := false
  dup3Fails := false
  closing :=
    { close_range := some .missing
      opendir := some (6, [ascii ".", ascii "..", ascii "0", ascii "1", ascii "2", ascii "3",
        ascii "4", ascii "5", ascii "6", ascii "9"])
      closeFails := fun _ => false }
  forkFails := false
  unlinkFails := false

theorem daemon_descriptors_leaking :
    ∃ fds, (main latin1 session zeroed leaking [0, 1, 2, 5, 9] nowhere).fds = some fds ∧
      5 ∉ fds ∧ 9 ∉ fds := by
  have lists : leaking.closing.Lists [3, 4, 0, 1, 2, 5, 9] := by
    intro dirFd names opened
    obtain ⟨rfl, rfl⟩ := Prod.mk.inj (Option.some.inj opened)
    decide +kernel
  have up : (main latin1 session zeroed leaking [0, 1, 2, 5, 9] nowhere).fds =
      some [3, 0, 1, 2] := by decide +kernel
  have each := daemon_descriptors _ _ _ _ _ _ lists up
  exact ⟨_, up, fun left => absurd ((each 5).mp left) (by decide),
    fun left => absurd ((each 9).mp left) (by decide)⟩

end KDESu.Daemon.Starting
