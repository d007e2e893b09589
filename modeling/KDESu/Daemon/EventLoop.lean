/- KDESu/Daemon/EventLoop
   source: src/kdesud/kdesud.cpp, src/kdesud/handler.cpp
   digest: The daemon's main loop as a machine over events, and the action behind an event. -/

import KDESu.Daemon.Requests
import KDESu.Library.Histories
import Mathlib.Data.Finset.Insert

set_option autoImplicit false
set_option relaxedAutoImplicit false

namespace KDESu.Daemon.EventLoop

open KDESu.ByteArrays
open KDESu.Library.Histories
open KDESu.Daemon.Repositories (Repository)
open KDESu.Daemon.Handling
open KDESu.Daemon.Requests

def FD_SETSIZE : Nat := 1024

/-- A descriptor from `FD_SETSIZE` on has no bit in the set, and `FD_SET` writes beside it. -/
def FD_SET (fd : Nat) (set : Finset Nat) : Finset Nat :=
  if fd < FD_SETSIZE then insert fd set else set

theorem mem_FD_SET {fd fd' : Nat} {set : Finset Nat} :
    fd' ∈ FD_SET fd set ↔ fd' = fd ∧ fd < FD_SETSIZE ∨ fd' ∈ set := by
  rw [FD_SET]
  split_ifs with inside
  · simp [inside]
  · simp [inside]

/-- The descriptors the daemon opens for itself, each with a bit in an fd_set. -/
structure Descriptors where
  sockfd : Nat
  pipeOfDeath : Nat
  x11Fd : Option Nat
  settable : sockfd < FD_SETSIZE ∧ pipeOfDeath < FD_SETSIZE ∧ ∀ fd ∈ x11Fd, fd < FD_SETSIZE

def Descriptors.lowest : Descriptors := ⟨3, 4, none, by decide⟩

/-- The variables of `main`. Not the program's own are `running`, false after `exit(0)`, and
`children`, the pids the kernel holds for it: forked and not yet waited for. -/
structure Kdesud where
  repo : Repository
  handler : List (Option ConnectionHandler)
  active_fds : Finset Nat
  maxfd : Nat
  running : Bool
  children : List Pid

def Kdesud.new (fds : Descriptors) : Kdesud where
  repo := Repository.new
  handler := []
  active_fds :=
    let active_fds := FD_SET fds.pipeOfDeath (FD_SET fds.sockfd ∅)
    fds.x11Fd.elim active_fds fun x11Fd => FD_SET x11Fd active_fds
  maxfd := max (max fds.sockfd (fds.x11Fd.getD 0)) fds.pipeOfDeath
  running := true
  children := []

/-- What the main loop does one after the other. A wakeup of the death pipe is one `reap` for
each child that `waitpid` answers, and a readable connection one `command` for each complete
line, or a `hangup` when `handle` fails on the bytes alone. -/
inductive Event
  | expire (now : Nat)
  | reap (pid : Pid) (status : Nat)
  | accept (fd : Nat) (uid uninitialised : Int)
  | command (fd : Nat) (buf : Bytes) (sys : SysCalls)
  | hangup (fd : Nat)

def WEXITSTATUS (status : Nat) : Int := (status / 256 % 256 : Nat)

/-- What the reaping loop does to the handler it finds. -/
def reaped (h : ConnectionHandler) (status : Nat) : ConnectionHandler :=
  { h with m_exitCode := WEXITSTATUS status, m_hasExitCode := true, m_pid := 0 }

namespace Kdesud

/-- `handler[fd]`, null beyond the end of the list. -/
def handlerAt (d : Kdesud) (fd : Nat) : Option ConnectionHandler := d.handler[fd]?.join

/-- `delete handler[fd]` with its entry set to null. -/
def close (d : Kdesud) (fd : Nat) : Kdesud :=
  { d with handler := d.handler.set fd none, active_fds := d.active_fds.erase fd }

def accept (d : Kdesud) (fd : Nat) (uid uninitialised : Int) : Kdesud :=
  let handler := d.handler ++ List.replicate (fd + 1 - d.handler.length) none
  { d with
    handler := handler.set fd (some (.new fd uid uninitialised))
    active_fds := FD_SET fd d.active_fds
    maxfd := max d.maxfd fd }

/-- The index at which the search of the reaping loop ends: it runs downwards. -/
def waiting (d : Kdesud) (pid : Pid) : Option Nat :=
  (List.range d.handler.length).reverse.find? fun j =>
    (d.handlerAt j).any fun h => h.m_pid = pid.1

/-- One round of the reaping loop, after `waitpid` answered a pid and a status. -/
def reap (d : Kdesud) (pid : Pid) (status : Nat) : Kdesud × List (Nat × Reply) :=
  let d := { d with children := d.children.filter (· ≠ pid) }
  match d.waiting pid with
  | none => (d, [])
  | some j =>
      match d.handlerAt j with
      | none => (d, [])
      | some h =>
          let h := reaped h status
          ({ d with handler := d.handler.set j (some h) }, (sendExitCode h).map (j, ·))

def store (d : Kdesud) (fd : Nat) (o : Outcome) : Kdesud :=
  { d with
    repo := o.repo
    handler := d.handler.set fd (some o.handler)
    children := d.children ++ (o.child.map Child.pid).toList }

def conclude (d : Kdesud) (fd : Nat) : Ending → Kdesud
  | .ok => d
  | .error => d.close fd
  | .exit => { d with running := false }

def settle (d : Kdesud) (fd : Nat) (o : Outcome) : Kdesud × List (Nat × Reply) :=
  ((d.store fd o).conclude fd o.ending, o.sent.map (fd, ·))

end Kdesud

def step (d : Kdesud) (e : Event) : Kdesud × List (Nat × Reply) :=
  if d.running then
    match e with
    | .expire now => ({ d with repo := (d.repo.expire now).1 }, [])
    | .reap pid status => d.reap pid status
    | .accept fd uid uninitialised => (d.accept fd uid uninitialised, [])
    | .command fd buf sys =>
        match d.handlerAt fd with
        | none => (d, [])
        | some h => d.settle fd (doCommand sys h d.repo buf)
    | .hangup fd =>
        match d.handlerAt fd with
        | none => (d, [])
        | some _ => (d.close fd, [])
  else (d, [])

inductive Action
  | idle
  | expire (now : Nat)
  | reap (pid : Pid) (status : Nat)
  | accept (fd : Nat) (uid uninitialised : Int)
  | perform (fd : Nat) (h : ConnectionHandler) (sys : SysCalls) (request : Request)
  | drop (fd : Nat) (sent : List Reply)
  deriving DecidableEq

def commandAction (fd : Nat) (h : ConnectionHandler) (buf : Bytes) (sys : SysCalls) : Action :=
  if peerIsMe sys h then
    match readRequest buf with
    | some request => .perform fd h sys request
    | none => .drop fd (refusal buf)
  else .drop fd []

def action (d : Kdesud) (e : Event) : Action :=
  if d.running then
    match e with
    | .expire now => .expire now
    | .reap pid status => .reap pid status
    | .accept fd uid uninitialised => .accept fd uid uninitialised
    | .command fd buf sys =>
        match d.handlerAt fd with
        | none => .idle
        | some h => commandAction fd h buf sys
    | .hangup fd =>
        match d.handlerAt fd with
        | none => .idle
        | some _ => .drop fd []
  else .idle

def act (d : Kdesud) : Action → Kdesud × List (Nat × Reply)
  | .idle => (d, [])
  | .expire now => ({ d with repo := (d.repo.expire now).1 }, [])
  | .reap pid status => d.reap pid status
  | .accept fd uid uninitialised => (d.accept fd uid uninitialised, [])
  | .perform fd h sys request => d.settle fd (perform sys h d.repo request)
  | .drop fd sent => (d.close fd, sent.map (fd, ·))

theorem settle_parseError (d : Kdesud) (fd : Nat) (h : ConnectionHandler) (sent : List Reply) :
    d.settle fd { parseError h d.repo with sent := sent } = (d.close fd, sent.map (fd, ·)) := by
  simp [Kdesud.settle, Kdesud.store, Kdesud.conclude, Kdesud.close, parseError]

/-- The machine over lines refines the machine over requests. -/
theorem step_eq_act (d : Kdesud) (e : Event) : step d e = act d (action d e) := by
  simp only [step, action]
  split
  case isFalse => rfl
  case isTrue running =>
    cases e with
    | expire | reap | accept => rfl
    | hangup fd =>
      cases found : d.handlerAt fd <;> simp only [found] <;> rfl
    | command fd buf sys =>
      cases found : d.handlerAt fd with
      | none =>
        simp only [found]
        rfl
      | some h =>
        simp only [found, commandAction]
        split_ifs with me
        · cases read : readRequest buf with
          | some request => rw [doCommand_of_request me d.repo read]; rfl
          | none =>
            obtain ⟨h', -, refused⟩ := doCommand_of_none me d.repo read
            rw [refused, settle_parseError]
            rfl
        · rw [doCommand_of_stranger me d.repo buf]
          exact settle_parseError d fd h []

theorem of_perform {d : Kdesud} {e : Event} {fd : Nat} {h : ConnectionHandler} {sys : SysCalls}
    {request : Request} (performed : action d e = .perform fd h sys request) :
    d.running = true ∧ d.handlerAt fd = some h ∧
      ∃ buf, e = .command fd buf sys ∧ peerIsMe sys h ∧ readRequest buf = some request := by
  simp only [action] at performed
  split at performed
  case isFalse => cases performed
  case isTrue running =>
    cases e with
    | expire | reap | accept => cases performed
    | hangup fd' => cases found : d.handlerAt fd' <;> simp [found] at performed
    | command fd' buf sys' =>
      cases found : d.handlerAt fd' with
      | none => simp [found] at performed
      | some h' =>
        simp only [found, commandAction] at performed
        split_ifs at performed with me
        split at performed
        case h_1 request' read =>
          cases performed
          exact ⟨running, found, buf, rfl, me, read⟩
        case h_2 => cases performed

theorem of_drop {d : Kdesud} {e : Event} {fd : Nat} {sent : List Reply}
    (dropped : action d e = .drop fd sent) (code : Int) : .exitCode code ∉ sent := by
  have refused (buf : Bytes) : .exitCode code ∉ refusal buf := by
    simp only [refusal]
    split_ifs <;> simp
  simp only [action] at dropped
  split at dropped
  case isFalse => cases dropped
  case isTrue running =>
    cases e with
    | expire | reap | accept => cases dropped
    | hangup fd' =>
      cases found : d.handlerAt fd' with
      | none => simp [found] at dropped
      | some h =>
        simp only [found] at dropped
        cases dropped
        simp
    | command fd' buf sys =>
      cases found : d.handlerAt fd' with
      | none => simp [found] at dropped
      | some h =>
        simp only [found, commandAction] at dropped
        split_ifs at dropped
        · split at dropped
          · cases dropped
          · cases dropped
            exact refused buf
        · cases dropped
          simp

theorem lt_length_of_handlerAt {d : Kdesud} {fd : Nat} {h : ConnectionHandler}
    (live : d.handlerAt fd = some h) : fd < d.handler.length := by
  by_contra beyond
  rw [Kdesud.handlerAt, List.getElem?_eq_none (by omega)] at live
  cases live

theorem waiting_eq_some {d : Kdesud} {pid : Pid} {fd : Nat} (found : d.waiting pid = some fd) :
    ∃ h, d.handlerAt fd = some h ∧ h.m_pid = pid.1 := by
  have here := List.find?_some found
  simpa [Option.any_eq_true] using here

theorem waiting_eq_none {d : Kdesud} {pid : Pid} (missing : d.waiting pid = none) {fd : Nat}
    {h : ConnectionHandler} (live : d.handlerAt fd = some h) : h.m_pid ≠ pid.1 := by
  have inside := lt_length_of_handlerAt live
  have passed := List.find?_eq_none.mp missing fd (by simpa using inside)
  simpa [live] using passed

def repoAfter (repo : Repository) : Action → Repository
  | .expire now => (repo.expire now).1
  | .perform _ h sys request => (perform sys h repo request).repo
  | _ => repo

theorem repo_step (d : Kdesud) (e : Event) :
    (step d e).1.repo = repoAfter d.repo (action d e) := by
  rw [step_eq_act]
  cases action d e with
  | idle | expire | accept | drop => rfl
  | reap pid status =>
    simp only [act, Kdesud.reap]
    split
    · rfl
    · split <;> rfl
  | perform fd h sys request =>
    simp only [act, Kdesud.settle, Kdesud.conclude, repoAfter]
    split <;> rfl

def childrenAfter (repo : Repository) (children : List Pid) : Action → List Pid
  | .reap pid _ => children.filter (· ≠ pid)
  | .perform _ h sys request =>
      children ++ ((perform sys h repo request).child.map Child.pid).toList
  | _ => children

theorem children_step (d : Kdesud) (e : Event) :
    (step d e).1.children = childrenAfter d.repo d.children (action d e) := by
  rw [step_eq_act]
  cases action d e with
  | idle | expire | accept | drop => rfl
  | reap pid status =>
    simp only [act, Kdesud.reap]
    split
    · rfl
    · split <;> rfl
  | perform fd h sys request =>
    simp only [act, Kdesud.settle, Kdesud.conclude, childrenAfter]
    split <;> rfl

def handlerAfter (d : Kdesud) (fd : Nat) : Action → Option ConnectionHandler
  | .accept fd' uid uninitialised =>
      if fd = fd' then some (.new fd' uid uninitialised) else d.handlerAt fd
  | .perform fd' h sys request =>
      if fd = fd' then some (perform sys h d.repo request).handler else d.handlerAt fd
  | .drop fd' _ => if fd = fd' then none else d.handlerAt fd
  | .reap pid status =>
      if d.waiting pid = some fd then (d.handlerAt fd).map (reaped · status) else d.handlerAt fd
  | _ => d.handlerAt fd

private theorem join_set {handler : List (Option ConnectionHandler)} (fd fd' : Nat)
    (inside : fd' < handler.length) (h : Option ConnectionHandler) :
    (handler.set fd' h)[fd]?.join = if fd = fd' then h else handler[fd]?.join := by
  rw [List.getElem?_set]
  by_cases same : fd' = fd
  · simp [same, same ▸ inside]
  · simp [same, Ne.symm same]

private theorem join_set_none (handler : List (Option ConnectionHandler)) (fd fd' : Nat) :
    (handler.set fd' none)[fd]?.join = if fd = fd' then none else handler[fd]?.join := by
  by_cases inside : fd' < handler.length
  · exact join_set fd fd' inside none
  · rw [List.set_eq_of_length_le (by omega)]
    split_ifs with same
    · rw [same, List.getElem?_eq_none (by omega)]
      rfl
    · rfl

private theorem join_append_none (handler : List (Option ConnectionHandler)) (n fd : Nat) :
    (handler ++ List.replicate n none)[fd]?.join = handler[fd]?.join := by
  rw [List.getElem?_append]
  split_ifs with inside
  · rfl
  · have beyond : handler[fd]? = none := List.getElem?_eq_none (by omega)
    rw [beyond, List.getElem?_replicate]
    split_ifs <;> rfl

theorem handlerAt_set {d : Kdesud} {fd : Nat} {h : ConnectionHandler}
    (live : d.handlerAt fd = some h) (h' : Option ConnectionHandler) (fd' : Nat) :
    ({ d with handler := d.handler.set fd h' } : Kdesud).handlerAt fd' =
      if fd' = fd then h' else d.handlerAt fd' :=
  join_set fd' fd (lt_length_of_handlerAt live) h'

theorem handlerAt_store {d : Kdesud} {fd : Nat} {h : ConnectionHandler}
    (live : d.handlerAt fd = some h) (o : Outcome) :
    (d.store fd o).handlerAt fd = some o.handler :=
  (handlerAt_set live (some o.handler) fd).trans (if_pos rfl)

theorem handlerAt_close (d : Kdesud) (fd fd' : Nat) :
    (d.close fd').handlerAt fd = if fd = fd' then none else d.handlerAt fd :=
  join_set_none d.handler fd fd'

theorem handlerAt_step (d : Kdesud) (e : Event) (fd : Nat) :
    (step d e).1.handlerAt fd = handlerAfter d fd (action d e) := by
  rw [step_eq_act]
  cases performed : action d e with
  | idle | expire => rfl
  | accept fd' uid uninitialised =>
    have inside : fd' < (d.handler ++
        List.replicate (fd' + 1 - d.handler.length) none).length := by
      rw [List.length_append, List.length_replicate]
      omega
    refine (join_set fd fd' inside _).trans ?_
    rw [join_append_none]
    rfl
  | drop fd' sent => exact handlerAt_close d fd fd'
  | reap pid status =>
    simp only [act, Kdesud.reap, handlerAfter]
    have same : ({ d with children := d.children.filter (· ≠ pid) } : Kdesud).waiting pid =
        d.waiting pid := rfl
    rw [same]
    cases waits : d.waiting pid with
    | none => rfl
    | some j =>
      obtain ⟨h, live, -⟩ := waiting_eq_some waits
      have here : ({ d with children := d.children.filter (· ≠ pid) } : Kdesud).handlerAt j =
          some h := live
      simp only [here, Option.some.injEq]
      refine (handlerAt_set live _ fd).trans ?_
      by_cases equal : j = fd
      · rw [if_pos equal.symm, if_pos equal, ← equal, live, Option.map_some]
      · rw [if_neg (Ne.symm equal), if_neg equal]
  | perform fd' h sys request =>
    have inside := lt_length_of_handlerAt (of_perform performed).2.1
    have placed := join_set fd fd' inside (some (perform sys h d.repo request).handler)
    have regular := perform_ending sys h d.repo request
    simp only [act, Kdesud.settle, Kdesud.conclude, regular]
    split_ifs
    · exact placed
    · exact placed

/-- How a handler can have come to be what it is after an action. -/
inductive Became (d : Kdesud) (fd : Nat) (h' : ConnectionHandler) : Action → Prop
  | kept {a : Action} (live : d.handlerAt fd = some h')
      (accepted : ∀ uid uninitialised, a ≠ .accept fd uid uninitialised)
      (performed : ∀ h sys request, a ≠ .perform fd h sys request)
      (reaped : ∀ pid status, a = .reap pid status → d.waiting pid ≠ some fd) : Became d fd h' a
  | accepted (uid uninitialised : Int) (new : h' = .new fd uid uninitialised) :
      Became d fd h' (.accept fd uid uninitialised)
  | performed (h : ConnectionHandler) (sys : SysCalls) (request : Request)
      (live : d.handlerAt fd = some h)
      (after : h' = handlerOf h (perform sys h d.repo request).child request) :
      Became d fd h' (.perform fd h sys request)
  | reaped (h : ConnectionHandler) (pid : Pid) (status : Nat) (live : d.handlerAt fd = some h)
      (waits : d.waiting pid = some fd) (after : h' = reaped h status) :
      Became d fd h' (.reap pid status)

theorem handler_origin {d : Kdesud} {e : Event} {fd : Nat} {h' : ConnectionHandler}
    (live : (step d e).1.handlerAt fd = some h') : Became d fd h' (action d e) := by
  rw [handlerAt_step] at live
  cases performed : action d e with
  | idle | expire =>
    rw [performed] at live
    exact .kept live (by simp) (by simp) (by simp)
  | accept fd' uid uninitialised =>
    simp only [performed, handlerAfter] at live
    split_ifs at live with here
    · subst here
      exact .accepted uid uninitialised (Option.some.inj live).symm
    · exact .kept live (by simp [Ne.symm here]) (by simp) (by simp)
  | drop fd' sent =>
    simp only [performed, handlerAfter] at live
    split_ifs at live
    exact .kept live (by simp) (by simp) (by simp)
  | reap pid status =>
    simp only [performed, handlerAfter] at live
    split_ifs at live with waits
    · obtain ⟨h, before, after⟩ := Option.map_eq_some_iff.mp live
      exact .reaped h pid status before waits after.symm
    · exact .kept live (by simp) (by simp) (by simpa using waits)
  | perform fd' h sys request =>
    simp only [performed, handlerAfter] at live
    split_ifs at live with here
    · subst here
      have before := (of_perform performed).2.1
      rw [Option.some.injEq, perform_handler] at live
      exact .performed h sys request before live.symm
    · exact .kept live (by simp) (by simp [Ne.symm here]) (by simp)

def repliesOf (d : Kdesud) : Action → List (Nat × Reply)
  | .perform fd h sys request => (perform sys h d.repo request).sent.map (fd, ·)
  | .drop fd sent => sent.map (fd, ·)
  | .reap pid status =>
      match d.waiting pid with
      | none => []
      | some fd =>
          match d.handlerAt fd with
          | none => []
          | some h => (sendExitCode (reaped h status)).map (fd, ·)
  | _ => []

theorem replies_step (d : Kdesud) (e : Event) :
    (step d e).2 = repliesOf d (action d e) := by
  rw [step_eq_act]
  cases action d e with
  | idle | expire | accept | drop | perform => rfl
  | reap pid status =>
    simp only [act, Kdesud.reap, repliesOf]
    have same : ({ d with children := d.children.filter (· ≠ pid) } : Kdesud).waiting pid =
        d.waiting pid := rfl
    rw [same]
    cases d.waiting pid with
    | none => rfl
    | some j =>
      have here : ({ d with children := d.children.filter (· ≠ pid) } : Kdesud).handlerAt j =
          d.handlerAt j := rfl
      simp only [here]
      cases d.handlerAt j <;> rfl

/-- What an exit code is sent for. -/
inductive ExitCodeSent (d : Kdesud) (fd : Nat) (code : Int) : Action → Prop
  | asked (h : ConnectionHandler) (sys : SysCalls) (live : d.handlerAt fd = some h)
      (exited : h.m_hasExitCode = true) (stored : code = h.m_exitCode) :
      ExitCodeSent d fd code (.perform fd h sys .exit)
  | reaped (h : ConnectionHandler) (pid : Pid) (status : Nat) (live : d.handlerAt fd = some h)
      (waits : d.waiting pid = some fd) (value : code = WEXITSTATUS status) :
      ExitCodeSent d fd code (.reap pid status)

theorem exitCode_origin {d : Kdesud} {e : Event} {fd : Nat} {code : Int}
    (sent : (fd, .exitCode code) ∈ (step d e).2) : ExitCodeSent d fd code (action d e) := by
  rw [replies_step] at sent
  cases performed : action d e with
  | idle | expire | accept => simp [performed, repliesOf] at sent
  | drop fd' replies =>
    simp only [performed, repliesOf, List.mem_map, Prod.mk.injEq] at sent
    obtain ⟨reply, member, -, rfl⟩ := sent
    exact absurd member (of_drop performed code)
  | perform fd' h sys request =>
    simp only [performed, repliesOf, List.mem_map, Prod.mk.injEq] at sent
    obtain ⟨reply, member, rfl, rfl⟩ := sent
    rcases perform_sent sys h d.repo request with ⟨rfl, replies⟩ | ⟨-, ok, s, replies⟩
    · rw [replies] at member
      split_ifs at member with exited
      · exact .asked h sys (of_perform performed).2.1 exited (by simpa using member)
      · cases member
    · simp [replies] at member
  | reap pid status =>
    simp only [performed, repliesOf] at sent
    cases waits : d.waiting pid with
    | none => simp [waits] at sent
    | some j =>
      obtain ⟨h, live, -⟩ := waiting_eq_some waits
      simp only [waits, live, List.mem_map, Prod.mk.injEq] at sent
      obtain ⟨reply, member, rfl, rfl⟩ := sent
      refine .reaped h pid status live waits ?_
      simp only [sendExitCode] at member
      split_ifs at member
      · simpa [reaped] using member
      · cases member

abbrev Kdesud.after (fds : Descriptors) (es : List Event) : Kdesud := run step (Kdesud.new fds) es

abbrev Kdesud.past (fds : Descriptors) (es : List Event) : List (Moment Kdesud Event) :=
  history step (Kdesud.new fds) es

def acted (m : Moment Kdesud Event) : Action := action m.before m.event

end KDESu.Daemon.EventLoop
