/- KDESu/Daemon/OwnPasswords
   source: src/kdesud/handler.cpp, src/kdesud/kdesud.cpp
   digest: Whether an EXEC runs on its session's own latest PASS, over every run of the daemon. -/

import KDESu.Daemon.PasswordLifetime

set_option autoImplicit false
set_option relaxedAutoImplicit false

namespace KDESu.Daemon.OwnPasswords

open KDESu.ByteArrays
open KDESu.Library.Histories
open KDESu.Daemon.Repositories (Repository)
open KDESu.Daemon.Handling
open KDESu.Daemon.Requests
open KDESu.Daemon.EventLoop
open KDESu.Daemon.Entries
open KDESu.Daemon.PasswordLifetime

/-- The moment is an EXEC that is answered OK on a connection whose latest PASS is known; with
the session, the command and the child that runs it. -/
structure Executes (past : List (Moment Kdesud Event)) (m : Moment Kdesud Event) where
  fd : Nat
  h : ConnectionHandler
  sys : SysCalls
  command : Bytes
  user : Bytes
  options : Bytes
  env : List Bytes
  child : Child
  latest : Grant
  performed : acted m = .perform fd h sys (.exec command user options env)
  started : (perform sys h m.before.repo (.exec command user options env)).child = some child
  granted : (ledger past).session fd = some latest

/-- The command runs with the password of the latest PASS. -/
def OwnWins (past : List (Moment Kdesud Event)) (m : Moment Kdesud Event) : Prop :=
  ∀ x : Executes past m, x.child.pass = x.latest.password

/-- No other password is stored for the same host, account and command beside the environment
of this EXEC. -/
def NoOtherStored (past : List (Moment Kdesud Event)) (m : Moment Kdesud Event) : Prop :=
  ∀ (x : Executes past m) (other : Bytes),
    m.before.repo.find (commandKey 0 x.h x.command x.user) = some other →
    (m.before.repo.find (commandKey 2 x.h x.command x.user)).data = (envCheck x.env).data →
    other = x.latest.password

private theorem ownWins_iff (fds : Descriptors) (es : List Event) (ev : Event) :
    OwnWins (Kdesud.past fds es) ⟨Kdesud.after fds es, ev⟩ ↔
      NoOtherStored (Kdesud.past fds es) ⟨Kdesud.after fds es, ev⟩ := by
  have pointwise (x : Executes (Kdesud.past fds es) ⟨Kdesud.after fds es, ev⟩) :
      x.child.pass = x.latest.password ↔ ∀ other,
        cachedPass x.h (Kdesud.after fds es).repo x.command x.user (envCheck x.env) = some other →
          other = x.latest.password := by
    have live := (of_perform x.performed).2.1
    have held := ((accounted_run fds es).session x.fd x.h live).1
    have pass := pass_of_started x.started
    rw [held, x.granted, Option.map_some] at pass
    cases found : cachedPass x.h (Kdesud.after fds es).repo x.command x.user (envCheck x.env) with
    | none =>
      rw [found, Option.none_or, Option.some.injEq] at pass
      simp [pass]
    | some other =>
      rw [found, Option.some_or, Option.some.injEq] at pass
      simp [pass]
  simp only [OwnWins, NoOtherStored, pointwise, cachedPass_eq_some]
  constructor
  · exact fun wins x other stored same => wins x other ⟨same, stored⟩
  · exact fun none_stored x other both => none_stored x other both.2 both.1

/-- In every run, every EXEC that is answered OK on a connection that has sent PASS runs with the
password of the latest one exactly if none of them finds another password stored for its host,
account and command, beside its environment. -/
theorem own_password_wins_iff (fds : Descriptors) (es : List Event) :
    (∀ pre ev, pre ++ [ev] <+: es →
        OwnWins (Kdesud.past fds pre) ⟨Kdesud.after fds pre, ev⟩) ↔
      ∀ pre ev, pre ++ [ev] <+: es →
        NoOtherStored (Kdesud.past fds pre) ⟨Kdesud.after fds pre, ev⟩ :=
  forall_congr' fun pre => forall_congr' fun ev => imp_congr_right fun _ => ownWins_iff fds pre ev

def wrongCached : List Event :=
  [.accept 6 1000 0, .command 6 (ascii "PASS wrong 0\n") ⟨1000, 100, 100, none⟩,
    .command 6 (ascii "EXEC ls root\n") ⟨1000, 100, 100, some 77⟩,
    .accept 7 1000 0, .command 7 (ascii "PASS right 0\n") ⟨1000, 101, 101, none⟩]

/-- The second session's command runs with the first one's password. -/
theorem cached_password_wins : ¬∀ fds es, ∀ pre ev, pre ++ [ev] <+: es →
    OwnWins (Kdesud.past fds pre) ⟨Kdesud.after fds pre, ev⟩ := by
  intro wins
  let sys : SysCalls := ⟨1000, 102, 102, some 78⟩
  let h : ConnectionHandler :=
    { ConnectionHandler.new 7 1000 0 with m_Pass := some (ascii "right") }
  have own := wins .lowest _ wrongCached (.command 7 (ascii "EXEC ls root\n") sys)
    (List.prefix_refl _)
    ⟨7, h, sys, ascii "ls", ascii "root", [], [],
      ⟨78, .su (ascii "ls") (ascii "root") false 50 0 [], ascii "wrong"⟩,
      ⟨ascii "right", 0, 101⟩, by decide +kernel, by decide +kernel, by decide +kernel⟩
  exact absurd own (by decide +kernel)

end KDESu.Daemon.OwnPasswords
