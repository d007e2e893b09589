/- KDESu/Client/Decoding
   source: src/client.cpp, src/kdesud/handler.cpp
   digest: The values that come back from the daemon, through replies that are read as C strings. -/

import KDESu.Client.Commanding
import KDESu.Daemon.VariableStore

set_option autoImplicit false
set_option relaxedAutoImplicit false

namespace KDESu.Client.Decoding

open KDESu.ByteArrays
open KDESu.Library.Histories
open KDESu.Daemon.Repositories (DataEntry Repository)
open KDESu.Daemon.Repositories.Repository
open KDESu.Daemon.Handling
open KDESu.Daemon.Requests
open KDESu.Daemon.EventLoop
open KDESu.Daemon.Entries
open KDESu.Daemon.VariableStore
open KDESu.Client.Commanding

theorem result_respond_iff {v : Bytes} (more : v ≠ []) :
    (command (Reply.respond .Res_OK v).buf).2 = v ↔ (0 : UInt8) ∉ v := by
  constructor
  · intro read nul
    obtain ⟨w, cut, shorter⟩ := command_cut nul
    rw [respond_buf more, cut] at read
    obtain rfl : w = v := read
    exact absurd shorter (Nat.lt_irrefl _)
  · intro noNul
    rw [command_respond more noNul]

theorem command_respond_iff {v : Bytes} (more : v ≠ []) :
    command (Reply.respond .Res_OK v).buf = (0, v) ↔ (0 : UInt8) ∉ v :=
  ⟨fun read => (result_respond_iff more).mp (congrArg Prod.snd read), command_respond more⟩

theorem result_deliver_iff (fd : Nat) (h : ConnectionHandler) (repo : Repository) (v : Bytes) :
    (command (bytesTo fd ((deliver h repo v).sent.map (fd, ·)))).2 = v ↔ (0 : UInt8) ∉ v := by
  by_cases empty : v = []
  · subst empty
    exact iff_of_true (by simp [bytesTo, deliver, answer]; rfl) List.not_mem_nil
  · rw [← result_respond_iff empty]
    simp [bytesTo, deliver, answer, empty]

/-- A GET of a variable behind a SET of it whose entry is still there: it did not expire, and
nothing removed or replaced it. -/
structure SetThenGet (fds : Descriptors) (es between : List Event) (name v : Bytes)
    (set_event get_event : Event) (fd : Nat) : Prop where
  set : ∃ group timeout now,
    SetsVariable name v group timeout now ⟨Kdesud.after fds es, set_event⟩
  kept : (Kdesud.after fds (es ++ set_event :: between)).repo.stored (variableKey name) =
    (Kdesud.after fds (es ++ [set_event])).repo.stored (variableKey name)
  get : ∃ h sys, action (Kdesud.after fds (es ++ set_event :: between)) get_event =
    .perform fd h sys (.get name)

def getVar (name : Bytes) (fd : Nat) (sent : List (Nat × Reply)) : Result :=
  Method.result (.request (.getVar name)) (command (bytesTo fd sent))

section

variable {fds : Descriptors} {es between : List Event} {name v : Bytes}
  {set_event get_event : Event} {fd : Nat}

private theorem SetThenGet.replies
    (run : SetThenGet fds es between name v set_event get_event fd) :
    ∃ h repo, (step (Kdesud.after fds (es ++ set_event :: between)) get_event).2 =
      (deliver h repo v).sent.map (fd, ·) := by
  obtain ⟨group, timeout, now, sets⟩ := run.set
  obtain ⟨h, sys, gets⟩ := run.get
  have stored := stored_of_set sets
  have step_stored : (Kdesud.after fds (es ++ [set_event])) =
      (step (Kdesud.after fds es) set_event).1 := run_snoc ..
  rw [← step_stored, ← run.kept] at stored
  have sent := get_sent gets
  rw [stored, Option.bind_some, QByteArray.data_some] at sent
  exact ⟨h, _, sent⟩

private theorem SetThenGet.getVar_iff
    (run : SetThenGet fds es between name v set_event get_event fd) :
    getVar name fd (step (Kdesud.after fds (es ++ set_event :: between)) get_event).2 =
      .value v ↔ (0 : UInt8) ∉ v := by
  obtain ⟨h, repo, delivered⟩ := run.replies
  rw [delivered, getVar, ← result_deliver_iff fd h repo v]
  exact ⟨Result.value.inj, congrArg Result.value⟩

end

/-- The client decodes the reply with a value that fits into one `recv`, and gets this value
back as a variable, if and only if the value holds no NUL. -/
theorem value_decoded_iff {v : Bytes}
    (short : (Reply.respond .Res_OK v).buf.length ≤ RECV_SIZE) :
    (v ≠ [] → (command ((Reply.respond .Res_OK v).buf.take RECV_SIZE) = (0, v) ↔
      (0 : UInt8) ∉ v)) ∧
    ∀ fds es between name set_event get_event fd,
      SetThenGet fds es between name v set_event get_event fd →
      (getVar name fd (step (Kdesud.after fds (es ++ set_event :: between)) get_event).2 =
        .value v ↔ (0 : UInt8) ∉ v) := by
  refine ⟨fun more => ?_, fun _ _ _ _ _ _ _ run => run.getVar_iff⟩
  rw [List.take_of_length_le short]
  exact command_respond_iff more

theorem value_decoded_iff_ab :
    command ((Reply.respond .Res_OK (ascii "ab")).buf.take RECV_SIZE) = (0, ascii "ab") ∧
    getVar (ascii "k") 6 (step (Kdesud.after .lowest
      ([.accept 6 1000 0] ++ .command 6 (ascii "SET k ab g 10\n") ⟨1000, 100, 100, none⟩ ::
        [.accept 7 1000 0, .expire 105]))
      (.command 6 (ascii "GET k\n") ⟨1000, 106, 106, none⟩)).2 = .value (ascii "ab") := by
  have decoded := value_decoded_iff (v := ascii "ab") (by decide)
  have run : SetThenGet .lowest [.accept 6 1000 0] [.accept 7 1000 0, .expire 105]
      (ascii "k") (ascii "ab") (.command 6 (ascii "SET k ab g 10\n") ⟨1000, 100, 100, none⟩)
      (.command 6 (ascii "GET k\n") ⟨1000, 106, 106, none⟩) 6 :=
    ⟨⟨ascii "g", 10, 100, 6, .new 6 1000 0, ⟨1000, 100, 100, none⟩, by decide +kernel, rfl⟩,
      by decide +kernel, .new 6 1000 0, ⟨1000, 106, 106, none⟩, by decide +kernel⟩
  exact ⟨(decoded.1 (by decide)).mpr (by decide), (decoded.2 _ _ _ _ _ _ _ run).mpr (by decide)⟩

/-- `a`, a NUL and `b`, which the SET carries in its escapes, come back as nothing. -/
theorem value_with_nul_lost :
    (¬∀ v : Bytes, v ≠ [] → (Reply.respond .Res_OK v).buf.length ≤ RECV_SIZE →
      command ((Reply.respond .Res_OK v).buf.take RECV_SIZE) = (0, v)) ∧
    ¬∀ (v : Bytes) fds es between name set_event get_event fd,
      (Reply.respond .Res_OK v).buf.length ≤ RECV_SIZE →
      SetThenGet fds es between name v set_event get_event fd →
      getVar name fd (step (Kdesud.after fds (es ++ set_event :: between)) get_event).2 =
        .value v := by
  constructor
  · intro always
    exact absurd (always [97, 0, 98] (by decide) (by decide)) (by decide)
  · intro always
    have run : SetThenGet .lowest [.accept 6 1000 0] [] (ascii "k") [97, 0, 98]
        (.command 6 (ascii "SET k \"a\\^@b\" g 10\n") ⟨1000, 100, 100, none⟩)
        (.command 6 (ascii "GET k\n") ⟨1000, 106, 106, none⟩) 6 :=
      ⟨⟨ascii "g", 10, 100, 6, .new 6 1000 0, ⟨1000, 100, 100, none⟩, by decide +kernel, rfl⟩,
        rfl, .new 6 1000 0, ⟨1000, 106, 106, none⟩, by decide +kernel⟩
    exact absurd (always _ _ _ _ _ _ _ _ (by decide) run) (by decide +kernel)

end KDESu.Client.Decoding
