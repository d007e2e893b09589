/- KDESu/Daemon/Receiving
   source: src/kdesud/handler.cpp, src/kdesud/kdesud.cpp
   digest: ConnectionHandler::handle on the bytes of a connection, however they arrive. -/

import KDESu.Daemon.EventLoop
import KDESu.Library.Framing

set_option autoImplicit false
set_option relaxedAutoImplicit false

namespace KDESu.Daemon.Receiving

open KDESu.ByteArrays
open KDESu.Library.Histories
open KDESu.Library.Framing
open KDESu.Daemon.Repositories (Repository)
open KDESu.Daemon.Handling
open KDESu.Daemon.EventLoop

def BUF_SIZE : Nat := 1024

inductive Recv
  | data (bytes : Bytes)
  | eof
  | interrupted
  | failed
  deriving DecidableEq

/-- What `handle` asks `recv` for at most. -/
def room (m_Buf : Bytes) : Nat := BUF_SIZE - 1 - m_Buf.length

/-- A `handle`: how it ends, what it leaves behind, and the lines it gave to `doCommand`. -/
structure Handled (σ : Type) where
  ending : Ending
  m_Buf : Bytes
  state : σ
  lines : List Bytes

section

variable {σ : Type} (doCommand : σ → Bytes → σ × Ending)

/-- The loop over the complete commands of the buffer. The fuel bounds their number. -/
def handleLines : Nat → Bytes → σ → Handled σ
  | 0, m_Buf, s => ⟨.ok, m_Buf, s, []⟩
  | fuel + 1, m_Buf, s =>
      match m_Buf.idxOf? newline with
      | none => ⟨.ok, m_Buf, s, []⟩
      | some n =>
          let newbuf := m_Buf.take (n + 1)
          let m_Buf := m_Buf.drop (n + 1)
          let (s, ret) := doCommand s newbuf
          if ret = .ok then
            let rest := handleLines fuel m_Buf s
            { rest with lines := newbuf :: rest.lines }
          else ⟨ret, m_Buf, s, [newbuf]⟩

def handle (m_Buf : Bytes) (s : σ) : Recv → Handled σ
  | .failed => ⟨.error, m_Buf, s, []⟩
  | .interrupted => ⟨.ok, m_Buf, s, []⟩
  | .eof => ⟨.error, m_Buf, s, []⟩
  | .data bytes =>
      let m_Buf := m_Buf ++ bytes
      if m_Buf.length = BUF_SIZE - 1 then ⟨.error, m_Buf, s, []⟩
      else handleLines doCommand m_Buf.length m_Buf s

variable {doCommand} in
theorem handle_invariant {I : σ → Prop} (kept : ∀ s line, I s → I (doCommand s line).1)
    (m_Buf : Bytes) {s : σ} (start : I s) (r : Recv) : I (handle doCommand m_Buf s r).state := by
  have lines : ∀ (fuel : Nat) (m_Buf : Bytes) (s : σ), I s →
      I (handleLines doCommand fuel m_Buf s).state := by
    intro fuel
    induction fuel with
    | zero => exact fun _ _ holds => holds
    | succ fuel ih =>
      intro m_Buf s holds
      simp only [handleLines]
      split
      · exact holds
      · rename_i n _
        have next := kept s (m_Buf.take (n + 1)) holds
        split_ifs
        · exact ih _ _ next
        · exact next
  cases r with
  | data bytes =>
    simp only [handle]
    split_ifs
    · exact start
    · exact lines _ _ _ start
  | eof | interrupted | failed => exact start

/-- One `handle` after the other, while the connection is kept. -/
def receive (m_Buf : Bytes) (s : σ) : List Recv → Handled σ
  | [] => ⟨.ok, m_Buf, s, []⟩
  | r :: rs =>
      let first := handle doCommand m_Buf s r
      if first.ending = .ok then
        let rest := receive first.m_Buf first.state rs
        { rest with lines := first.lines ++ rest.lines }
      else first

/-- No `recv` gives more than was asked for, nor an empty piece of data. -/
def fits (m_Buf : Bytes) (s : σ) : List Recv → Bool
  | [] => true
  | r :: rs =>
      let first := handle doCommand m_Buf s r
      (match r with
        | .data bytes => decide (0 < bytes.length ∧ bytes.length ≤ room m_Buf)
        | _ => true) &&
      (if first.ending = .ok then fits first.m_Buf first.state rs else true)

end

structure Session where
  daemon : Kdesud
  commands : Nat
  sent : List (Nat × Reply)

def Session.doCommand (fd : Nat) (sys : Nat → SysCalls) (S : Session) (buf : Bytes) :
    Session × Ending :=
  match S.daemon.handlerAt fd with
  | none => (S, .error)
  | some h =>
      let o := Handling.doCommand (sys S.commands) h S.daemon.repo buf
      (⟨S.daemon.store fd o, S.commands + 1, S.sent ++ o.sent.map (fd, ·)⟩, o.ending)

/-- Every line has at most 1022 bytes with its newline. -/
def ShortLines (stream : Bytes) : Prop :=
  (∀ line ∈ (frames newline stream).1, line.length ≤ BUF_SIZE - 2) ∧
    (frames newline stream).2.length ≤ BUF_SIZE - 2

def received (rs : List Recv) : Bytes :=
  rs.flatMap fun
    | .data bytes => bytes
    | _ => []

/-- Reads that give the stream and nothing else. -/
structure Cut (stream : Bytes) (rs : List Recv) : Prop where
  whole : received rs = stream
  open_ended : ∀ r ∈ rs, r ≠ .eof ∧ r ≠ .failed

section

variable {σ : Type} (doCommand : σ → Bytes → σ × Ending)

/-- A read makes the bytes of the unfinished line before it and its own 1023 bytes together, while
all lines before it were accepted. -/
def filled (s : σ) (before : Bytes) : List Recv → Bool
  | [] => false
  | r :: rs =>
      let (lines, unfinished) := frames newline before
      if (serve doCommand .ok s lines).ending = .ok then
        match r with
        | .data bytes =>
            if unfinished.length + bytes.length = BUF_SIZE - 1 then true
            else filled s (before ++ bytes) rs
        | .interrupted => filled s before rs
        | _ => false
      else false

/-- A `handle` closes the connection with `line too long`, and there are complete lines in its
buffer. -/
def linesRefused (m_Buf : Bytes) (s : σ) : List Recv → Bool
  | [] => false
  | r :: rs =>
      let first := handle doCommand m_Buf s r
      if first.ending = .ok then linesRefused first.m_Buf first.state rs
      else
        match r with
        | .data bytes =>
            decide ((m_Buf ++ bytes).length = BUF_SIZE - 1 ∧ newline ∈ m_Buf ++ bytes)
        | _ => false

private theorem handleLines_eq {fuel : Nat} {m_Buf : Bytes} (enough : m_Buf.length ≤ fuel)
    (s : σ) :
    ∃ rest, handleLines doCommand fuel m_Buf s =
        ⟨(serve doCommand .ok s (frames newline m_Buf).1).ending, rest,
          (serve doCommand .ok s (frames newline m_Buf).1).state,
          (serve doCommand .ok s (frames newline m_Buf).1).done⟩ ∧
      ((serve doCommand .ok s (frames newline m_Buf).1).ending = .ok →
        rest = (frames newline m_Buf).2) := by
  induction fuel generalizing m_Buf s with
  | zero =>
    obtain rfl : m_Buf = [] := List.length_eq_zero_iff.mp (Nat.le_zero.mp enough)
    exact ⟨[], rfl, fun _ => rfl⟩
  | succ fuel ih =>
    by_cases member : newline ∈ m_Buf
    · obtain ⟨p, q, rfl, free⟩ := List.eq_append_cons_of_mem member
      have cut : p ++ newline :: q = (p ++ [newline]) ++ q := by simp
      have taken : (p ++ newline :: q).take (p.length + 1) = p ++ [newline] := by
        rw [cut, List.take_left' (by simp)]
      have dropped : (p ++ newline :: q).drop (p.length + 1) = q := by
        rw [cut, List.drop_left' (by simp)]
      simp only [handleLines, idxOf_newline free, taken, dropped, frames_frame free, serve]
      by_cases ok : (doCommand s (p ++ [newline])).2 = .ok
      · have shorter : q.length ≤ fuel := by
          simp only [List.length_append, List.length_cons] at enough
          omega
        obtain ⟨rest, equal, left⟩ := ih shorter (doCommand s (p ++ [newline])).1
        simp only [if_pos ok]
        exact ⟨rest, by rw [equal], left⟩
      · simp only [if_neg ok]
        exact ⟨q, rfl, fun goes => absurd goes ok⟩
    · simp only [handleLines, List.idxOf?_eq_none_iff.mpr member, frames_of_free member]
      exact ⟨m_Buf, rfl, fun _ => rfl⟩

/-- A kept connection: every line was accepted, and the buffer holds what is unfinished. -/
private structure Kept (s : σ) (before m_Buf : Bytes) (t : σ) : Prop where
  accepted : (serve doCommand .ok s (frames newline before).1).ending = .ok
  unfinished : m_Buf = (frames newline before).2
  state : t = (serve doCommand .ok s (frames newline before).1).state

variable {doCommand}

variable {s t : σ} {before m_Buf : Bytes}

private theorem Kept.serve_append (kept : Kept doCommand s before m_Buf t)
    (bytes : Bytes) :
    serve doCommand .ok s (frames newline (before ++ bytes)).1 =
      { serve doCommand .ok t (frames newline (m_Buf ++ bytes)).1 with
        done := (frames newline before).1 ++
          (serve doCommand .ok t (frames newline (m_Buf ++ bytes)).1).done } := by
  rw [frames_append, kept.unfinished, kept.state]
  exact Library.Framing.serve_append doCommand .ok kept.accepted _

private theorem Kept.handle_data (kept : Kept doCommand s before m_Buf t)
    {bytes : Bytes} (fits : m_Buf.length + bytes.length ≠ BUF_SIZE - 1) :
    (frames newline before).1 ++ (handle doCommand m_Buf t (.data bytes)).lines =
        (serve doCommand .ok s (frames newline (before ++ bytes)).1).done ∧
      (handle doCommand m_Buf t (.data bytes)).ending =
        (serve doCommand .ok s (frames newline (before ++ bytes)).1).ending ∧
      ((handle doCommand m_Buf t (.data bytes)).ending = .ok →
        Kept doCommand s (before ++ bytes)
          (handle doCommand m_Buf t (.data bytes)).m_Buf
          (handle doCommand m_Buf t (.data bytes)).state) := by
  obtain ⟨rest, equal, left⟩ :=
    handleLines_eq doCommand (Nat.le_refl (m_Buf ++ bytes).length) t
  have handled : handle doCommand m_Buf t (.data bytes) =
      handleLines doCommand (m_Buf ++ bytes).length (m_Buf ++ bytes) t := by
    simp only [handle, List.length_append, if_neg fits]
  have carried : (frames newline (before ++ bytes)).2 = (frames newline (m_Buf ++ bytes)).2 := by
    rw [frames_append before, ← kept.unfinished]
  rw [handled, equal, kept.serve_append]
  refine ⟨rfl, rfl, fun ok => ⟨?_, ?_, ?_⟩⟩
  · rw [kept.serve_append]
    exact ok
  · exact (left ok).trans carried.symm
  · rw [kept.serve_append]

/-- Reads that never fill the buffer: the lines of the stream are served in turn. -/
private theorem receive_of_unfilled (kept : Kept doCommand s before m_Buf t) {rs : List Recv}
    (open_ended : ∀ r ∈ rs, r ≠ .eof ∧ r ≠ .failed)
    (unfilled : filled doCommand s before rs = false) :
    (frames newline before).1 ++ (receive doCommand m_Buf t rs).lines =
        (serve doCommand .ok s (frames newline (before ++ received rs)).1).done ∧
      (receive doCommand m_Buf t rs).ending =
        (serve doCommand .ok s (frames newline (before ++ received rs)).1).ending := by
  induction rs generalizing before m_Buf t with
  | nil =>
    have done := done_of_go doCommand .ok kept.accepted
    simp only [received, List.flatMap_nil, List.append_nil, receive]
    exact ⟨done.symm, kept.accepted.symm⟩
  | cons r rs ih =>
    have others := fun r' member => open_ended r' (List.mem_cons_of_mem r member)
    cases r with
    | eof => exact absurd rfl (open_ended .eof List.mem_cons_self).1
    | failed => exact absurd rfl (open_ended .failed List.mem_cons_self).2
    | interrupted =>
      simp only [filled, kept.accepted, if_true] at unfilled
      simpa [receive, handle, received] using ih kept others unfilled
    | data bytes =>
      simp only [filled, kept.accepted, if_true, ← kept.unfinished] at unfilled
      split_ifs at unfilled with fits
      obtain ⟨lines, ending, next⟩ := kept.handle_data fits
      have stream : before ++ received (.data bytes :: rs) = (before ++ bytes) ++ received rs := by
        simp [received]
      rw [stream, receive]
      by_cases ok : (handle doCommand m_Buf t (.data bytes)).ending = .ok
      · have later := ih (next ok) others unfilled
        have done := done_of_go doCommand .ok (ending.symm.trans ok)
        rw [if_pos ok, ← later.1, ← later.2, ← done, ← lines, List.append_assoc]
        exact ⟨rfl, rfl⟩
      · rw [if_neg ok, frames_append,
          serve_append_of_stop doCommand .ok (fun goes => ok (ending.trans goes))]
        exact ⟨lines, ending⟩

private theorem newline_of_full (kept : Kept doCommand s before m_Buf t) {bytes rest : Bytes}
    (short : ShortLines (before ++ (bytes ++ rest)))
    (full : m_Buf.length + bytes.length = BUF_SIZE - 1) : newline ∈ m_Buf ++ bytes := by
  by_contra free
  rw [ShortLines, frames_append, ← kept.unfinished, ← List.append_assoc] at short
  have fits := length_le_of_free free
    (fun line member => short.1 line (List.mem_append_right _ member)) short.2
  rw [List.length_append, full] at fits
  simp [BUF_SIZE] at fits

private theorem linesRefused_eq (kept : Kept doCommand s before m_Buf t) {rs : List Recv}
    (short : ShortLines (before ++ received rs)) :
    linesRefused doCommand m_Buf t rs = filled doCommand s before rs := by
  induction rs generalizing before m_Buf t with
  | nil => rfl
  | cons r rs ih =>
    simp only [filled, kept.accepted, if_true, ← kept.unfinished]
    cases r with
    | eof | failed => rfl
    | interrupted => exact ih kept short
    | data bytes =>
      have stream : received (.data bytes :: rs) = bytes ++ received rs := by simp [received]
      rw [stream] at short
      by_cases full : m_Buf.length + bytes.length = BUF_SIZE - 1
      · have member := newline_of_full kept short full
        simp [linesRefused, handle, full, member]
      · obtain ⟨-, ending, next⟩ := kept.handle_data full
        simp only [linesRefused, if_neg full]
        by_cases ok : (handle doCommand m_Buf t (.data bytes)).ending = .ok
        · rw [if_pos ok, ih (next ok) (by rwa [List.append_assoc])]
        · have stopped : filled doCommand s (before ++ bytes) rs = false := by
            cases rs with
            | nil => rfl
            | cons r rs =>
              simp only [filled]
              rw [if_neg fun accepted => ok (ending.trans accepted)]
          rw [if_neg ok, stopped, List.length_append, decide_eq_false fun both => full both.1]

/-- What the peer notices of a connection: the lines that were performed, and its end. -/
def Alike (r r' : Handled σ) : Prop := r.lines = r'.lines ∧ r.ending = r'.ending

/-- Two ways to cut a stream of short lines come to the same, and no complete line is refused in
either, if and only if no read of either fills the buffer. -/
theorem cuts_alike_iff (doCommand : σ → Bytes → σ × Ending) (s : σ) {stream : Bytes}
    (short : ShortLines stream) {rs rs' : List Recv} (cut : Cut stream rs)
    (cut' : Cut stream rs') :
    (Alike (receive doCommand [] s rs) (receive doCommand [] s rs') ∧
      linesRefused doCommand [] s rs = false ∧ linesRefused doCommand [] s rs' = false) ↔
      filled doCommand s [] rs = false ∧ filled doCommand s [] rs' = false := by
  have start : Kept doCommand s [] [] s := ⟨rfl, rfl, rfl⟩
  have served {rs : List Recv} (cut : Cut stream rs) (never : filled doCommand s [] rs = false) :
      (receive doCommand [] s rs).lines = (serve doCommand .ok s (frames newline stream).1).done ∧
        (receive doCommand [] s rs).ending =
          (serve doCommand .ok s (frames newline stream).1).ending := by
    have whole := receive_of_unfilled start cut.open_ended never
    rwa [List.nil_append, cut.whole] at whole
  have refused {rs : List Recv} (cut : Cut stream rs) :
      linesRefused doCommand [] s rs = filled doCommand s [] rs :=
    linesRefused_eq start (by rwa [List.nil_append, cut.whole])
  rw [refused cut, refused cut', and_iff_right_iff_imp]
  rintro ⟨never, never'⟩
  obtain ⟨lines, ending⟩ := served cut never
  obtain ⟨lines', ending'⟩ := served cut' never'
  exact ⟨lines.trans lines'.symm, ending.trans ending'.symm⟩

end

def acceptedSession : Session := ⟨Kdesud.after .lowest [.accept 6 1000 0], 0, []⟩

def uidOnly : Nat → SysCalls := fun _ => ⟨1000, 100, 100, none⟩

theorem cuts_alike_iff_twoPings :
    Alike
      (receive (Session.doCommand 6 uidOnly) [] acceptedSession
        [.data (ascii "PI"), .interrupted, .data (ascii "NG\nPING\n")])
      (receive (Session.doCommand 6 uidOnly) [] acceptedSession
        [.data (ascii "PING\nPING"), .data (ascii "\n")]) :=
  have short : ShortLines (ascii "PING\nPING\n") := ⟨by decide, by decide⟩
  (cuts_alike_iff (Session.doCommand 6 uidOnly) acceptedSession short ⟨by decide, by decide⟩
    ⟨by decide, by decide⟩).mpr ⟨by decide +kernel, by decide +kernel⟩ |>.1

def pings : Bytes := (List.replicate 205 (ascii "PING\n")).flatten

/-- Of 205 pipelined PINGs none is performed when they come in one read of all the room,
and all are when each comes alone. -/
theorem full_read_refused : ¬∀ (fd : Nat) (sys : Nat → SysCalls) (S : Session) (stream : Bytes)
    (rs rs' : List Recv), ShortLines stream → Cut stream rs → Cut stream rs' →
    fits (Session.doCommand fd sys) [] S rs = true →
    fits (Session.doCommand fd sys) [] S rs' = true →
    Alike (receive (Session.doCommand fd sys) [] S rs)
      (receive (Session.doCommand fd sys) [] S rs') := by
  intro always
  have alike := always 6 uidOnly acceptedSession pings
    [.data (pings.take 1023), .data (pings.drop 1023)]
    (List.replicate 205 (.data (ascii "PING\n")))
    ⟨by decide +kernel, by decide +kernel⟩ ⟨by decide +kernel, by decide +kernel⟩
    ⟨by decide +kernel, by decide +kernel⟩ (by decide +kernel) (by decide +kernel)
  exact absurd alike.2 (by decide +kernel)

section

variable {σ : Type} {doCommand : σ → Bytes → σ × Ending} {s t : σ} {before m_Buf : Bytes}

private theorem Kept.room_left (kept : Kept doCommand s before m_Buf t) {bytes : Bytes}
    (within : bytes.length ≤ room m_Buf) (short : m_Buf.length ≤ BUF_SIZE - 2)
    (fits : m_Buf.length + bytes.length ≠ BUF_SIZE - 1) :
    (frames newline (before ++ bytes)).2.length ≤ BUF_SIZE - 2 := by
  have carried : (frames newline (before ++ bytes)).2 = (frames newline (m_Buf ++ bytes)).2 := by
    rw [frames_append before, ← kept.unfinished]
  have whole : ((frames newline (m_Buf ++ bytes)).1.flatten ++
      (frames newline (m_Buf ++ bytes)).2).length = (m_Buf ++ bytes).length := by
    rw [frames_flatten]
  rw [List.length_append, List.length_append] at whole
  rw [carried]
  simp only [room, BUF_SIZE] at within short fits ⊢
  omega

private theorem receive_kept (kept : Kept doCommand s before m_Buf t)
    (short : m_Buf.length ≤ BUF_SIZE - 2) {rs : List Recv}
    (contract : fits doCommand m_Buf t rs = true)
    (goes_on : (receive doCommand m_Buf t rs).ending = .ok) :
    Kept doCommand s (before ++ received rs) (receive doCommand m_Buf t rs).m_Buf
        (receive doCommand m_Buf t rs).state ∧
      (receive doCommand m_Buf t rs).m_Buf.length ≤ BUF_SIZE - 2 ∧
      (frames newline before).1 ++ (receive doCommand m_Buf t rs).lines =
        (frames newline (before ++ received rs)).1 := by
  induction rs generalizing before m_Buf t with
  | nil =>
    simp only [receive, received, List.flatMap_nil, List.append_nil]
    exact ⟨kept, short, trivial⟩
  | cons r rs ih =>
    simp only [receive] at goes_on ⊢
    split_ifs at goes_on with ok
    · simp only [fits, ok, if_true, Bool.and_eq_true] at contract
      obtain ⟨within, contract⟩ := contract
      rw [if_pos ok]
      cases r with
      | eof | failed => cases ok
      | interrupted => exact ih kept short contract goes_on
      | data bytes =>
        have stream : before ++ received (.data bytes :: rs) =
            (before ++ bytes) ++ received rs := by simp [received]
        have unfilled : m_Buf.length + bytes.length ≠ BUF_SIZE - 1 := by
          intro full
          simp [handle, full] at ok
        obtain ⟨lines, ending, next⟩ := kept.handle_data unfilled
        have shorter := kept.room_left (of_decide_eq_true within).2 short unfilled
        rw [← (next ok).unfinished] at shorter
        obtain ⟨kept', short', lines'⟩ := ih (next ok) shorter contract goes_on
        rw [stream]
        refine ⟨kept', short', ?_⟩
        rw [← List.append_assoc, lines, done_of_go doCommand .ok (ending.symm.trans ok)]
        exact lines'
    · exact absurd goes_on ok

/-- While `handle` returns 0, the lines that were performed and `m_Buf` are what was received,
`m_Buf` is one unfinished line of at most `BUF_SIZE - 2` bytes, and the next `recv` asks for at
least one byte and for no more than the reserved buffer has left. -/
theorem receive_buffer_wellFormed (doCommand : σ → Bytes → σ × Ending) (s : σ) (rs : List Recv)
    (contract : fits doCommand [] s rs = true)
    (goes_on : (receive doCommand [] s rs).ending = .ok) :
    let r := receive doCommand [] s rs
    r.lines.flatten ++ r.m_Buf = received rs ∧
      newline ∉ r.m_Buf ∧ r.m_Buf.length ≤ BUF_SIZE - 2 ∧
      1 ≤ room r.m_Buf ∧ room r.m_Buf ≤ BUF_SIZE - 1 ∧
      r.m_Buf.length + room r.m_Buf = BUF_SIZE - 1 := by
  obtain ⟨kept, short, lines⟩ :=
    receive_kept (⟨rfl, rfl, rfl⟩ : Kept doCommand s [] [] s) (Nat.zero_le _) contract goes_on
  have lines : (receive doCommand [] s rs).lines = (frames newline (received rs)).1 := lines
  have rest : (receive doCommand [] s rs).m_Buf = (frames newline (received rs)).2 :=
    kept.unfinished
  refine ⟨?_, ?_, short, ?_⟩
  · rw [lines, rest, frames_flatten]
  · rw [rest]
    exact rest_free _
  · simp only [room, BUF_SIZE] at short ⊢
    omega

end

theorem receive_buffer_wellFormed_pings :
    let r := receive (Session.doCommand 6 uidOnly) [] acceptedSession
      [.data (ascii "PING\nPI"), .interrupted, .data (ascii "NG\nPIN")]
    r.m_Buf = ascii "PIN" ∧ r.lines.flatten ++ r.m_Buf = ascii "PING\nPING\nPIN" := by
  have unfinished : (receive (Session.doCommand 6 uidOnly) [] acceptedSession
      [.data (ascii "PING\nPI"), .interrupted, .data (ascii "NG\nPIN")]).m_Buf = ascii "PIN" := by
    decide +kernel
  have whole := receive_buffer_wellFormed (Session.doCommand 6 uidOnly) acceptedSession
    [.data (ascii "PING\nPI"), .interrupted, .data (ascii "NG\nPIN")] (by decide +kernel)
    (by decide +kernel)
  exact ⟨unfinished, whole.1⟩

/-- The daemon and the `m_Buf` of each handler. -/
structure Buffered where
  daemon : Kdesud
  m_Buf : Nat → Bytes

/-- What `select` wakes the main loop for, with the bytes that a connection gives. -/
inductive Wakeup
  | expire (now : Nat)
  | reap (pid : Pid) (status : Nat)
  | accept (fd : Nat) (uid uninitialised : Int)
  | readable (fd : Nat) (r : Recv) (sys : Nat → SysCalls)

namespace Buffered

def new (fds : Descriptors) : Buffered := ⟨Kdesud.new fds, fun _ => []⟩

def other (b : Buffered) (e : Event) : Buffered × List (Nat × Reply) :=
  ({ b with daemon := (step b.daemon e).1 }, (step b.daemon e).2)

/-- The main loop on a readable connection: `handle`, and what follows from its result. -/
def serve (b : Buffered) (fd : Nat) (r : Recv) (sys : Nat → SysCalls) :
    Buffered × List (Nat × Reply) :=
  let handled := handle (Session.doCommand fd sys) (b.m_Buf fd) ⟨b.daemon, 0, []⟩ r
  (⟨handled.state.daemon.conclude fd handled.ending, Function.update b.m_Buf fd handled.m_Buf⟩,
    handled.state.sent)

def step (b : Buffered) : Wakeup → Buffered × List (Nat × Reply)
  | .expire now => b.other (.expire now)
  | .reap pid status => b.other (.reap pid status)
  | .accept fd uid uninitialised =>
      ({ b with m_Buf := Function.update b.m_Buf fd [] } : Buffered).other
        (.accept fd uid uninitialised)
  | .readable fd r sys =>
      if b.daemon.running ∧ (b.daemon.handlerAt fd).isSome then b.serve fd r sys else (b, [])

end Buffered

def commandsFrom (fd : Nat) (sys : Nat → SysCalls) : Nat → List Bytes → List Event
  | _, [] => []
  | n, line :: lines => .command fd line (sys n) :: commandsFrom fd sys (n + 1) lines

private theorem step_command {fd : Nat} {sys : Nat → SysCalls} {S : Session}
    (running : S.daemon.running = true) (live : (S.daemon.handlerAt fd).isSome) (line : Bytes) :
    (step S.daemon (.command fd line (sys S.commands))).1 =
        (S.doCommand fd sys line).1.daemon.conclude fd (S.doCommand fd sys line).2 ∧
      S.sent ++ (step S.daemon (.command fd line (sys S.commands))).2 =
        (S.doCommand fd sys line).1.sent ∧
      (S.doCommand fd sys line).1.commands = S.commands + 1 ∧
      (S.doCommand fd sys line).1.daemon.running = true ∧
      ((S.doCommand fd sys line).1.daemon.handlerAt fd).isSome := by
  obtain ⟨h, found⟩ := Option.isSome_iff_exists.mp live
  simp only [Session.doCommand, step, running, if_true, found, handlerAt_store found]
  exact ⟨rfl, rfl, trivial, running, rfl⟩

private theorem run_commandsFrom {fd : Nat} (sys : Nat → SysCalls) {S : Session}
    (running : S.daemon.running = true) (live : (S.daemon.handlerAt fd).isSome)
    (lines : List Bytes) :
    run step S.daemon (commandsFrom fd sys S.commands
        (serve (Session.doCommand fd sys) .ok S lines).done) =
      (serve (Session.doCommand fd sys) .ok S lines).state.daemon.conclude fd
        (serve (Session.doCommand fd sys) .ok S lines).ending ∧
    S.sent ++ (outputs step S.daemon (commandsFrom fd sys S.commands
        (serve (Session.doCommand fd sys) .ok S lines).done)).flatten =
      (serve (Session.doCommand fd sys) .ok S lines).state.sent := by
  induction lines generalizing S with
  | nil => exact ⟨rfl, List.append_nil _⟩
  | cons line lines ih =>
    obtain ⟨state, sent, counted, running', live'⟩ := step_command running live line
    by_cases ok : (S.doCommand fd sys line).2 = .ok
    · obtain ⟨final, replies⟩ := ih running' live'
      rw [ok] at state
      rw [counted] at final replies
      simp only [serve, if_pos ok, commandsFrom, run, outputs, List.flatten_cons]
      rw [state, ← List.append_assoc, sent]
      exact ⟨final, replies⟩
    · simp only [serve, if_neg ok, commandsFrom, run, outputs, List.flatten_cons,
        List.flatten_nil, List.append_nil]
      exact ⟨state, sent⟩

private theorem serve_refines {b : Buffered} {fd : Nat} (running : b.daemon.running = true)
    (live : (b.daemon.handlerAt fd).isSome) (r : Recv) (sys : Nat → SysCalls) :
    ∃ es, (b.serve fd r sys).1.daemon = run step b.daemon es ∧
      (b.serve fd r sys).2 = (outputs step b.daemon es).flatten := by
  obtain ⟨h, found⟩ := Option.isSome_iff_exists.mp live
  have hung : step b.daemon (.hangup fd) = (b.daemon.close fd, []) := by
    simp only [step, running, if_true, found]
  cases r with
  | interrupted => exact ⟨[], rfl, rfl⟩
  | eof | failed =>
    refine ⟨[.hangup fd], ?_, ?_⟩
    · simp only [run, hung]
      rfl
    · simp only [outputs, hung]
      rfl
  | data bytes =>
    by_cases full : (b.m_Buf fd).length + bytes.length = BUF_SIZE - 1
    · refine ⟨[.hangup fd], ?_, ?_⟩
      · simp only [run, hung, Buffered.serve, handle, List.length_append, if_pos full]
        rfl
      · simp only [outputs, hung, Buffered.serve, handle, List.length_append, if_pos full]
        rfl
    · obtain ⟨rest, equal, -⟩ := handleLines_eq (Session.doCommand fd sys)
        (Nat.le_refl (b.m_Buf fd ++ bytes).length) ⟨b.daemon, 0, []⟩
      obtain ⟨state, sent⟩ := run_commandsFrom (S := ⟨b.daemon, 0, []⟩) sys running live
        (frames newline (b.m_Buf fd ++ bytes)).1
      refine ⟨commandsFrom fd sys 0 (serve (Session.doCommand fd sys) .ok ⟨b.daemon, 0, []⟩
        (frames newline (b.m_Buf fd ++ bytes)).1).done, ?_, ?_⟩
      · simp only [Buffered.serve, handle, List.length_append, if_neg full]
        rw [← List.length_append, equal]
        exact state.symm
      · simp only [Buffered.serve, handle, List.length_append, if_neg full]
        rw [← List.length_append, equal]
        exact sent.symm

/-- The daemon on bytes refines the daemon on lines: whatever arrives, it does and sends what
it does and sends in some run over commands and hangups. -/
theorem buffered_refines (fds : Descriptors) (ws : List Wakeup) :
    ∃ es, (run Buffered.step (Buffered.new fds) ws).daemon = Kdesud.after fds es ∧
      (outputs Buffered.step (Buffered.new fds) ws).flatten =
        (outputs step (Kdesud.new fds) es).flatten := by
  refine refined_runs (R := fun (b : Buffered) d => b.daemon = d) ?_ rfl ws
  rintro b d w rfl
  cases w with
  | expire now => exact ⟨[.expire now], rfl, by simp [outputs, Buffered.step, Buffered.other]⟩
  | reap pid status =>
    exact ⟨[.reap pid status], rfl, by simp [outputs, Buffered.step, Buffered.other]⟩
  | accept fd uid uninitialised =>
    exact ⟨[.accept fd uid uninitialised], rfl,
      by simp [outputs, Buffered.step, Buffered.other]⟩
  | readable fd r sys =>
    simp only [Buffered.step]
    split_ifs with served
    · exact serve_refines served.1 served.2 r sys
    · exact ⟨[], rfl, rfl⟩

end KDESu.Daemon.Receiving
