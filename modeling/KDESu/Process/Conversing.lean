/- KDESu/Process/Conversing
   source: src/stubprocess.cpp, src/suprocess.cpp, src/ptyprocess.cpp
   digest: The conversations with su and kdesu_stub, and when the cuts of their output matter. -/

import KDESu.Process.Launching
import KDESu.Process.Reading

set_option autoImplicit false
set_option relaxedAutoImplicit false

namespace KDESu.Process.Conversing

open KDESu.ByteArrays
open KDESu.Process.Launching
open KDESu.Process.Reading

def writeLine (line : Bytes) : List Bytes := (if line = [] then [] else [line]) ++ [[newline]]

def quoteByte (c : UInt8) : Bytes :=
  if c < 32 then [backslash, c + 64] else if c = backslash then [backslash, 47] else [c]

def writeString (str : Bytes) : List Bytes := writeLine (str.flatMap quoteByte)

/-- What a StubProcess asks of its surroundings: the display and its cookie (empty in a build
without X11), `PATH` and the pid. -/
structure Surroundings where
  display : Bytes
  displayAuth : Bytes
  PATH : Bytes
  getpid : Int
  deriving DecidableEq, Repr

def stubPath (sys : Surroundings) (p : StubProcess) : Bytes :=
  let path := if [58] <+: sys.PATH then sys.PATH.drop 1 else sys.PATH
  if p.m_user = ascii "root" then
    if path ≠ [] then ascii "/sbin:/bin:/usr/sbin:/usr/bin:" ++ path
    else ascii "/sbin:/bin:/usr/sbin:/usr/bin"
  else path

def startupId (env : List Bytes) : Bytes :=
  let tmp := env.foldl
    (fun tmp var => if ascii "DESKTOP_STARTUP_ID=" <+: var then var.drop 19 else tmp) []
  if tmp = [] then ascii "0" else tmp

/-- What `converseStub` writes for a request; none for a request that it does not know. -/
def answer (sys : Surroundings) (p : StubProcess) (line : Bytes) : Option (List Bytes) :=
  if line = ascii "display" then some (writeLine sys.display)
  else if line = ascii "display_auth" then some (writeLine sys.displayAuth)
  else if line = ascii "command" then some (writeString p.m_command)
  else if line = ascii "path" then some (writeLine (stubPath sys p))
  else if line = ascii "user" then some (writeLine p.m_user)
  else if line = ascii "priority" then some (writeLine (setNum p.m_priority))
  else if line = ascii "scheduler" then
    some (writeLine (if p.m_scheduler = SchedRealtime then ascii "realtime" else ascii "normal"))
  else if line = ascii "xwindows_only" then
    some (writeLine (if p.m_XOnly then ascii "no" else ascii "yes"))
  else if line = ascii "app_startup_id" then some (writeLine (startupId p.env))
  else if line = ascii "app_start_pid" then some (writeLine (setNum sys.getpid))
  else if line = ascii "environment" then some (p.env.flatMap writeString ++ writeLine [])
  else none

/-- The loops of `converseStub`: before the stub has reported, and after it. -/
inductive StubLoop
  | greeting | serving
  deriving DecidableEq, Repr

def hearStub (sys : Surroundings) (p : StubProcess) (check : Bool) :
    StubLoop → QByteArray → (StubLoop ⊕ Int) × List Bytes
  | _, none => (.inr (-1), [])
  | .greeting, some line =>
      if line = ascii "kdesu_stub" then
        (.inl .serving, writeLine (if check then ascii "stop" else ascii "ok"))
      else (.inl .greeting, [])
  | .serving, some line =>
      match answer sys p line with
      | some written => (.inl .serving, written)
      | none => (.inr (if line = ascii "end" then 0 else 1), [])

def converseStub (sys : Surroundings) (p : StubProcess) (check : Bool) (pty : Pty) :
    Option (Int × List Bytes × Pty) :=
  listenTo (hearStub sys p check) (pty.rest.length + 1) .greeting pty

inductive SuErrors
  | error | ok | killme | notauthorized
  deriving DecidableEq, Repr

def SuErrors.toInt : SuErrors → Int
  | .error => -1
  | .ok => 0
  | .killme => 1
  | .notauthorized => 2

inductive SuState
  | WaitForPrompt | CheckStar | HandleStub
  deriving DecidableEq, Repr

/-- The loop over the characters of a line: where `j` ends up, and the number of colons. -/
def scanPrompt : Nat → Bytes → Nat → Nat → Nat × Nat
  | _, [], j, colon => (j, colon)
  | i, c :: line, j, colon =>
      if c = 58 then scanPrompt (i + 1) line i (colon + 1)
      else if !isspace c then scanPrompt (i + 1) line (j + 1) colon
      else scanPrompt (i + 1) line j colon

/-- What the loop looks at of a line, whose length it takes into an `uint`. -/
def scanned (line : Bytes) : Bytes := line.take (line.length % 2 ^ 32)

/-- The counters stay below 2^32, so that `j` fits into its `unsigned`, and where colons are too
many for an `int`, it does not come back to 1. -/
def isPrompt (text : Bytes) : Bool :=
  let (j, colon) := scanPrompt 0 (scanned text) 0 0
  colon == 1 && text[j]? == some 58

def trimmed (s : Bytes) : Bytes := ((s.dropWhile isspace).reverse.dropWhile isspace).reverse

/-- What `converseSU` asks `waitMS`, call by call, and `waitSlave`, which it calls once at most. -/
structure Waits where
  waitMS : Nat → Int
  waitSlave : Int

/-- The state of `converseSU`, and how often it has called `waitMS`. -/
structure SuLoop where
  state : SuState
  calls : Nat

def hearSU (waits : Waits) (password : QByteArray) (s : SuLoop) (line : QByteArray) :
    (SuLoop ⊕ SuErrors) × List Bytes :=
  match line with
  | none => (.inr (if s.state = .HandleStub then .notauthorized else .error), [])
  | some line =>
      if contains line [58] ∧ s.state ≠ .WaitForPrompt then
        (.inr (if s.state = .HandleStub then .notauthorized else .error), [])
      else if line = ascii "kdesu_stub" then (.inr .ok, [])
      else
        match s.state with
        | .WaitForPrompt =>
            let again : SuLoop := { s with calls := s.calls + 1 }
            if waits.waitMS s.calls > 0 then (.inl again, [])
            else if isPrompt line then
              match password with
              | none => (.inr .killme, [])
              | some password =>
                  if waits.waitSlave ≠ 0 then (.inr .error, [])
                  else (.inl { again with state := .CheckStar }, [constData password, [newline]])
            else (.inl again, [])
        | .CheckStar =>
            if (trimmed line).all (· = asterisk) then (.inl { s with state := .HandleStub }, [])
            else (.inr .error, [])
        | .HandleStub => (.inl s, [])

/-- `converseSU` puts the line back on which it returns `ok`. -/
def converseSU (waits : Waits) (password : QByteArray) (pty : Pty) :
    Option (SuErrors × List Bytes × Pty) :=
  (listenTo (hearSU waits password) (pty.rest.length + 1) ⟨.WaitForPrompt, 0⟩ pty).map
    fun (ret, written, pty) =>
      (ret, written, if ret = .ok then pty.unreadLine (ascii "kdesu_stub") else pty)

/-- `converseSU` and, where it returns `ok`, `converseStub` on what it leaves: their return
values and all that is written. -/
def converseBoth (sys : Surroundings) (p : StubProcess) (check : Bool) (waits : Waits)
    (password : QByteArray) (pty : Pty) : Option (SuErrors × Option Int × List Bytes) :=
  (converseSU waits password pty).bind fun (ret, written, pty) =>
    if ret = .ok then
      (converseStub sys p check pty).map fun (ret', later, _) => (ret, some ret', written ++ later)
    else some (ret, none, written)

private theorem hearStub_ends (sys : Surroundings) (p : StubProcess) (check : Bool)
    (s : StubLoop) : (hearStub sys p check s none).1.isRight := by
  cases s <;> rfl

private theorem hearSU_ends (waits : Waits) (password : QByteArray) (s : SuLoop) :
    (hearSU waits password s none).1.isRight := rfl

theorem converseStub_isSome (sys : Surroundings) (p : StubProcess) (check : Bool) {pty : Pty}
    (free : NeverStuck pty) : (converseStub sys p check pty).isSome :=
  listenTo_isSome (hearStub_ends sys p check) free (Nat.lt_succ_self _) _

theorem converseSU_isSome (waits : Waits) (password : QByteArray) {pty : Pty}
    (free : NeverStuck pty) : (converseSU waits password pty).isSome := by
  rw [converseSU, Option.isSome_map]
  exact listenTo_isSome (hearSU_ends waits password) free (Nat.lt_succ_self _) _

theorem follow_of_converseSU {waits : Waits} {password : QByteArray} {pty left : Pty}
    {ret : SuErrors} {written : List Bytes}
    (returns : converseSU waits password pty = some (ret, written, left)) :
    follow (hearSU waits password) ⟨.WaitForPrompt, 0⟩ pty.lines = some (ret, written) := by
  obtain ⟨⟨ret', written', left'⟩, listened, equal⟩ := Option.map_eq_some_iff.mp returns
  cases equal
  exact follow_of_listenTo (hearSU_ends waits password) listened

theorem follow_of_converseStub {sys : Surroundings} {p : StubProcess} {check : Bool}
    {pty left : Pty} {ret : Int} {written : List Bytes}
    (returns : converseStub sys p check pty = some (ret, written, left)) :
    follow (hearStub sys p check) .greeting pty.lines = some (ret, written) :=
  follow_of_listenTo (hearStub_ends sys p check) returns

/-- The pty behind the line on which `converseSU` returns `ok`, with that line put back. -/
def resumedUpTo : Nat → Pty → Option Pty
  | 0, _ => none
  | fuel + 1, p =>
      match p.readLine true with
      | (none, _) => none
      | (some line, p) =>
          if line = ascii "kdesu_stub" then some (p.unreadLine line) else resumedUpTo fuel p

def resumed (p : Pty) : Option Pty := resumedUpTo (p.rest.length + 1) p

theorem hearSU_ok_iff (waits : Waits) (password : QByteArray) (s : SuLoop) (line : QByteArray) :
    (hearSU waits password s line).1 = .inr .ok ↔ line = some (ascii "kdesu_stub") := by
  constructor
  · intro ok
    by_contra other
    cases line with
    | none =>
      simp only [hearSU] at ok
      split_ifs at ok <;> cases ok
    | some line =>
      have unlike : line ≠ ascii "kdesu_stub" := fun same => other (congrArg some same)
      simp only [hearSU, if_neg unlike] at ok
      revert ok
      repeat' split
      all_goals simp
  · rintro rfl
    have plain : contains (ascii "kdesu_stub") [58] = false := by decide
    simp [hearSU, plain]

private theorem resumed_of_ok {waits : Waits} {password : QByteArray} {fuel : Nat} {s : SuLoop}
    {p p' : Pty} {written : List Bytes}
    (returns : listenTo (hearSU waits password) fuel s p = some (.ok, written, p')) :
    resumedUpTo fuel p = some (p'.unreadLine (ascii "kdesu_stub")) := by
  induction fuel generalizing s p written with
  | zero => cases returns
  | succ fuel ih =>
    rcases taken : p.readLine true with ⟨line, q⟩
    rcases heard : hearSU waits password s line with ⟨s' | ret, said⟩
    · simp only [listenTo, taken, heard, Option.map_eq_some_iff, Prod.exists] at returns
      obtain ⟨ret, later, left, listened, equal⟩ := returns
      cases equal
      cases line with
      | none => cases congrArg Prod.fst heard
      | some line =>
        have other : line ≠ ascii "kdesu_stub" := by
          rintro rfl
          have ok := (hearSU_ok_iff waits password s _).mpr rfl
          rw [heard] at ok
          cases ok
        simp only [resumedUpTo, taken, if_neg other]
        exact ih listened
    · simp only [listenTo, taken, heard, Option.some.injEq, Prod.mk.injEq] at returns
      obtain ⟨rfl, rfl, rfl⟩ := returns
      obtain rfl := (hearSU_ok_iff waits password s line).mp (congrArg Prod.fst heard)
      simp only [resumedUpTo, taken, if_true]

/-- What a listener hears of a pty: how much there is at most, and the lines. -/
def Pty.heard (p : Pty) : Nat × List Bytes := (p.rest.length + 1, p.lines)

/-- The two conversations as functions of what they hear: the lines of `converseSU`, and from the
stub's line on those that come after it was put back. -/
theorem converseBoth_eq (sys : Surroundings) (p : StubProcess) (check : Bool) (waits : Waits)
    (password : QByteArray) (pty : Pty) :
    converseBoth sys p check waits password pty =
      (followUpTo (hearSU waits password) (pty.rest.length + 1) ⟨.WaitForPrompt, 0⟩
          pty.lines).bind fun (ret, written) =>
        if ret = .ok then
          ((resumed pty).map Pty.heard).bind fun (most, lines) =>
            (followUpTo (hearStub sys p check) most .greeting lines).map fun (ret', later) =>
              (ret, some ret', written ++ later)
        else some (ret, none, written) := by
  have followed := listenTo_eq_followUpTo (hearSU_ends waits password) (pty.rest.length + 1) pty
    ⟨.WaitForPrompt, 0⟩
  rw [Pty.lines, ← followed]
  cases returns : listenTo (hearSU waits password) (pty.rest.length + 1) ⟨.WaitForPrompt, 0⟩ pty
    with
  | none => simp only [converseBoth, converseSU, returns, Option.map_none, Option.bind_none]
  | some r =>
    obtain ⟨ret, written, left⟩ := r
    simp only [converseBoth, converseSU, returns, Option.map_some, Option.bind_some]
    split_ifs with ok
    · subst ok
      have put_back : resumed pty = some (left.unreadLine (ascii "kdesu_stub")) :=
        resumed_of_ok returns
      have stub := listenTo_eq_followUpTo (hearStub_ends sys p check)
        ((left.unreadLine (ascii "kdesu_stub")).rest.length + 1)
        (left.unreadLine (ascii "kdesu_stub")) .greeting
      rw [put_back, Option.map_some, Option.bind_some, Pty.heard, Pty.lines, ← stub,
        Option.map_map]
      rfl
    · rfl

/-- What `converseStub` returns and writes when the child writes in these pieces. -/
def stubResult (sys : Surroundings) (p : StubProcess) (check : Bool) (reads : List Bytes) :
    Option (Int × List Bytes) :=
  (converseStub sys p check (.new reads)).map fun r => (r.1, r.2.1)

theorem stubResult_eq (sys : Surroundings) (p : StubProcess) (check : Bool) (reads : List Bytes) :
    stubResult sys p check reads =
      followUpTo (hearStub sys p check) (reads.flatten.length + 1) .greeting
        (Pty.new reads).lines :=
  listenTo_eq_followUpTo (hearStub_ends sys p check) _ _ _

/-- Pieces that give the stream, none longer than one `read` asks for. -/
structure Cut (stream : Bytes) (reads : List Bytes) : Prop where
  whole : reads.flatten = stream
  small : ∀ piece ∈ reads, piece.length ≤ 0x8000

theorem Cut.rest {stream : Bytes} {reads : List Bytes} (cut : Cut stream reads) :
    (Pty.new reads).rest = stream := cut.whole

/-- In both cuts `readLine` gives the same lines, also after the stub's line was put back, with as
much behind it. -/
structure SameLines (reads reads' : List Bytes) : Prop where
  lines : (Pty.new reads).lines = (Pty.new reads').lines
  resumed : (resumed (.new reads)).map Pty.heard = (resumed (.new reads')).map Pty.heard

private theorem linesUpTo_of_atLineEnds {fuel : Nat} {p q : Pty} (ends : p.AtLineEnds)
    (ends' : q.AtLineEnds) (short : p.rest.length < 2 ^ 31) (same : p.rest = q.rest) :
    linesUpTo fuel p = linesUpTo fuel q := by
  induction fuel generalizing p q with
  | zero => rfl
  | succ fuel ih =>
    obtain ⟨l, p', q', taken, taken', later, later', rest⟩ :=
      readLine_step_alike ends ends' short same
    cases l with
    | none => simp only [linesUpTo, taken, taken']
    | some l =>
      obtain ⟨-, split, left⟩ := rest l rfl
      have shorter := (rest_suffix_of_taken taken).length_le
      simp only [linesUpTo, taken, taken']
      rw [ih later later' (by omega) left]

private theorem resumedUpTo_of_atLineEnds {fuel : Nat} {p q : Pty} (ends : p.AtLineEnds)
    (ends' : q.AtLineEnds) (short : p.rest.length < 2 ^ 31) (same : p.rest = q.rest) :
    (resumedUpTo fuel p).map Pty.heard = (resumedUpTo fuel q).map Pty.heard := by
  induction fuel generalizing p q with
  | zero => rfl
  | succ fuel ih =>
    obtain ⟨l, p', q', taken, taken', later, later', rest⟩ :=
      readLine_step_alike ends ends' short same
    cases l with
    | none => simp only [resumedUpTo, taken, taken', Option.map_none]
    | some l =>
      obtain ⟨-, split, left⟩ := rest l rfl
      have shorter := (rest_suffix_of_taken taken).length_le
      simp only [resumedUpTo, taken, taken']
      split_ifs
      · have whole : (p'.unreadLine l).rest = p.rest := by rw [Pty.rest_unreadLine, split]
        have unread : (p'.unreadLine l).rest = (q'.unreadLine l).rest := by
          simp only [Pty.rest_unreadLine, left]
        rw [Option.map_some, Option.map_some, Pty.heard, Pty.heard, Pty.lines, Pty.lines, ← unread]
        exact congrArg (fun lines => some ((p'.unreadLine l).rest.length + 1, lines))
          (linesUpTo_of_atLineEnds (later.unreadLine l) (later'.unreadLine l) (whole ▸ short)
            unread)
      · exact ih later later' (by omega) left

theorem sameLines_of_ended {stream : Bytes} {reads reads' : List Bytes} (cut : Cut stream reads)
    (cut' : Cut stream reads') (short : stream.length < 2 ^ 31)
    (ended : ∀ piece ∈ reads, Ended piece) (ended' : ∀ piece ∈ reads', Ended piece) :
    SameLines reads reads' := by
  have ends : (Pty.new reads).AtLineEnds := ⟨ended_nil, ended⟩
  have ends' : (Pty.new reads').AtLineEnds := ⟨ended_nil, ended'⟩
  have same : (Pty.new reads).rest = (Pty.new reads').rest := cut.whole.trans cut'.whole.symm
  have bounded : (Pty.new reads).rest.length < 2 ^ 31 := cut.rest.symm ▸ short
  constructor
  · rw [Pty.lines, Pty.lines, same]
    exact linesUpTo_of_atLineEnds ends ends' bounded same
  · rw [resumed, resumed, same]
    exact resumedUpTo_of_atLineEnds ends ends' bounded same

def singles (s : Bytes) : List Bytes := s.map fun c => [c]

theorem flatten_singles (s : Bytes) : (singles s).flatten = s := by
  induction s with
  | nil => rfl
  | cons c s ih => rw [singles, List.map_cons, List.flatten_cons, ← singles, ih]; rfl

theorem singles_small (s : Bytes) : ∀ piece ∈ singles s, piece.length ≤ 0x8000 := by
  intro piece member
  obtain ⟨c, -, rfl⟩ := List.mem_map.mp member
  simp

private theorem readLine_piece {c : UInt8} {piece : Bytes} (free : newline ∉ c :: piece)
    (reads : List Bytes) :
    (Pty.new ((c :: piece) :: reads)).readLine true = (some (c :: piece), .new reads) :=
  congrArg (fun r : QByteArray × Bytes => (r.1, (⟨r.2, reads⟩ : Pty)))
    (cutLine_of_free free (List.cons_ne_nil c piece))

private theorem readLine_single (c : UInt8) (reads : List Bytes) :
    (Pty.new ([c] :: reads)).readLine true =
      (some (if c = newline then [] else [c]), .new reads) := by
  by_cases here : c = newline
  · subst here
    rfl
  · rw [if_neg here]
    exact readLine_piece (by simpa using Ne.symm here) reads

private theorem neverStuck_singles (s : Bytes) : NeverStuck (.new (singles s)) := by
  intro q reached
  obtain ⟨later, rfl⟩ : ∃ later, q = .new (singles later) := by
    induction reached with
    | refl => exact ⟨s, rfl⟩
    | tail _ takes ih =>
      obtain ⟨later, rfl⟩ := ih
      obtain ⟨line, taken⟩ := takes
      cases later with
      | nil => cases taken
      | cons c later =>
        have single := readLine_single c (singles later)
        exact ⟨later, (congrArg Prod.snd (single.symm.trans taken)).symm⟩
  apply stuck_free_of_short
  cases later <;> simp [Pty.readAll, Pty.new, singles, Reading.read]

private theorem listenTo_singles (sys : Surroundings) (p : StubProcess) (check : Bool) (s : Bytes)
    (reads : List Bytes) (fuel : Nat) :
    listenTo (hearStub sys p check) (s.length + fuel) .greeting (.new (singles s ++ reads)) =
      listenTo (hearStub sys p check) fuel .greeting (.new reads) := by
  induction s with
  | nil => rw [List.length_nil, Nat.zero_add]; rfl
  | cons c s ih =>
    have other : (if c = newline then [] else [c]) ≠ ascii "kdesu_stub" := by
      split_ifs <;> simp [ascii]
    have more : (c :: s).length + fuel = s.length + fuel + 1 := by
      rw [List.length_cons]
      omega
    have first : singles (c :: s) ++ reads = [c] :: (singles s ++ reads) := rfl
    simp only [more, first, listenTo, readLine_single, hearStub, if_neg other, ih]
    cases listenTo (hearStub sys p check) fuel .greeting (.new reads) <;> rfl

private theorem stubResult_singles (sys : Surroundings) (p : StubProcess) (check : Bool)
    (s : Bytes) : stubResult sys p check (singles s) = some (-1, []) := by
  have length : (Pty.new (singles s)).rest.length + 1 = s.length + 1 := by
    rw [Pty.rest, Pty.new, List.nil_append, flatten_singles]
  have none_left := listenTo_singles sys p check s [] 1
  rw [List.append_nil] at none_left
  rw [stubResult, converseStub, length, none_left]
  rfl

def isolated (before after : Bytes) : List Bytes :=
  singles before ++ ascii "kdesu_stub" :: singles after

private theorem isolated_cut {stream before after : Bytes}
    (split : before ++ ascii "kdesu_stub" ++ after = stream) :
    Cut stream (isolated before after) where
  whole := by
    rw [isolated, List.flatten_append, List.flatten_cons, flatten_singles, flatten_singles,
      ← List.append_assoc, split]
  small := by
    intro piece member
    rcases List.mem_append.mp member with old | member
    · exact singles_small before piece old
    · rcases List.mem_cons.mp member with rfl | new
      · decide
      · exact singles_small after piece new

private theorem stubResult_isolated (sys : Surroundings) (p : StubProcess) (check : Bool)
    (before after : Bytes) :
    ∃ ret later, stubResult sys p check (isolated before after) = some (ret,
      writeLine (if check then ascii "stop" else ascii "ok") ++ later) := by
  have length : (Pty.new (isolated before after)).rest.length + 1 =
      before.length + (after.length + 10 + 1) := by
    have stub : (ascii "kdesu_stub").length = 10 := by decide
    rw [Pty.rest, Pty.new, List.nil_append, (isolated_cut rfl).whole, List.length_append,
      List.length_append, stub]
    omega
  have taken : (Pty.new (ascii "kdesu_stub" :: singles after)).readLine true =
      (some (ascii "kdesu_stub"), .new (singles after)) :=
    readLine_piece (by decide) _
  have enough : (Pty.new (singles after)).rest.length < after.length + 10 := by
    rw [Pty.rest, Pty.new, List.nil_append, flatten_singles]
    omega
  obtain ⟨⟨ret, later, left⟩, served⟩ := Option.isSome_iff_exists.mp
    (listenTo_isSome (hearStub_ends sys p check) (neverStuck_singles after) enough .serving)
  refine ⟨ret, later, ?_⟩
  rw [stubResult, converseStub, length, isolated, listenTo_singles]
  generalize after.length + 10 = fuel at served
  simp only [listenTo, taken, hearStub, if_true, served, Option.map_some]

private theorem linesUpTo_infix {fuel : Nat} {p : Pty} :
    ∀ line ∈ linesUpTo fuel p, line <:+: p.rest := by
  induction fuel generalizing p with
  | zero => simp [linesUpTo]
  | succ fuel ih =>
    rcases taken : p.readLine true with ⟨line, p'⟩
    cases line with
    | none => simp [linesUpTo, taken]
    | some line =>
      intro line' member
      simp only [linesUpTo, taken] at member
      rcases List.mem_cons.mp member with rfl | later
      · exact line_infix_of_taken taken
      · exact (ih line' later).trans (rest_suffix_of_taken taken).isInfix

private theorem follow_unheard (sys : Surroundings) (p : StubProcess) (check : Bool)
    {lines : List Bytes} (absent : ascii "kdesu_stub" ∉ lines) :
    follow (hearStub sys p check) .greeting lines = some (-1, []) := by
  induction lines with
  | nil => rfl
  | cons line lines ih =>
    have other : line ≠ ascii "kdesu_stub" := by
      rintro rfl
      exact absent List.mem_cons_self
    simp only [follow, hearStub, if_neg other]
    rw [ih fun member => absent (List.mem_cons_of_mem line member)]
    rfl

/-- Where `readLine` is stuck, it stays stuck, and `converseStub` does not return. -/
private theorem listenTo_stuck (sys : Surroundings) (p : StubProcess) (check : Bool) {pty : Pty}
    (stuck : Stuck (pty.readAll true).1) (absent : ¬ascii "kdesu_stub" <:+: pty.rest) (fuel : Nat) :
    listenTo (hearStub sys p check) fuel .greeting pty = none := by
  induction fuel generalizing pty with
  | zero => rfl
  | succ fuel ih =>
    obtain ⟨got, reads, gives, all⟩ := readAll_rest pty
    rw [gives] at stuck
    have taken : pty.readLine true = (some (got.take (newlineAt got).toNat), ⟨got, reads⟩) := by
      simp only [Pty.readLine, gives, cutLine_of_stuck stuck]
    have other : got.take (newlineAt got).toNat ≠ ascii "kdesu_stub" :=
      fun same => absent (same ▸ line_infix_of_taken taken)
    have later : ¬ascii "kdesu_stub" <:+: (⟨got, reads⟩ : Pty).rest := by
      rwa [all] at absent
    have again : Stuck ((⟨got, reads⟩ : Pty).readAll true).1 := stuck.append _
    simp only [listenTo, taken, hearStub, if_neg other, ih again later, Option.map_none]

private theorem listenTo_reached (sys : Surroundings) (p : StubProcess) (check : Bool)
    {pty stuck : Pty} (reached : Relation.ReflTransGen Takes pty stuck)
    (wedged : Stuck (stuck.readAll true).1) (absent : ¬ascii "kdesu_stub" <:+: pty.rest)
    (fuel : Nat) : listenTo (hearStub sys p check) fuel .greeting pty = none := by
  induction reached using Relation.ReflTransGen.head_induction_on generalizing fuel with
  | refl => exact listenTo_stuck sys p check wedged absent fuel
  | head takes _ ih =>
    obtain ⟨line, taken⟩ := takes
    have other : line ≠ ascii "kdesu_stub" :=
      fun same => absent (same ▸ line_infix_of_taken taken)
    have later := ih fun names => absent (names.trans (rest_suffix_of_taken taken).isInfix)
    cases fuel with
    | zero => rfl
    | succ fuel =>
      simp only [listenTo, taken, hearStub, if_neg other, later fuel, Option.map_none]

/-- A stream that does not name the stub comes to nothing, unless `readLine` gets stuck. -/
private theorem stubResult_unheard (sys : Surroundings) (p : StubProcess) (check : Bool)
    {stream : Bytes} (absent : ¬ascii "kdesu_stub" <:+: stream) {reads : List Bytes}
    (cut : Cut stream reads) (free : NeverStuck (.new reads)) :
    stubResult sys p check reads = some (-1, []) := by
  obtain ⟨⟨ret, written, left⟩, returns⟩ :=
    Option.isSome_iff_exists.mp (converseStub_isSome sys p check free)
  have unheard : ascii "kdesu_stub" ∉ (Pty.new reads).lines :=
    fun member => absent (cut.rest ▸ linesUpTo_infix _ member)
  have followed := follow_of_converseStub returns
  rw [follow_unheard sys p check unheard] at followed
  rw [stubResult, returns, Option.map_some, followed]

private theorem alike_of_sameLines {stream : Bytes} {reads reads' : List Bytes}
    (sys : Surroundings) (p : StubProcess) (check : Bool) (cut : Cut stream reads)
    (cut' : Cut stream reads') (same : SameLines reads reads') :
    stubResult sys p check reads = stubResult sys p check reads' ∧
      ∀ waits password, converseBoth sys p check waits password (.new reads) =
        converseBoth sys p check waits password (.new reads') := by
  refine ⟨?_, fun waits password => ?_⟩
  · rw [stubResult_eq, stubResult_eq, cut.whole, cut'.whole, same.lines]
  · rw [converseBoth_eq, converseBoth_eq, cut.rest, cut'.rest, same.lines, same.resumed]

/-- All cuts of a stream come to the same for `converseStub` exactly if the stream does not name
the stub and `readLine` is stuck in none of them, as it never is on less than 2^31 bytes; and cuts
in which `readLine` gives the same lines come to the same, for `converseStub` and for `converseSU`
followed by it. -/
theorem conversations_alike_iff (sys : Surroundings) (p : StubProcess) (check : Bool)
    (stream : Bytes) :
    ((∀ reads reads', Cut stream reads → Cut stream reads' →
        stubResult sys p check reads = stubResult sys p check reads') ↔
      ¬ascii "kdesu_stub" <:+: stream ∧ ∀ reads, Cut stream reads → NeverStuck (.new reads)) ∧
    (stream.length < 2 ^ 31 → ∀ reads, Cut stream reads → NeverStuck (.new reads)) ∧
    ∀ reads reads', Cut stream reads → Cut stream reads' → SameLines reads reads' →
      stubResult sys p check reads = stubResult sys p check reads' ∧
      ∀ waits password, converseBoth sys p check waits password (.new reads) =
        converseBoth sys p check waits password (.new reads') := by
  refine ⟨⟨fun alike => ?_, ?_⟩, ?_, ?_⟩
  · have apart : Cut stream (singles stream) := ⟨flatten_singles stream, singles_small stream⟩
    have absent : ¬ascii "kdesu_stub" <:+: stream := by
      rintro ⟨before, after, split⟩
      obtain ⟨ret, later, heard⟩ := stubResult_isolated sys p check before after
      have same := alike _ _ apart (isolated_cut split)
      rw [stubResult_singles, heard] at same
      cases check <;> simp [writeLine, ascii] at same
    refine ⟨absent, fun reads cut q reached stuck => ?_⟩
    have same := alike _ _ apart cut
    rw [stubResult_singles, stubResult, converseStub,
      listenTo_reached sys p check reached stuck (cut.rest.symm ▸ absent)] at same
    cases same
  · rintro ⟨absent, free⟩ reads reads' cut cut'
    rw [stubResult_unheard sys p check absent cut (free reads cut),
      stubResult_unheard sys p check absent cut' (free reads' cut')]
  · exact fun short reads cut => neverStuck_of_short (cut.rest.symm ▸ short)
  · exact fun reads reads' cut cut' same => alike_of_sameLines sys p check cut cut' same

def surroundings : Surroundings := ⟨ascii ":0", [], ascii "/bin", 4711⟩

def listing : StubProcess := StubProcess.new.setCommand (ascii "ls")

theorem conversations_alike_iff_userRequest :
    stubResult surroundings listing false [ascii "kdesu_stub\nuser\n", ascii "end\n"] =
        stubResult surroundings listing false [ascii "kdesu_stub\n", ascii "user\nend\n"] ∧
      ∀ waits password,
        converseBoth surroundings listing false waits password
            (.new [ascii "kdesu_stub\nuser\n", ascii "end\n"]) =
          converseBoth surroundings listing false waits password
            (.new [ascii "kdesu_stub\n", ascii "user\nend\n"]) :=
  (conversations_alike_iff surroundings listing false (ascii "kdesu_stub\nuser\nend\n")).2.2 _ _
    ⟨by decide +kernel, by decide +kernel⟩ ⟨by decide +kernel, by decide +kernel⟩
    ⟨by decide +kernel, by decide +kernel⟩

/-- The stub's name in two pieces is not heard. -/
theorem divided_name_unheard : ¬∀ sys p check stream reads reads', Cut stream reads →
    Cut stream reads' → stubResult sys p check reads = stubResult sys p check reads' := by
  intro alike
  have same := alike surroundings listing false (ascii "kdesu_stub\nend\n")
    [ascii "kdesu_stub\nend\n"] [ascii "kdesu_", ascii "stub\nend\n"]
    ⟨by decide +kernel, by decide +kernel⟩ ⟨by decide +kernel, by decide +kernel⟩
  exact absurd same (by decide +kernel)

end KDESu.Process.Conversing
