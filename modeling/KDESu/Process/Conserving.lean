/- KDESu/Process/Conserving
   source: src/ptyprocess.cpp
   digest: What readAll, readLine and unreadLine keep of the pty's bytes over any calls. -/

import KDESu.Library.Histories
import KDESu.Process.Reading

set_option autoImplicit false
set_option relaxedAutoImplicit false

namespace KDESu.Process.Conserving

open KDESu.ByteArrays
open KDESu.Library.Histories
open KDESu.Library.Separators
open KDESu.Process.Reading

/-- What `read` answers in the end: an error other than `EINTR`, or bytes, which are none when
there is nothing. -/
inductive ReadAnswer
  | failed
  | bytes (piece : Bytes)
  deriving DecidableEq, Repr

/-- The system calls of one `readAll`: `F_GETFL` fails or tells whether `O_NONBLOCK` is set,
`F_SETFL` fails or not, and `read` is interrupted some times before it answers. -/
structure SystemCalls where
  getfl : Option Bool
  setflFails : Bool
  interrupts : Nat
  answer : ReadAnswer
  deriving DecidableEq, Repr

def readLoop : Nat → ReadAnswer → Bytes
  | interrupts + 1, answer => readLoop interrupts answer
  | 0, .failed => []
  | 0, .bytes piece => piece

def received (block : Bool) (sys : SystemCalls) : Bytes :=
  match sys.getfl with
  | none => []
  | some nonblock =>
      if (!block) ≠ nonblock ∧ sys.setflFails = true then []
      else readLoop sys.interrupts sys.answer

/-- `readAll` does not block while there is something in the buffer. -/
def blocks (block : Bool) (inputBuffer : Bytes) : Bool := block && inputBuffer.isEmpty

def readAll (block : Bool) (sys : SystemCalls) (inputBuffer : Bytes) : Bytes × Bytes :=
  (inputBuffer ++ received (blocks block inputBuffer) sys, [])

def readLine (block : Bool) (sys : SystemCalls) (inputBuffer : Bytes) : QByteArray × Bytes :=
  Pty.cutLine (readAll block sys inputBuffer).1

def unreadLine (line : Bytes) (addnl : Bool) (inputBuffer : Bytes) : Bytes :=
  let tmp := if addnl then line ++ [newline] else line
  if tmp = [] then inputBuffer else tmp ++ inputBuffer

def giving (piece : Bytes) : SystemCalls := ⟨some false, false, 0, .bytes piece⟩

theorem received_giving (block : Bool) (piece : Bytes) : received block (giving piece) = piece := by
  simp [received, giving, readLoop]

theorem readLine_pty (block : Bool) (p : Pty) :
    p.readLine block =
      let (piece, reads) := read (blocks block p.inputBuffer) p.reads
      ((readLine block (giving piece) p.inputBuffer).1,
        ⟨(readLine block (giving piece) p.inputBuffer).2, reads⟩) := by
  simp only [Pty.readLine, Pty.readAll, readLine, readAll, received_giving]
  rfl

theorem unreadLine_pty (line : Bytes) (p : Pty) :
    (p.unreadLine line).inputBuffer = unreadLine line true p.inputBuffer := by
  simp [Pty.unreadLine, unreadLine]

inductive Call
  | readAll (block : Bool) (sys : SystemCalls)
  | readLine (block : Bool) (sys : SystemCalls)
  | unreadLine (line : Bytes) (addnl : Bool)
  deriving DecidableEq, Repr

/-- What a call takes from the pty, what it gives its caller and takes out of the buffer with it,
and what it puts back. -/
structure Transfer where
  read : Bytes
  consumed : Bytes
  inserted : Bytes
  deriving DecidableEq, Repr

/-- The newline that `readLine` strips, if with its result it takes no more than a newline out of
the buffer. -/
def stripped (inputBuffer : Bytes) : Bytes :=
  let cut := Pty.cutLine inputBuffer
  if cut.1.data ++ newline :: cut.2 = inputBuffer then [newline] else []

def call (inputBuffer : Bytes) : Call → Bytes × Transfer
  | .readAll block sys =>
      let (ret, left) := readAll block sys inputBuffer
      (left, ⟨received (blocks block inputBuffer) sys, ret, []⟩)
  | .readLine block sys =>
      let (ret, left) := readLine block sys inputBuffer
      (left, ⟨received (blocks block inputBuffer) sys,
        ret.data ++ stripped (readAll block sys inputBuffer).1, []⟩)
  | .unreadLine line addnl =>
      (unreadLine line addnl inputBuffer, ⟨[], [], if addnl then line ++ [newline] else line⟩)

abbrev buffered (calls : List Call) : Bytes := run call [] calls

/-- The bytes consumed so far, and the bytes read from the pty with those put back among them. -/
structure Account where
  consumed : Bytes
  stream : Bytes
  deriving DecidableEq, Repr

/-- What is put back goes in front of what is not consumed. -/
def Account.enter (a : Account) (t : Transfer) : Account where
  consumed := a.consumed ++ t.consumed
  stream := a.stream.take a.consumed.length ++ t.inserted ++ a.stream.drop a.consumed.length ++
    t.read

def account (calls : List Call) : Account := (outputs call [] calls).foldl Account.enter ⟨[], []⟩

/-- An int can count the bytes of the first line with its newline, or takes their number for a
negative one, with which nothing is taken out of the buffer. -/
def Counted (inputBuffer : Bytes) : Prop :=
  newline ∈ inputBuffer → inputBuffer.idxOf newline + 1 < 2 ^ 31 ∨
    2 ^ 31 ≤ inputBuffer.idxOf newline % 2 ^ 32

def Countable (m : Moment Bytes Call) : Prop :=
  match m.event with
  | .readLine block sys => Counted (readAll block sys m.before).1
  | .readAll _ _ | .unreadLine _ _ => True

private theorem narrowed_of_low {pos : Nat} (low : pos % 2 ^ 32 < 2 ^ 31) :
    narrowed pos = (pos % 2 ^ 32 : Nat) := by
  rw [narrowed]
  omega

private theorem cutLine_of_uncounted {line later : Bytes} (free : newline ∉ line)
    (beyond : 2 ^ 31 ≤ line.length + 1) (low : line.length % 2 ^ 32 < 2 ^ 31) :
    Pty.cutLine (line ++ newline :: later) =
      (some (line.take (line.length % 2 ^ 32)),
        if line.length % 2 ^ 32 + 1 = 2 ^ 31 then line ++ newline :: later
        else line.drop (line.length % 2 ^ 32 + 1) ++ newline :: later) := by
  have more : line ++ newline :: later ≠ [] := List.append_ne_nil_of_right_ne_nil _ (by simp)
  have inside : line.length % 2 ^ 32 ≤ line.length := Nat.mod_le _ _
  rw [Pty.cutLine, if_neg more, newlineAt_of_line free, narrowed_of_low low,
    if_neg (by omega), Int.toNat_natCast, List.take_append_of_le_length inside]
  refine congrArg (Prod.mk _) ?_
  split_ifs with last
  · have wrapped : (narrowed (((line.length % 2 ^ 32 : Nat) : Int) + 1)).toNat = 0 := by
      rw [narrowed]
      omega
    rw [wrapped, List.drop_zero]
  · have exact_sum : (narrowed (((line.length % 2 ^ 32 : Nat) : Int) + 1)).toNat =
        line.length % 2 ^ 32 + 1 := by
      rw [narrowed_of_fits (by omega) (by omega)]
      omega
    rw [exact_sum, List.drop_append_of_le_length (by omega)]

private theorem uncounted_loses {front later : Bytes} (free : newline ∉ front)
    (beyond : 2 ^ 31 ≤ front.length + 1) (low : front.length % 2 ^ 32 < 2 ^ 31) :
    (Pty.cutLine (front ++ newline :: later)).1.data ++ stripped (front ++ newline :: later) ++
      (Pty.cutLine (front ++ newline :: later)).2 ≠ front ++ newline :: later := by
  intro whole
  have inside : front.length % 2 ^ 32 ≤ front.length := Nat.mod_le _ _
  have taken : (front.take (front.length % 2 ^ 32)).length = front.length % 2 ^ 32 :=
    List.length_take_of_le inside
  rw [stripped, cutLine_of_uncounted free beyond low] at whole
  simp only [QByteArray.data_some] at whole
  split_ifs at whole with last kept kept
  · have lengths := congrArg List.length kept
    simp only [List.length_append, List.length_cons, taken] at lengths
    omega
  · have lengths := congrArg List.length whole
    simp only [List.length_append, List.length_cons, List.length_nil, taken] at lengths
    omega
  · -- the byte that is lost would have to be the newline
    have missing : front[front.length % 2 ^ 32]? = some newline := by
      have there := congrArg (fun b => b[front.length % 2 ^ 32]?) kept
      rw [List.getElem?_append_right taken.le, taken, Nat.sub_self, List.getElem?_cons_zero,
        List.getElem?_append_left (by omega)] at there
      exact there.symm
    exact free (List.mem_of_getElem? missing)
  · have lengths := congrArg List.length whole
    simp only [List.length_append, List.length_cons, List.length_nil, List.length_drop, taken]
      at lengths
    omega

private theorem stripped_of_line {line : Bytes} (free : newline ∉ line)
    (short : line.length + 1 < 2 ^ 31) (later : Bytes) :
    stripped (line ++ newline :: later) = [newline] := by
  simp only [stripped, cutLine_of_line free short, QByteArray.data_some, if_true]

private theorem stripped_nil {inputBuffer : Bytes}
    (whole : (Pty.cutLine inputBuffer).1.data ++ (Pty.cutLine inputBuffer).2 = inputBuffer) :
    stripped inputBuffer = [] := by
  rw [stripped]
  refine if_neg fun more => ?_
  have lengths := congrArg List.length (more.trans whole.symm)
  simp only [List.length_append, List.length_cons] at lengths
  omega

private theorem conserves_of_whole {inputBuffer : Bytes}
    (whole : (Pty.cutLine inputBuffer).1.data ++ (Pty.cutLine inputBuffer).2 = inputBuffer) :
    (Pty.cutLine inputBuffer).1.data ++ stripped inputBuffer ++ (Pty.cutLine inputBuffer).2 =
      inputBuffer := by
  rw [stripped_nil whole, List.append_nil, whole]

private theorem cutLine_of_negative {line : Bytes} (free : newline ∉ line)
    (high : 2 ^ 31 ≤ line.length % 2 ^ 32) (later : Bytes) :
    Pty.cutLine (line ++ newline :: later) = (some (line ++ newline :: later), []) ∨
      Pty.cutLine (line ++ newline :: later) = (some [], line ++ newline :: later) := by
  have pos : newlineAt (line ++ newline :: later) = (line.length % 2 ^ 32 : Nat) - 2 ^ 32 := by
    rw [newlineAt_of_line free, narrowed]
    omega
  by_cases missed : newlineAt (line ++ newline :: later) = -1
  · have more : line ++ newline :: later ≠ [] := List.append_ne_nil_of_right_ne_nil _ (by simp)
    left
    rw [Pty.cutLine, if_neg more, if_pos missed]
  · have stuck : Stuck (line ++ newline :: later) := Or.inl (by omega)
    have none_taken : (newlineAt (line ++ newline :: later)).toNat = 0 := by omega
    right
    rw [cutLine_of_stuck stuck, none_taken, List.take_zero]

/-- A line, the newline stripped from it and what is left make up the buffer, exactly if the first
line can be counted. -/
theorem cutLine_conserves_iff (inputBuffer : Bytes) :
    (Pty.cutLine inputBuffer).1.data ++ stripped inputBuffer ++ (Pty.cutLine inputBuffer).2 =
      inputBuffer ↔ Counted inputBuffer := by
  by_cases member : newline ∈ inputBuffer
  · obtain ⟨line, later, rfl, free⟩ := List.eq_append_cons_of_mem member
    have pos : (line ++ newline :: later).idxOf newline = line.length := by
      rw [List.idxOf_append_of_notMem free, List.idxOf_cons_self, Nat.add_zero]
    rw [Counted, pos]
    by_cases short : line.length + 1 < 2 ^ 31
    · refine iff_of_true ?_ fun _ => Or.inl short
      rw [stripped_of_line free short, cutLine_of_line free short]
      simp
    · by_cases high : 2 ^ 31 ≤ line.length % 2 ^ 32
      · refine iff_of_true (conserves_of_whole ?_) fun _ => Or.inr high
        rcases cutLine_of_negative free high later with cut | cut
        · rw [cut]
          exact List.append_nil _
        · rw [cut]
          rfl
      · refine iff_of_false (uncounted_loses free (by omega) (by omega)) fun counted => ?_
        exact (counted member).elim short high
  · refine iff_of_true (conserves_of_whole ?_) fun there => absurd there member
    by_cases empty : inputBuffer = []
    · subst empty
      rfl
    · rw [cutLine_of_free member empty]
      exact List.append_nil _

theorem call_conserves_iff (inputBuffer : Bytes) (c : Call) :
    (call inputBuffer c).2.consumed ++ (call inputBuffer c).1 =
      (call inputBuffer c).2.inserted ++ inputBuffer ++ (call inputBuffer c).2.read ↔
      Countable ⟨inputBuffer, c⟩ := by
  cases c with
  | readAll block sys => simp [call, readAll, Countable]
  | readLine block sys =>
    have cut := cutLine_conserves_iff (readAll block sys inputBuffer).1
    simpa [call, readLine, readAll, Countable] using cut
  | unreadLine line addnl =>
    simp only [call, unreadLine, List.nil_append, List.append_nil, Countable, iff_true]
    generalize (if addnl = true then line ++ [newline] else line) = tmp
    split_ifs with nothing
    · rw [nothing, List.nil_append]
    · rfl

private theorem enter_conserves_iff {a : Account} {inputBuffer : Bytes} (c : Call)
    (before : a.consumed ++ inputBuffer = a.stream) :
    (a.enter (call inputBuffer c).2).consumed ++ (call inputBuffer c).1 =
      (a.enter (call inputBuffer c).2).stream ↔ Countable ⟨inputBuffer, c⟩ := by
  have front : a.stream.take a.consumed.length = a.consumed := before ▸ List.take_left' rfl
  have back : a.stream.drop a.consumed.length = inputBuffer := before ▸ List.drop_left' rfl
  simp only [Account.enter, front, back, List.append_assoc, List.append_cancel_left_eq]
  rw [← List.append_assoc (call inputBuffer c).2.inserted]
  exact call_conserves_iff inputBuffer c

theorem account_snoc (calls : List Call) (c : Call) :
    account (calls ++ [c]) = (account calls).enter (call (buffered calls) c).2 := by
  rw [account, outputs_append, List.foldl_append]
  rfl

/-- The bytes consumed and the buffer make up what was read and put back. -/
def Balanced (calls : List Call) : Prop :=
  (account calls).consumed ++ buffered calls = (account calls).stream

theorem balanced_snoc_iff (calls : List Call) (c : Call) (before : Balanced calls) :
    Balanced (calls ++ [c]) ↔ Countable ⟨buffered calls, c⟩ := by
  rw [Balanced, account_snoc, buffered, buffered, run_snoc]
  exact enter_conserves_iff c before

theorem cutLine_restored {inputBuffer line left : Bytes} (counted : Counted inputBuffer)
    (cut : Pty.cutLine inputBuffer = (some line, left))
    (complete : line ++ [newline] <+: inputBuffer) :
    line ++ newline :: left = inputBuffer := by
  have member : newline ∈ inputBuffer := complete.subset (by simp)
  have counted := counted member
  obtain ⟨front, later, rfl, free⟩ := List.eq_append_cons_of_mem member
  rw [List.idxOf_append_of_notMem free, List.idxOf_cons_self, Nat.add_zero] at counted
  rcases counted with short | high
  · rw [cutLine_of_line free short] at cut
    cases cut
    rfl
  · rcases cutLine_of_negative free high later with whole | nothing
    · rw [whole] at cut
      cases cut
      have lengths := complete.length_le
      simp only [List.length_append, List.length_singleton] at lengths
      omega
    · rw [nothing] at cut
      cases cut
      have empty : front = [] := by
        cases front with
        | nil => rfl
        | cons c front =>
          rw [List.nil_append, List.cons_append, List.cons_prefix_cons] at complete
          exact absurd (complete.1 ▸ List.mem_cons_self) free
      rw [empty, List.length_nil] at high
      omega

/-- Whenever some of these calls were made, no byte is lost, and a complete line that the next
call takes would restore the buffer if it were put back. -/
structure Conserved (calls : List Call) : Prop where
  balanced : ∀ pre, pre <+: calls → Balanced pre
  restored : ∀ pre block sys line, pre ++ [.readLine block sys] <+: calls →
    (readLine block sys (buffered pre)).1 = some line →
    line ++ [newline] <+: (readAll block sys (buffered pre)).1 →
    unreadLine line true (readLine block sys (buffered pre)).2 =
      (readAll block sys (buffered pre)).1

/-- Over all calls the bytes consumed and the buffer make up what was read and put back, and a
complete line that is put back at once restores the buffer, exactly if every `readLine` finds a
buffer that it can count. -/
theorem no_byte_lost_iff (calls : List Call) :
    Conserved calls ↔ ∀ m ∈ history call [] calls, Countable m := by
  have balance := fronts_iff_history (P := Balanced) rfl balanced_snoc_iff calls
  constructor
  · exact fun conserved => balance.mp conserved.balanced
  · refine fun met => ⟨balance.mpr met, fun pre block sys line front taken complete => ?_⟩
    have counted : Counted (readAll block sys (buffered pre)).1 :=
      met _ (mem_history_of_front call [] front)
    have cut := cutLine_restored counted (Prod.ext taken rfl) complete
    simpa [unreadLine, readLine] using cut

theorem counted_of_short {inputBuffer : Bytes} (short : inputBuffer.length < 2 ^ 31) :
    Counted inputBuffer := by
  intro member
  have inside := List.idxOf_lt_length_iff.mpr member
  omega

def backAndForth : List Call :=
  [.readLine true (giving (ascii "kdesu_stub\nus")), .unreadLine (ascii "kdesu_stub") true,
    .readLine false ⟨some true, false, 1, .failed⟩, .readAll true ⟨none, false, 0, .failed⟩]

example : (account backAndForth).stream = ascii "kdesu_stub\nkdesu_stub\nus" := by decide +kernel

def putBackAndRead (line : Bytes) : List Call :=
  [.unreadLine line true, .readLine false ⟨none, false, 0, .failed⟩]

theorem balanced_putBackAndRead_iff {line : Bytes} (free : newline ∉ line) :
    Balanced (putBackAndRead line) ↔
      (line.length + 1 < 2 ^ 31 ∨ 2 ^ 31 ≤ line.length % 2 ^ 32) := by
  have first : Balanced [.unreadLine line true] := (balanced_snoc_iff [] _ rfl).mpr trivial
  have found : (readAll false ⟨none, false, 0, .failed⟩ (buffered [.unreadLine line true])).1 =
      line ++ newline :: [] := by
    simp [buffered, run, call, unreadLine, readAll, received]
  have pos : (line ++ newline :: []).idxOf newline = line.length := by
    rw [List.idxOf_append_of_notMem free, List.idxOf_cons_self, Nat.add_zero]
  have member : newline ∈ line ++ newline :: [] := by simp
  refine (balanced_snoc_iff [.unreadLine line true] _ first).trans ?_
  change Counted (readAll false _ (buffered [.unreadLine line true])).1 ↔ _
  rw [found, Counted, pos]
  exact ⟨fun counted => counted member, fun fits _ => fits⟩

/-- Behind 2^32 + 5 bytes the newline is taken for one behind 5 bytes: 5 are returned, and 6 are
taken out of the buffer. -/
theorem overlong_line_loses_byte :
    ¬Conserved (putBackAndRead (List.replicate (2 ^ 32 + 5) 120)) := by
  intro conserved
  have free : newline ∉ List.replicate (2 ^ 32 + 5) (120 : UInt8) := fun member =>
    absurd (List.eq_of_mem_replicate member) (by decide)
  have balanced := conserved.balanced _ (List.prefix_refl _)
  rw [balanced_putBackAndRead_iff free, List.length_replicate] at balanced
  omega

end KDESu.Process.Conserving
