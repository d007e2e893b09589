/- KDESu/Process/Waiting
   source: src/ptyprocess.cpp
   digest: waitForChild beside the child it waits for, and the output that it copies. -/

import KDESu.Process.Exiting
import KDESu.Library.Histories

set_option autoImplicit false
set_option relaxedAutoImplicit false

namespace KDESu.Process.Waiting

open KDESu.ByteArrays
open KDESu.Library.Histories
open KDESu.Process.Exiting

structure Settings where
  m_terminal : Bool
  m_exitString : Bytes

/-- Where `waitForChild` is: before its `select`, in the loop that reads all there is, before
`checkPidExited`, or back. -/
inductive Phase
  | selecting | draining | checking
  | returned (ret : Int)
  deriving DecidableEq, Repr

/-- `waitForChild` with the child and the pty between them. Of the child's own are `child` and
`pending`, the bytes in the pty that nobody has read. -/
structure Watch where
  child : ChildState
  pending : Bytes
  inputBuffer : Bytes
  remainder : Bytes
  stdout : Bytes
  sigterms : Nat
  phase : Phase
  deriving DecidableEq, Repr

inductive Selected
  | ready | timeout | interrupted | failed
  deriving DecidableEq, Repr

/-- What happens next: the child writes or ends, or `waitForChild` makes its next system call. A
`read` gives as much as the kernel likes, `amount` bytes if it can. -/
inductive Move
  | write (bytes : Bytes)
  | finish (t : Termination)
  | select (answer : Selected)
  | read (amount : Nat)
  | readFails
  | wait
  deriving DecidableEq, Repr

/-- The loop that looks for the exit string at the starts of lines: how often it kills the child,
and the remainder. `off` is an int, and at its largest value, behind which it cannot count, the
source's loop removes nothing and does not end. The fuel bounds the lines. -/
def matchExit (exit : Bytes) : Nat → Bytes → Nat × Bytes
  | 0, remainder => (0, remainder)
  | fuel + 1, remainder =>
      if exit.length ≤ remainder.length then
        let (kills, remainder) :=
          if exit <+: remainder then (1, remainder.drop exit.length) else (0, remainder)
        let off := newlineAt remainder
        if off < 0 then (kills, remainder)
        else
          let (more, remainder) := matchExit exit fuel (remainder.drop (narrowed (off + 1)).toNat)
          (kills + more, remainder)
      else (0, remainder)

namespace Watch

def start (inputBuffer : Bytes) : Watch where
  child := .running
  pending := []
  inputBuffer := inputBuffer
  remainder := []
  stdout := []
  sigterms := 0
  phase := .selecting

/-- `select` times out only when the pty has nothing. -/
def selected (w : Watch) : Selected → Selected
  | .timeout => if w.pending = [] then .timeout else .ready
  | answer => answer

/-- A round of the reading loop with what `readAll(false)` returns. -/
def copy (settings : Settings) (w : Watch) (output : Bytes) : Watch :=
  let w := { w with inputBuffer := [] }
  if output = [] then { w with phase := .checking }
  else
    let w := if settings.m_terminal then { w with stdout := w.stdout ++ output } else w
    if settings.m_exitString = [] then w
    else
      let remainder := w.remainder ++ output
      let (kills, remainder) := matchExit settings.m_exitString (remainder.length + 1) remainder
      { w with remainder := remainder, sigterms := w.sigterms + kills }

/-- What a `read` that asks for 0x8000 bytes takes out of the pty. -/
def taken (amount : Nat) : Nat := max 1 (min amount 0x8000)

/-- A move; one that is not the turn of `waitForChild` or of the child does nothing. -/
def step (settings : Settings) (w : Watch) : Move → Watch × Unit
  | .write bytes =>
      (if w.child = .running then { w with pending := w.pending ++ bytes } else w, ())
  | .finish t => (if w.child = .running then { w with child := .zombie t } else w, ())
  | .select answer =>
      (if w.phase = .selecting then
        match w.selected answer with
        | .ready => { w with phase := .draining }
        | .timeout | .interrupted => { w with phase := .checking }
        | .failed => { w with phase := .returned (-1) }
      else w, ())
  | .read amount =>
      (if w.phase = .draining then
        copy settings { w with pending := w.pending.drop (taken amount) }
          (w.inputBuffer ++ w.pending.take (taken amount))
      else w, ())
  | .readFails => (if w.phase = .draining then copy settings w w.inputBuffer else w, ())
  | .wait =>
      (if w.phase = .checking then
        let (answer, child) := w.child.waitpid
        match verdict answer with
        | none => { w with child := child, phase := .selecting }
        | some ret => { w with child := child, phase := .returned ret }
      else w, ())

end Watch

abbrev after (settings : Settings) (inputBuffer : Bytes) (ms : List Move) : Watch :=
  run (Watch.step settings) (.start inputBuffer) ms

abbrev past (settings : Settings) (inputBuffer : Bytes) (ms : List Move) :
    List (Moment Watch Move) :=
  history (Watch.step settings) (.start inputBuffer) ms

section

variable (settings : Settings) (w : Watch) (output : Bytes)

@[simp] theorem copy_child : (w.copy settings output).child = w.child := by
  simp only [Watch.copy]
  split_ifs <;> rfl

@[simp] theorem copy_pending : (w.copy settings output).pending = w.pending := by
  simp only [Watch.copy]
  split_ifs <;> rfl

@[simp] theorem copy_inputBuffer : (w.copy settings output).inputBuffer = [] := by
  simp only [Watch.copy]
  split_ifs <;> rfl

theorem copy_phase :
    (w.copy settings output).phase = if output = [] then .checking else w.phase := by
  simp only [Watch.copy]
  split_ifs <;> rfl

theorem copy_stdout (terminal : settings.m_terminal = true) :
    (w.copy settings output).stdout = w.stdout ++ output := by
  simp only [Watch.copy, terminal, if_true]
  split_ifs with nothing
  · rw [nothing, List.append_nil]
  · rfl
  · rfl

end

theorem copy_live {settings : Settings} {w : Watch} {later output : Bytes}
    (here : w.phase = .draining) (ret : Int) :
    (({ w with pending := later } : Watch).copy settings output).phase ≠ .returned ret := by
  rw [copy_phase, here]
  split_ifs <;> simp

def Turn (w : Watch) : Move → Prop
  | .write _ | .finish _ => w.child = .running
  | .select _ => w.phase = .selecting
  | .read _ | .readFails => w.phase = .draining
  | .wait => w.phase = .checking

inductive Moved (settings : Settings) (w : Watch) : Move → Watch → Prop
  | idle {m : Move} (out : ¬Turn w m) : Moved settings w m w
  | write (running : w.child = .running) (bytes : Bytes) :
      Moved settings w (.write bytes) { w with pending := w.pending ++ bytes }
  | finish (running : w.child = .running) (t : Termination) :
      Moved settings w (.finish t) { w with child := .zombie t }
  | ready (here : w.phase = .selecting) {answer : Selected}
      (answered : answer = .ready ∨ answer = .timeout ∧ w.pending ≠ []) :
      Moved settings w (.select answer) { w with phase := .draining }
  | timeout (here : w.phase = .selecting) (nothing : w.pending = []) :
      Moved settings w (.select .timeout) { w with phase := .checking }
  | interrupted (here : w.phase = .selecting) :
      Moved settings w (.select .interrupted) { w with phase := .checking }
  | failed (here : w.phase = .selecting) :
      Moved settings w (.select .failed) { w with phase := .returned (-1) }
  | read (here : w.phase = .draining) (amount : Nat) :
      Moved settings w (.read amount)
        (({ w with pending := w.pending.drop (Watch.taken amount) } : Watch).copy settings
          (w.inputBuffer ++ w.pending.take (Watch.taken amount)))
  | readFails (here : w.phase = .draining) :
      Moved settings w .readFails (w.copy settings w.inputBuffer)
  | runs (here : w.phase = .checking) (running : w.child = .running) :
      Moved settings w .wait { w with phase := .selecting }
  | reaped (here : w.phase = .checking) {t : Termination} (zombie : w.child = .zombie t) :
      Moved settings w .wait { w with child := .gone t, phase := .returned t.verdict }
  | lost (here : w.phase = .checking) {t : Termination} (gone : w.child = .gone t) :
      Moved settings w .wait { w with phase := .returned 0 }

theorem moved_step (settings : Settings) (w : Watch) (m : Move) :
    Moved settings w m (w.step settings m).1 := by
  by_cases turn : Turn w m
  · cases m with
    | write bytes =>
      have running : w.child = .running := turn
      simp only [Watch.step, if_pos running]
      exact .write running bytes
    | finish t =>
      have running : w.child = .running := turn
      simp only [Watch.step, if_pos running]
      exact .finish running t
    | select answer =>
      have here : w.phase = .selecting := turn
      simp only [Watch.step, if_pos here]
      cases answer with
      | ready => exact .ready here (Or.inl rfl)
      | timeout =>
        by_cases nothing : w.pending = []
        · simp only [Watch.selected, if_pos nothing]
          exact .timeout here nothing
        · simp only [Watch.selected, if_neg nothing]
          exact .ready here (Or.inr ⟨rfl, nothing⟩)
      | interrupted => exact .interrupted here
      | failed => exact .failed here
    | read amount =>
      have here : w.phase = .draining := turn
      simp only [Watch.step, if_pos here]
      exact .read here amount
    | readFails =>
      have here : w.phase = .draining := turn
      simp only [Watch.step, if_pos here]
      exact .readFails here
    | wait =>
      have here : w.phase = .checking := turn
      obtain ⟨child, pending, inputBuffer, remainder, stdout, sigterms, phase⟩ := w
      simp only [Watch.step, if_pos here]
      cases child with
      | running => exact .runs here rfl
      | zombie t =>
        simp only [ChildState.waitpid, verdict_status]
        exact .reaped here rfl
      | gone t => exact .lost here rfl
  · have still : (w.step settings m).1 = w := by
      cases m <;> exact if_neg turn
    rw [still]
    exact .idle turn

/-- `waitForChild` has returned because the child has ended. -/
def Waited (w : Watch) (t : Termination) (ret : Int) : Prop :=
  w.child = .gone t ∧ w.phase = .returned ret

/-- The child is waited for in the step that returns, and its end decides what is returned. -/
structure Sound (w : Watch) : Prop where
  returned : ∀ ret, w.phase = .returned ret →
    ret = -1 ∨ ∃ t, w.child = .gone t ∧ ret = t.verdict
  gone : ∀ t, w.child = .gone t → w.phase = .returned t.verdict

private theorem sound_of_idle {w w' : Watch} (sound : Sound w)
    (child : ∀ t, w'.child = .gone t ↔ w.child = .gone t) (phase : w'.phase = w.phase) :
    Sound w' where
  returned ret back := by
    rw [phase] at back
    rcases sound.returned ret back with failed | ⟨t, gone, value⟩
    · exact Or.inl failed
    · exact Or.inr ⟨t, (child t).mpr gone, value⟩
  gone t gone := by
    rw [phase]
    exact sound.gone t ((child t).mp gone)

private theorem sound_of_alive {w : Watch} (phase : ∀ ret, w.phase ≠ .returned ret)
    (child : ∀ t, w.child ≠ .gone t) : Sound w where
  returned ret back := absurd back (phase ret)
  gone t gone := absurd gone (child t)

private theorem sound_copy (settings : Settings) {w : Watch} (here : w.phase = .draining)
    (child : ∀ t, w.child ≠ .gone t) (later output : Bytes) :
    Sound (({ w with pending := later } : Watch).copy settings output) :=
  sound_of_alive (copy_live here) (by simpa using child)

private theorem sound_step (settings : Settings) {w : Watch} (sound : Sound w) (m : Move) :
    Sound (w.step settings m).1 := by
  have alive (here : ∀ ret, w.phase ≠ .returned ret) (t : Termination) : w.child ≠ .gone t :=
    fun gone => here _ (sound.gone t gone)
  have moved := moved_step settings w m
  generalize (w.step settings m).1 = w' at moved ⊢
  cases moved with
  | idle => exact sound
  | write => exact sound_of_idle sound (fun t => Iff.rfl) rfl
  | finish running t => exact sound_of_idle sound (fun t' => by simp [running]) rfl
  | ready here | timeout here | interrupted here | runs here =>
    exact sound_of_alive (fun ret => by simp) (alive (by simp [here]))
  | failed here =>
    refine ⟨fun ret back => ?_, fun t gone => absurd gone (alive (by simp [here]) t)⟩
    cases back
    exact Or.inl rfl
  | read here amount => exact sound_copy settings here (alive (by simp [here])) _ _
  | readFails here => exact sound_copy settings here (alive (by simp [here])) w.pending _
  | @reaped here t zombie =>
    refine ⟨fun ret back => ?_, fun t' gone => ?_⟩
    · cases back
      exact Or.inr ⟨t, rfl, rfl⟩
    · cases gone
      rfl
  | @lost here t gone => exact absurd (here.symm.trans (sound.gone t gone)) (by simp)

/-- In every state reached, `waitForChild` has returned -1 for a failed `select`, or what the end
of the child says. -/
theorem sound_after (settings : Settings) (inputBuffer : Bytes) (ms : List Move) :
    Sound (after settings inputBuffer ms) := by
  refine invariant_run (I := Sound) ?_ (fun w m sound => sound_step settings sound m) ms
  exact ⟨fun ret back => (by cases back), fun t gone => (by cases gone)⟩

def EndedBy (w : Watch) (t : Termination) : Prop := w.child = .zombie t ∨ w.child = .gone t

theorem child_step (settings : Settings) (w : Watch) (m : Move) :
    (w.step settings m).1.child =
      match m with
      | .finish t => if w.child = .running then .zombie t else w.child
      | .wait => if w.phase = .checking then w.child.waitpid.2 else w.child
      | _ => w.child := by
  cases m with
  | write | finish =>
    simp only [Watch.step]
    split_ifs <;> rfl
  | read | readFails =>
    simp only [Watch.step]
    split_ifs
    · exact copy_child _ _ _
    · rfl
  | select answer =>
    simp only [Watch.step]
    split_ifs
    · split <;> rfl
    · rfl
  | wait =>
    simp only [Watch.step]
    split_ifs
    · split <;> rfl
    · rfl

private theorem ended_of_waitpid {child : ChildState} {t : Termination}
    (ended : child.waitpid.2 = .zombie t ∨ child.waitpid.2 = .gone t) :
    child = .zombie t ∨ child = .gone t := by
  cases child with
  | running => simp [ChildState.waitpid] at ended
  | zombie t' => simpa [ChildState.waitpid] using ended
  | gone t' => simpa [ChildState.waitpid] using ended

private theorem endedBy_origin {settings : Settings} {w : Watch} {m : Move} {t : Termination}
    (ended : EndedBy (w.step settings m).1 t) : EndedBy w t ∨ m = .finish t := by
  rw [EndedBy, child_step] at ended
  cases m with
  | write | select | read | readFails => exact Or.inl ended
  | finish t' =>
    simp only at ended
    split_ifs at ended
    · rcases ended with zombie | gone
      · cases zombie
        exact Or.inr rfl
      · cases gone
    · exact Or.inl ended
  | wait =>
    simp only at ended
    split_ifs at ended
    · exact Or.inl (ended_of_waitpid ended)
    · exact Or.inl ended

theorem finish_of_ended (settings : Settings) (inputBuffer : Bytes) (ms : List Move)
    {t : Termination} (ended : EndedBy (after settings inputBuffer ms) t) :
    Move.finish t ∈ ms := by
  induction ms using List.reverseRecOn with
  | nil =>
    rcases ended with zombie | gone
    · cases zombie
    · cases gone
  | append_singleton ms m ih =>
    rw [after, run_snoc] at ended
    rcases endedBy_origin ended with before | rfl
    · exact List.mem_append_left _ (ih before)
    · exact List.mem_append_right _ List.mem_cons_self

def written (m : Moment Watch Move) : Bytes :=
  match m.event with
  | .write bytes => if m.before.child = .running then bytes else []
  | _ => []

def sawEmpty (m : Moment Watch Move) : Bool :=
  match m.event with
  | .read _ | .readFails =>
      m.before.phase = .draining ∧ m.before.inputBuffer = [] ∧ m.before.pending = []
  | .select .timeout => m.before.phase = .selecting ∧ m.before.pending = []
  | _ => false

def reads (m : Moment Watch Move) : Bool :=
  match m.event with
  | .read _ | .readFails => m.before.phase = .draining
  | _ => false

/-- The child has written something that `waitForChild` has not seen the end of. -/
def Unseen (ms : List (Moment Watch Move)) : Prop :=
  Since (fun m => written m ≠ []) (fun m => sawEmpty m = true) ms

/-- Every byte is copied, in the buffer, or in the pty, in this order. -/
structure Balanced (inputBuffer : Bytes) (ms : List (Moment Watch Move)) (w : Watch) : Prop where
  all : inputBuffer ++ ms.flatMap written = w.stdout ++ (w.inputBuffer ++ w.pending)
  buffer : w.inputBuffer = if ms.any reads then [] else inputBuffer
  seen : ¬Unseen ms → w.pending = []
  unseen : w.phase ≠ .draining → w.pending = [] → ¬Unseen ms

section

variable {settings : Settings} {inputBuffer : Bytes} {ms : List (Moment Watch Move)} {w : Watch}

private theorem unseen_snoc (m : Moment Watch Move) :
    Unseen (ms ++ [m]) ↔ written m ≠ [] ∨ (Unseen ms ∧ ¬sawEmpty m = true) :=
  since_snoc _ _ ms m

private theorem balanced_of_quiet (balanced : Balanced inputBuffer ms w) {w' : Watch} {m : Move}
    (quiet : written ⟨w, m⟩ = []) (unread : reads ⟨w, m⟩ = false)
    (blind : sawEmpty ⟨w, m⟩ = false) (stdout : w'.stdout = w.stdout)
    (buffer : w'.inputBuffer = w.inputBuffer) (pending : w'.pending = w.pending)
    (phase : w'.phase ≠ .draining → w.phase ≠ .draining) :
    Balanced inputBuffer (ms ++ [⟨w, m⟩]) w' := by
  have same : Unseen (ms ++ [⟨w, m⟩]) ↔ Unseen ms := by
    rw [unseen_snoc, quiet, blind]
    simp
  refine ⟨?_, ?_, ?_, ?_⟩
  · rw [List.flatMap_append, List.flatMap_singleton, quiet, List.append_nil, stdout, buffer,
      pending]
    exact balanced.all
  · rw [List.any_append, List.any_cons, unread, buffer]
    simpa using balanced.buffer
  · rw [same, pending]
    exact balanced.seen
  · rw [same, pending]
    exact fun here => balanced.unseen (phase here)

private theorem unseen_of_idle {m : Move} (out : ¬Turn w m) :
    written ⟨w, m⟩ = [] ∧ reads ⟨w, m⟩ = false ∧ sawEmpty ⟨w, m⟩ = false := by
  cases m with
  | write bytes => exact ⟨if_neg out, rfl, rfl⟩
  | select answer =>
    have away : w.phase ≠ .selecting := out
    cases answer <;> simp [written, reads, sawEmpty, away]
  | read | readFails =>
    have away : w.phase ≠ .draining := out
    simp [written, reads, sawEmpty, away]
  | finish | wait => exact ⟨rfl, rfl, rfl⟩

private theorem balanced_write (balanced : Balanced inputBuffer ms w)
    (running : w.child = .running) (bytes : Bytes) :
    Balanced inputBuffer (ms ++ [⟨w, .write bytes⟩])
      { w with pending := w.pending ++ bytes } := by
  have wrote : written ⟨w, .write bytes⟩ = bytes := if_pos running
  refine ⟨?_, ?_, ?_, ?_⟩
  · rw [List.flatMap_append, List.flatMap_singleton, wrote, ← List.append_assoc, balanced.all]
    simp only [List.append_assoc]
  · rw [List.any_append]
    simpa [reads] using balanced.buffer
  · rw [unseen_snoc, wrote]
    intro seen
    have nothing : bytes = [] := by
      by_contra more
      exact seen (Or.inl more)
    have before : w.pending = [] :=
      balanced.seen fun unseen => seen (Or.inr ⟨unseen, by simp [sawEmpty]⟩)
    rw [before, nothing]
    rfl
  · rw [unseen_snoc, wrote]
    rintro here nothing (more | ⟨unseen, -⟩)
    · exact more (List.append_eq_nil_iff.mp nothing).2
    · exact balanced.unseen here (List.append_eq_nil_iff.mp nothing).1 unseen

private theorem balanced_timeout (balanced : Balanced inputBuffer ms w)
    (here : w.phase = .selecting) (nothing : w.pending = []) :
    Balanced inputBuffer (ms ++ [⟨w, .select .timeout⟩]) { w with phase := .checking } := by
  have saw : sawEmpty ⟨w, .select .timeout⟩ = true := by simp [sawEmpty, here, nothing]
  refine ⟨?_, ?_, fun _ => nothing, fun _ _ => ?_⟩
  · rw [List.flatMap_append, List.flatMap_singleton, written, List.append_nil]
    exact balanced.all
  · rw [List.any_append]
    simpa [reads] using balanced.buffer
  · rw [unseen_snoc, saw]
    simp [written]

private theorem balanced_copy (terminal : settings.m_terminal = true)
    (balanced : Balanced inputBuffer ms w) (here : w.phase = .draining) {m : Move}
    (quiet : written ⟨w, m⟩ = []) (look : reads ⟨w, m⟩ = true)
    (saw : sawEmpty ⟨w, m⟩ = true ↔ w.inputBuffer = [] ∧ w.pending = []) {front later : Bytes}
    (pending : w.pending = front ++ later) :
    Balanced inputBuffer (ms ++ [⟨w, m⟩])
      (({ w with pending := later } : Watch).copy settings (w.inputBuffer ++ front)) := by
  refine ⟨?_, ?_, ?_, ?_⟩
  · rw [List.flatMap_append, List.flatMap_singleton, quiet, List.append_nil, balanced.all,
      copy_stdout _ _ _ terminal, copy_inputBuffer, copy_pending, List.nil_append, pending,
      List.append_assoc, List.append_assoc]
  · rw [copy_inputBuffer, List.any_append, List.any_cons, look]
    simp
  · rw [unseen_snoc, copy_pending]
    intro seen
    have empty : w.pending = [] := by
      by_cases unseen : Unseen ms
      · by_contra more
        exact seen (Or.inr ⟨unseen, fun looked => more (saw.mp looked).2⟩)
      · exact balanced.seen unseen
    exact (List.append_eq_nil_iff.mp (pending.symm.trans empty)).2
  · rw [copy_phase, copy_pending, unseen_snoc, quiet]
    rintro left (gone : later = [])
    have nothing : w.inputBuffer ++ front = [] := by
      by_contra more
      exact left (by rw [if_neg more]; exact here)
    obtain ⟨bare, none_taken⟩ := List.append_eq_nil_iff.mp nothing
    have empty : w.pending = [] := by rw [pending, none_taken, gone, List.append_nil]
    have looked := saw.mpr ⟨bare, empty⟩
    simp [looked]

private theorem balanced_step (terminal : settings.m_terminal = true)
    (balanced : Balanced inputBuffer ms w) (m : Move) :
    Balanced inputBuffer (ms ++ [⟨w, m⟩]) (w.step settings m).1 := by
  have moved := moved_step settings w m
  generalize (w.step settings m).1 = w' at moved ⊢
  cases moved with
  | idle out =>
    obtain ⟨quiet, unread, blind⟩ := unseen_of_idle out
    exact balanced_of_quiet balanced quiet unread blind rfl rfl rfl id
  | write running bytes => exact balanced_write balanced running bytes
  | finish => exact balanced_of_quiet balanced rfl rfl rfl rfl rfl rfl id
  | @ready here answer answered =>
    have calm : w.phase ≠ .draining := by simp [here]
    have blind : sawEmpty ⟨w, .select answer⟩ = false := by
      rcases answered with rfl | ⟨rfl, more⟩
      · rfl
      · simp [sawEmpty, more]
    exact balanced_of_quiet balanced rfl rfl blind rfl rfl rfl fun _ => calm
  | timeout here nothing => exact balanced_timeout balanced here nothing
  | interrupted here | failed here | runs here | reaped here | lost here =>
    have calm : w.phase ≠ .draining := by simp [here]
    exact balanced_of_quiet balanced rfl rfl rfl rfl rfl rfl fun _ => calm
  | read here amount =>
    exact balanced_copy terminal balanced here rfl (by simp [reads, here])
      (by simp [sawEmpty, here]) (List.take_append_drop _ _).symm
  | readFails here =>
    -- the buffer is copied all the same, and the pty keeps what it has
    have copied := balanced_copy (m := .readFails) terminal balanced here rfl
      (by simp [reads, here]) (by simp [sawEmpty, here]) (List.nil_append w.pending).symm
    rwa [List.append_nil] at copied

end

private theorem balanced_after {settings : Settings} (terminal : settings.m_terminal = true)
    (inputBuffer : Bytes) (ms : List Move) :
    Balanced inputBuffer (past settings inputBuffer ms) (after settings inputBuffer ms) := by
  refine run_induction (P := Balanced inputBuffer) ?_ ?_ ms
  · refine ⟨rfl, rfl, fun _ => rfl, fun _ _ unseen => ?_⟩
    exact absurd unseen (not_since_nil _ _)
  · exact fun h w m balanced => balanced_step terminal balanced m

/-- The bytes copied to stdout are always the first ones that there were to copy. -/
theorem copied_in_order {settings : Settings} (terminal : settings.m_terminal = true)
    (inputBuffer : Bytes) (ms : List Move) :
    (after settings inputBuffer ms).stdout <+:
      inputBuffer ++ (past settings inputBuffer ms).flatMap written :=
  ⟨_, (balanced_after terminal inputBuffer ms).all.symm⟩

/-- When `waitForChild` returns because the child has ended, all its output has been copied
exactly if none of it came behind the last look that found nothing, and something was read if
the buffer held something. -/
theorem output_copied_iff {settings : Settings} (terminal : settings.m_terminal = true)
    (inputBuffer : Bytes) {ms : List Move} {t : Termination} {ret : Int}
    (waited : Waited (after settings inputBuffer ms) t ret) :
    (after settings inputBuffer ms).stdout =
        inputBuffer ++ (past settings inputBuffer ms).flatMap written ↔
      ¬Unseen (past settings inputBuffer ms) ∧
        (inputBuffer = [] ∨ (past settings inputBuffer ms).any reads = true) := by
  have balanced := balanced_after terminal inputBuffer ms
  have calm : (after settings inputBuffer ms).phase ≠ .draining := by simp [waited.2]
  have copied : (after settings inputBuffer ms).stdout =
        inputBuffer ++ (past settings inputBuffer ms).flatMap written ↔
      (after settings inputBuffer ms).inputBuffer = [] ∧
        (after settings inputBuffer ms).pending = [] := by
    rw [balanced.all, List.self_eq_append_right, List.append_eq_nil_iff]
  have buffer : (after settings inputBuffer ms).inputBuffer = [] ↔
      inputBuffer = [] ∨ (past settings inputBuffer ms).any reads = true := by
    rw [balanced.buffer]
    split_ifs with read
    · simp [read]
    · simp [read]
  have pending : (after settings inputBuffer ms).pending = [] ↔
      ¬Unseen (past settings inputBuffer ms) :=
    ⟨balanced.unseen calm, balanced.seen⟩
  rw [copied, buffer, pending, and_comm]

def toTerminal : Settings := ⟨true, []⟩

def readInTime : List Move :=
  [.write (ascii "x"), .select .ready, .read 1, .read 1, .finish (.exited 0), .wait]

theorem output_copied_iff_readInTime :
    (after toTerminal [] readInTime).stdout =
        [] ++ (past toTerminal [] readInTime).flatMap written ↔
      ¬Unseen (past toTerminal [] readInTime) ∧
        (([] : Bytes) = [] ∨ (past toTerminal [] readInTime).any reads = true) :=
  have waited : Waited (after toTerminal [] readInTime) (.exited 0) 0 :=
    ⟨by decide +kernel, by decide +kernel⟩
  output_copied_iff rfl [] waited

/-- A child that writes and ends between the `select` that times out and `checkPidExited`. -/
theorem last_output_lost : ¬∀ settings inputBuffer ms t ret, settings.m_terminal = true →
    Waited (after settings inputBuffer ms) t ret →
      (after settings inputBuffer ms).stdout =
        inputBuffer ++ (past settings inputBuffer ms).flatMap written := by
  intro always
  have copied := always toTerminal []
    [.select .timeout, .write (ascii "x"), .finish (.exited 0), .wait] (.exited 0) 0 rfl
    ⟨by decide +kernel, by decide +kernel⟩
  exact absurd copied (by decide +kernel)

end KDESu.Process.Waiting
