/- KDESu/Process/Forking
   source: src/ptyprocess.cpp
   digest: What PtyProcess::exec makes of a forked child until its program runs. -/

import KDESu.Library.DescriptorTables
import KDESu.Process.Choosing
import KDESu.Process.Preparing
import KDESu.Stub.Splitting

set_option autoImplicit false
set_option relaxedAutoImplicit false

namespace KDESu.Process.Forking

open KDESu.ByteArrays
open KDESu.Library.DescriptorTables
open KDESu.Process.Choosing (sudoConfigured)
open KDESu.Process.Launching
open KDESu.Process.Preparing
open KDESu.Stub.Splitting (toInt32)

inductive Disposition
  | default | ignored | handled
  deriving DecidableEq, Repr

abbrev Signals := Nat → Disposition

def NSIG : Nat := 65
def SIGHUP : Nat := 1

/-- The flag of a terminal's `c_oflag` by which a newline becomes two characters. -/
def OPOST : BitVec 32 := 1

structure Forked (φ : Type) where
  files : Table φ
  signals : Signals
  environ : List Bytes
  oflag : φ → BitVec 32

/-- What the calls in the child answer: which signals can be set, and what `getrlimit` leaves. -/
structure Answers where
  settable : Nat → Bool
  rlim_cur : Nat
  tcgetattrFails : Bool
  tcsetattrFails : Bool
  execvFails : Bool

section

variable {φ : Type}

def signal (settable : Nat → Bool) (sig : Nat) (handler : Disposition) (s : Signals) :
    Signals :=
  if settable sig then Function.update s sig handler else s

def resetSignals (settable : Nat → Bool) (s : Signals) : Signals :=
  let s := (List.range' 1 (NSIG - 1)).foldl (fun s sig => signal settable sig .default s) s
  signal settable SIGHUP .ignored s

def connectStd (slave : Nat) (files : Table φ) : Table φ :=
  dup2 slave 2 (dup2 slave 1 (dup2 slave 0 files))

/-- `for (int i = 3; i < (int)rlp.rlim_cur; i++) close(i)`. -/
def closeOthers (rlim_cur : Nat) (files : Table φ) : Table φ :=
  closeFrom 3 (toInt32 rlim_cur - 3).toNat files

/-- `setupTTY` behind `setCTty`; none where it fails. -/
def setupTTY [DecidableEq φ] (a : Answers) (slave : Nat) (p : Forked φ) : Option (Forked φ) :=
  let signals := resetSignals a.settable p.signals
  let files := closeOthers a.rlim_cur (connectStd slave p.files)
  match files 0 with
  | none => none
  | some terminal =>
      if a.tcgetattrFails then none
      else if a.tcsetattrFails then none
      else
        let c_oflag := p.oflag terminal.file &&& ~~~OPOST
        some { p with
          files := files
          signals := signals
          oflag := Function.update p.oflag terminal.file c_oflag }

/-- A program keeps what is ignored, and none of the handlers. -/
def keptByExec : Disposition → Disposition
  | .ignored => .ignored
  | .default | .handled => .default

structure Program (φ : Type) extends Forked φ where
  line : CommandLine

/-- `exec` in the child, up to the program it turns into; none where it exits before. -/
def child [DecidableEq φ] (inst : Installation) (command : Bytes) (args env : List Bytes)
    (a : Answers) (slave : Nat) (p : Forked φ) : Option (Program φ) :=
  match setupTTY a slave p with
  | none => none
  | some p =>
      match execv inst command args with
      | none => none
      | some line =>
          if a.execvFails then none
          else some
            { files := exec p.files
              signals := fun sig => keptByExec (p.signals sig)
              environ := childEnviron env p.environ
              oflag := p.oflag
              line := line }

theorem foldl_signal (settable : Nat → Bool) (sigs : List Nat) (s : Signals) (sig : Nat) :
    sigs.foldl (fun s sig => signal settable sig .default s) s sig =
      if sig ∈ sigs ∧ settable sig = true then .default else s sig := by
  induction sigs generalizing s with
  | nil => simp
  | cons first sigs ih =>
    rw [List.foldl_cons, ih, signal]
    by_cases set : settable first = true
    · rw [if_pos set, Function.update_apply]
      by_cases here : sig = first
      · subst here
        simp [set]
      · simp [here]
    · rw [if_neg set]
      by_cases here : sig = first
      · subst here
        simp [set]
      · simp [here]

theorem resetSignals_apply (settable : Nat → Bool) (s : Signals) {sig : Nat} (positive : 0 < sig)
    (below : sig < NSIG) (set : settable sig = true) :
    resetSignals settable s sig = if sig = SIGHUP then .ignored else .default := by
  have member : sig ∈ List.range' 1 (NSIG - 1) := by
    rw [List.mem_range'_1]
    rw [NSIG] at below ⊢
    omega
  rw [resetSignals, signal]
  by_cases hangup : sig = SIGHUP
  · subst hangup
    rw [if_pos set, Function.update_self, if_pos rfl]
  · rw [if_neg hangup]
    split_ifs
    · rw [Function.update_of_ne hangup, foldl_signal, if_pos ⟨member, set⟩]
    · rw [foldl_signal, if_pos ⟨member, set⟩]

variable {slave : Nat} {files : Table φ} {e : Entry φ}

theorem connectStd_apply (opened : files slave = some e) (fd : Nat) :
    connectStd slave files fd = if fd < 3 ∧ fd ≠ slave then some ⟨e.file, false⟩ else files fd := by
  have first := dup2_old opened 0
  have second := dup2_old first 1
  rw [connectStd, dup2_apply second, dup2_apply first, dup2_apply opened]
  by_cases own : fd = slave
  · simp [own]
  · split_ifs <;> first | rfl | omega

theorem closeOthers_apply (rlim_cur fd : Nat) :
    closeOthers rlim_cur files fd =
      if 3 ≤ fd ∧ (fd : Int) < toInt32 rlim_cur then none else files fd := by
  rw [closeOthers, closeFrom_apply]
  exact if_congr (by omega) rfl rfl

theorem setup_files (opened : files slave = some e) (rlim_cur fd : Nat) :
    closeOthers rlim_cur (connectStd slave files) fd =
      if fd < 3 then some ⟨e.file, if fd = slave then e.closesOnExec else false⟩
      else if (fd : Int) < toInt32 rlim_cur then none
      else files fd := by
  rw [closeOthers_apply, connectStd_apply opened]
  by_cases std : fd < 3
  · by_cases own : fd = slave
    · subst own
      rw [if_neg (by omega), if_neg (by simp), if_pos std, if_pos rfl, opened]
    · rw [if_neg (by omega), if_pos ⟨std, own⟩, if_pos std, if_neg own]
  · rw [if_neg std, if_neg (fun both => std both.1 : ¬(fd < 3 ∧ fd ≠ slave))]
    exact if_congr (and_iff_right (Nat.le_of_not_lt std)) rfl rfl

variable [DecidableEq φ] {inst : Installation} {command : Bytes} {args env : List Bytes}
  {a : Answers} {p : Forked φ} {q : Program φ} {tty : φ} {closes : Bool}

theorem of_child (opened : p.files slave = some ⟨tty, closes⟩)
    (started : child inst command args env a slave p = some q) :
    q.files = exec (closeOthers a.rlim_cur (connectStd slave p.files)) ∧
      (∀ sig, q.signals sig = keptByExec (resetSignals a.settable p.signals sig)) ∧
      q.oflag = Function.update p.oflag tty (p.oflag tty &&& ~~~OPOST) := by
  have terminal := setup_files opened a.rlim_cur 0
  rw [if_pos (by decide)] at terminal
  simp only [child, setupTTY, terminal] at started
  split at started
  · cases started
  · rename_i set
    split_ifs at set
    obtain rfl := Option.some.inj set
    split at started
    · cases started
    · split_ifs at started
      obtain rfl := Option.some.inj started
      exact ⟨rfl, fun _ => rfl, rfl⟩

theorem program_files (opened : p.files slave = some ⟨tty, closes⟩)
    (started : child inst command args env a slave p = some q) (fd : Nat) :
    q.files fd =
      if fd < 3 then if fd = slave ∧ closes = true then none else some ⟨tty, false⟩
      else if (fd : Int) < toInt32 a.rlim_cur then none
      else exec p.files fd := by
  rw [(of_child opened started).1, exec, setup_files opened]
  by_cases std : fd < 3
  · rw [if_pos std, if_pos std]
    by_cases own : fd = slave
    · cases closes <;> simp [own]
    · simp [own]
  · rw [if_neg std, if_neg std]
    split_ifs <;> rfl

/-- Whatever the caller has open, handles and ignores: the program that `exec` starts has its
terminal as standard input, output and error and nothing else of the caller's, exactly if the slave
is above them or open for it, and all that is open from the limit on closes by itself; no signal but
SIGHUP is ignored; and its terminal, and no other, no longer takes a newline for two characters. -/
theorem program_isolated (opened : p.files slave = some ⟨tty, closes⟩)
    (started : child inst command args env a slave p = some q) :
    ((∀ fd, q.files fd = if fd < 3 then some ⟨tty, false⟩ else none) ↔
      (slave < 3 → closes = false) ∧
        ∀ (fd : Nat) e, 3 ≤ fd → toInt32 a.rlim_cur ≤ fd → p.files fd = some e →
          e.closesOnExec = true) ∧
    (∀ sig, 0 < sig → sig < NSIG → a.settable sig = true →
      q.signals sig = if sig = SIGHUP then .ignored else .default) ∧
    q.oflag tty &&& OPOST = 0 ∧ ∀ other, other ≠ tty → q.oflag other = p.oflag other := by
  obtain ⟨-, signals, oflag⟩ := of_child opened started
  refine ⟨⟨fun only => ⟨fun low => ?_, fun fd e high beyond open_there => ?_⟩,
    fun ⟨above, rest⟩ fd => ?_⟩, fun sig positive below set => ?_, ?_, fun other apart => ?_⟩
  · have std := only slave
    rw [program_files opened started, if_pos low, if_pos low] at std
    cases closes with
    | false => rfl
    | true => simp at std
  · have none_left := only fd
    rw [program_files opened started, if_neg (by omega), if_neg (by omega), if_neg (by omega),
      exec_eq_none_iff] at none_left
    exact none_left e open_there
  · rw [program_files opened started]
    by_cases std : fd < 3
    · rw [if_pos std, if_pos std]
      refine if_neg fun own => ?_
      rw [above (own.1 ▸ std)] at own
      exact Bool.false_ne_true own.2
    · rw [if_neg std, if_neg std]
      split_ifs with below
      · rfl
      · exact (exec_eq_none_iff _ _).mpr fun e => rest fd e (by omega) (by omega)
  · rw [signals, resetSignals_apply a.settable p.signals positive below set]
    split_ifs <;> rfl
  · rw [oflag, Function.update_self, BitVec.and_assoc]
    simp [OPOST]
  · rw [oflag, Function.update_of_ne apart]

end

/-- kdesud behind its fork for an EXEC: its socket and its pipe close by themselves, the connection
to the display at 4 and those of two clients at 7 and 8 do not, and the terminal is at 9 and 10. -/
def forked : Forked Nat where
  files fd :=
    if fd < 11 then some ⟨fd, fd = 3 ∨ fd = 5 ∨ fd = 6 ∨ fd = 9 ∨ fd = 10⟩ else none
  signals sig := if sig = SIGHUP ∨ sig = 13 then .handled else .default
  environ := [ascii "LANG=C"]
  oflag _ := 5

def answers : Answers where
  settable sig := sig ≠ 9 ∧ sig ≠ 19 ∧ sig ≠ 32 ∧ sig ≠ 33
  rlim_cur := 1024
  tcgetattrFails := false
  tcsetattrFails := false
  execvFails := false

theorem program_isolated_forked :
    ∃ q, child sudoConfigured (ascii "/usr/bin/su") [ascii "root"] [] answers 10 forked = some q ∧
      ∀ fd, q.files fd = if fd < 3 then some ⟨10, false⟩ else none := by
  have runs : (child sudoConfigured (ascii "/usr/bin/su") [ascii "root"] [] answers 10
      forked).isSome = true := by
    decide +kernel
  obtain ⟨q, started⟩ := Option.isSome_iff_exists.mp runs
  have opened : forked.files 10 = some ⟨10, true⟩ := by decide
  refine ⟨q, started, (program_isolated opened started).1.mpr ⟨by decide, ?_⟩⟩
  intro fd e high beyond open_there
  have limit : toInt32 answers.rlim_cur = 1024 := by decide
  have closed : forked.files fd = none := if_neg (by omega)
  rw [closed] at open_there
  cases open_there

end KDESu.Process.Forking
