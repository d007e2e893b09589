/- KDESu/Client/Requesting
   source: src/client.cpp
   digest: The client quotes its arguments; the daemon reads the same request or none. -/

import KDESu.Daemon.Requests
import Mathlib.Data.FinEnum

set_option autoImplicit false
set_option relaxedAutoImplicit false

namespace KDESu.Client.Requesting

open KDESu.ByteArrays
open KDESu.Daemon.Lexing
open KDESu.Daemon.Repositories (Repository)
open KDESu.Daemon.Handling
open KDESu.Daemon.Requests

def escapeByte (c : UInt8) : Bytes :=
  if c < 32 then [backslash, caret, c + 64]
  else if c = backslash ∨ c = quote then [backslash, c]
  else [c]

def escape (str : Bytes) : Bytes := quote :: (str.flatMap escapeByte ++ [quote])

/-- DEL, the one control character that `escape` leaves as it is. -/
abbrev del : UInt8 := 127

private theorem escapeByte_shape (c : UInt8) :
    (escapeByte c = [backslash, caret, c + 64] ∧ c + 64 ≠ quote ∧ iscntrl (c + 64) = false ∧
      c + 64 - 64 = c ∧ c ≠ del) ∨
    (escapeByte c = [backslash, c] ∧ iscntrl c = false ∧ c ≠ caret ∧ c ≠ del) ∨
    (escapeByte c = [c] ∧ c ≠ quote ∧ iscntrl c = false ∧ c ≠ backslash ∧ c ≠ del) ∨
    (escapeByte c = [c] ∧ c = del) := by
  revert c
  decide +kernel

private theorem scanQuoted_escapeByte {c : UInt8} (plain : c ≠ del) (out s : Bytes) :
    scanQuoted out (escapeByte c ++ s) = scanQuoted (out ++ [c]) s := by
  rcases escapeByte_shape c with ⟨shape, open_quote, control, back, -⟩ |
    ⟨shape, control, caretless, -⟩ | ⟨shape, open_quote, control, slashless, -⟩ | ⟨-, bad⟩
  · rw [shape]
    exact (scanQuoted_caret out s open_quote control).trans (by rw [back])
  · rw [shape]
    exact scanQuoted_backslash out s control caretless
  · rw [shape]
    exact scanQuoted_plain out s open_quote control slashless
  · exact absurd bad plain

private theorem scanQuoted_escape {str : Bytes} (carried : del ∉ str) (out rest : Bytes) :
    scanQuoted out (str.flatMap escapeByte ++ quote :: rest) = (.str, out ++ str, rest) := by
  induction str generalizing out with
  | nil => rw [List.flatMap_nil, List.nil_append, scanQuoted_quote, List.append_nil]
  | cons c str ih =>
    simp only [List.mem_cons, not_or] at carried
    rw [List.flatMap_cons, List.append_assoc, scanQuoted_escapeByte (Ne.symm carried.1),
      ih carried.2, List.append_assoc, List.singleton_append]

private theorem scanQuoted_lost {str : Bytes} (lost : del ∈ str) (out rest : Bytes) :
    (scanQuoted out (str.flatMap escapeByte ++ rest)).1 = .none := by
  induction str generalizing out with
  | nil => simp at lost
  | cons c str ih =>
    rw [List.flatMap_cons, List.append_assoc]
    by_cases here : c = del
    · have shape : escapeByte del = [del] := rfl
      rw [here, shape, List.singleton_append, scanQuoted_control out _ (by decide) rfl]
    · rw [scanQuoted_escapeByte here]
      exact ih ((List.mem_cons.mp lost).resolve_left (Ne.symm here)) _

private theorem escape_append (str rest : Bytes) :
    escape str ++ rest = quote :: (str.flatMap escapeByte ++ quote :: rest) := by
  simp [escape]

theorem scan_escape {str : Bytes} (carried : del ∉ str) (rest : Bytes) :
    scan (escape str ++ rest) = (.str, str, rest) := by
  rw [escape_append]
  exact scanQuoted_escape carried [] rest

theorem scan_escape_lost {str : Bytes} (lost : del ∈ str) (rest : Bytes) :
    (scan (escape str ++ rest)).1 = .none := by
  rw [escape_append]
  exact scanQuoted_lost lost [] (quote :: rest)

theorem scan_blank_escape (str rest : Bytes) :
    scan (blank :: (escape str ++ rest)) = scan (escape str ++ rest) := by
  rw [escape_append]
  exact scan_blank _ rfl

/-- What it means that the lexer undoes `escape`: a lexer at the quoted string, whatever
stands before and after it, delivers the string and stops right behind it. -/
def LexUndoesEscape (before str rest output : Bytes) : Prop :=
  (Lexer.mk (before ++ escape str ++ rest) before.length output).lex =
    (.str, ⟨before ++ escape str ++ rest, (before ++ escape str).length, str⟩)

/-- The lexer undoes the quoting of exactly the strings without DEL. -/
theorem lex_undoes_escape_iff (before str rest output : Bytes) :
    LexUndoesEscape before str rest output ↔ del ∉ str := by
  have unread : (Lexer.mk (before ++ escape str ++ rest) before.length output).unread =
      escape str ++ (rest ++ [0]) := by
    simp [Lexer.unread, List.append_assoc]
  constructor
  · intro undone lost
    have token := congrArg Prod.fst undone
    rw [Lexer.lex_fst, unread, scan_escape_lost lost] at token
    cases token
  · intro carried
    have scanned := scan_escape carried (rest ++ [0])
    rw [← unread] at scanned
    rw [LexUndoesEscape, Lexer.lex_eq scanned]
    simp only [List.length_append, List.length_singleton, Prod.mk.injEq, Lexer.mk.injEq,
      true_and, and_true]
    omega

/-- DEL is below no 32, so `escape` lets it through, and it ends the quoted string. -/
theorem lex_loses_del : ¬∀ before str rest output, LexUndoesEscape before str rest output := by
  intro undoes
  have token := congrArg Prod.fst (undoes [] [del] [] [])
  exact absurd token (by decide)

/-- A `const char *` argument: the bytes in front of its NUL. -/
abbrev CString := { s : Bytes // (0 : UInt8) ∉ s }

def setPass (pass : CString) (timeout : Int32) : Bytes :=
  ascii "PASS" ++ blank :: (escape pass.1 ++ blank :: (setNum timeout.toInt ++ [newline]))

def escapeEnv (env : List Bytes) : Bytes := env.flatMap (fun var => blank :: escape var)

def exec (prog user options : Bytes) (env : List Bytes) : Bytes :=
  ascii "EXEC" ++ blank :: (escape prog ++ blank :: (escape user ++
    ((if options ≠ [] ∨ env ≠ [] then blank :: (escape options ++ escapeEnv env) else []) ++
      [newline])))

def setHost (host : Bytes) : Bytes := ascii "HOST" ++ blank :: (escape host ++ [newline])

def setPriority (prio : Int32) : Bytes :=
  ascii "PRIO" ++ blank :: (setNum prio.toInt ++ [newline])

def setScheduler (sched : Int32) : Bytes :=
  ascii "SCHD" ++ blank :: (setNum sched.toInt ++ [newline])

def delCommand (key user : Bytes) : Bytes :=
  ascii "DEL" ++ blank :: (escape key ++ blank :: (escape user ++ [newline]))

def setVar (key value : Bytes) (timeout : Int32) (group : Bytes) : Bytes :=
  ascii "SET" ++ blank :: (escape key ++ blank :: (escape value ++ blank :: (escape group ++
    blank :: (setNum timeout.toInt ++ [newline]))))

def getVar (key : Bytes) : Bytes := ascii "GET" ++ blank :: (escape key ++ [newline])

def getKeys (group : Bytes) : Bytes := ascii "GETK" ++ blank :: (escape group ++ [newline])

def findGroup (group : Bytes) : Bytes := ascii "CHKG" ++ blank :: (escape group ++ [newline])

def delVar (key : Bytes) : Bytes := ascii "DELV" ++ blank :: (escape key ++ [newline])

def delGroup (group : Bytes) : Bytes := ascii "DELG" ++ blank :: (escape group ++ [newline])

def delVars (special_key : Bytes) : Bytes :=
  ascii "DELS" ++ blank :: (escape special_key ++ [newline])

inductive Call
  | setPass (pass : CString) (timeout : Int32)
  | exec (prog user options : Bytes) (env : List Bytes)
  | setHost (host : Bytes)
  | setPriority (prio : Int32)
  | setScheduler (sched : Int32)
  | delCommand (key user : Bytes)
  | setVar (key value : Bytes) (timeout : Int32) (group : Bytes)
  | getVar (key : Bytes)
  | getKeys (group : Bytes)
  | findGroup (group : Bytes)
  | delVar (key : Bytes)
  | delGroup (group : Bytes)
  | delVars (special_key : Bytes)

def Call.line : Call → Bytes
  | .setPass pass timeout => Requesting.setPass pass timeout
  | .exec prog user options env => Requesting.exec prog user options env
  | .setHost host => Requesting.setHost host
  | .setPriority prio => Requesting.setPriority prio
  | .setScheduler sched => Requesting.setScheduler sched
  | .delCommand key user => Requesting.delCommand key user
  | .setVar key value timeout group => Requesting.setVar key value timeout group
  | .getVar key => Requesting.getVar key
  | .getKeys group => Requesting.getKeys group
  | .findGroup group => Requesting.findGroup group
  | .delVar key => Requesting.delVar key
  | .delGroup group => Requesting.delGroup group
  | .delVars special_key => Requesting.delVars special_key

def Call.request : Call → Request
  | .setPass pass timeout => .pass pass.1 timeout.toInt
  | .exec prog user options env => .exec prog user options env
  | .setHost host => .host host
  | .setPriority prio => .prio prio.toInt
  | .setScheduler sched => .sched sched.toInt
  | .delCommand key user => .delCmd key user
  | .setVar key value timeout group => .set key value group timeout.toInt
  | .getVar key => .get key
  | .getKeys group => .getKeys group
  | .findGroup group => .chkGroup group
  | .delVar key => .delVar key
  | .delGroup group => .delGroup group
  | .delVars special_key => .delSpecialKey special_key

/-- The arguments that survive the way: strings without DEL, numbers without a sign. -/
def Call.Carried : Call → Prop
  | .setPass pass timeout => del ∉ pass.1 ∧ 0 ≤ timeout.toInt
  | .exec prog user options env =>
      del ∉ prog ∧ del ∉ user ∧ del ∉ options ∧ ∀ var ∈ env, del ∉ var
  | .setHost host => del ∉ host
  | .setPriority prio => 0 ≤ prio.toInt
  | .setScheduler sched => 0 ≤ sched.toInt
  | .delCommand key user => del ∉ key ∧ del ∉ user
  | .setVar key value timeout group =>
      del ∉ key ∧ del ∉ value ∧ del ∉ group ∧ 0 ≤ timeout.toInt
  | .getVar key => del ∉ key
  | .getKeys group => del ∉ group
  | .findGroup group => del ∉ group
  | .delVar key => del ∉ key
  | .delGroup group => del ∉ group
  | .delVars special_key => del ∉ special_key

/-- A reader yields the request when a condition holds, and no request otherwise. -/
private def Delivers (read : Option Request) (carried : Prop) (request : Request) : Prop :=
  (carried → read = some request) ∧ (¬carried → read = none)

private theorem delivers_strArg {l : Lexer} {str rest : Bytes} {carried : Prop}
    {request : Request} {next : Bytes × Lexer → Option Request}
    (unread : l.unread = blank :: (escape str ++ rest))
    (later : ∀ l, l.unread = rest → Delivers (next (str, l)) carried request) :
    Delivers ((strArg l).bind next) (del ∉ str ∧ carried) request := by
  have scanned := scan_blank_escape str rest
  rw [← unread] at scanned
  by_cases lost : del ∈ str
  · have token : (scan l.unread).1 ≠ .str := by
      rw [scanned, scan_escape_lost lost]
      decide
    rw [strArg_eq_none token]
    exact ⟨fun carried => absurd lost carried.1, fun _ => rfl⟩
  · rw [scan_escape lost] at scanned
    obtain ⟨l', taken, left⟩ := strArg_of_scan scanned
    obtain ⟨delivered, refused⟩ := later l' left
    rw [taken, Option.bind_some]
    exact ⟨fun carried => delivered carried.2,
      fun missing => refused fun carried => missing ⟨lost, carried⟩⟩

private theorem decimal_word {n : Nat} : ∃ d w, decimal n = d :: w ∧
    ∀ b ∈ d :: w, isdigit b = true := by
  obtain ⟨d, w, equal⟩ := List.exists_cons_of_ne_nil (decimal_ne_nil n)
  exact ⟨d, w, equal, equal ▸ decimal_isdigit n⟩

private theorem digit_isword {c : UInt8} (digit : isdigit c = true) : isword c = true := by
  revert c
  decide +kernel

private theorem digit_not_space {c : UInt8} (digit : isdigit c = true) : isspace c = false := by
  revert c
  decide +kernel

private theorem scan_number {n : Int} (sign : 0 ≤ n) (rest : Bytes) :
    scan (blank :: (setNum n ++ newline :: rest)) = (.num, setNum n, newline :: rest) := by
  obtain ⟨d, w, equal, digits⟩ := decimal_word (n := n.toNat)
  have same : setNum n = d :: w := by rw [setNum, if_neg (by omega), equal]
  rw [same, List.cons_append, scan_blank _ (digit_not_space (digits d List.mem_cons_self))]
  exact scanToken_digits digits rfl

private theorem scan_negative {n : Int} (sign : n < 0) (rest : Bytes) :
    (scan (blank :: (setNum n ++ newline :: rest))).1 = .str := by
  obtain ⟨d, w, equal, digits⟩ := decimal_word (n := n.natAbs)
  have same : setNum n = minus :: d :: w := by rw [setNum, if_pos sign, equal]
  have word : ∀ b ∈ minus :: d :: w, isword b = true := by
    intro b member
    rcases List.mem_cons.mp member with rfl | member
    · rfl
    · exact digit_isword (digits b member)
  rw [same, List.cons_append, scan_blank _ rfl, ← List.cons_append,
    scanToken_word rfl (by decide) word rfl]
  simp [keyword, ascii, minus]

private theorem delivers_numArg {l : Lexer} {n : Int32} {rest : Bytes} {carried : Prop}
    {request : Request} {next : Int × Lexer → Option Request}
    (unread : l.unread = blank :: (setNum n.toInt ++ newline :: rest))
    (later : ∀ l, l.unread = newline :: rest → Delivers (next (n.toInt, l)) carried request) :
    Delivers ((numArg l).bind next) (0 ≤ n.toInt ∧ carried) request := by
  by_cases sign : 0 ≤ n.toInt
  · have scanned := scan_number sign rest
    rw [← unread] at scanned
    obtain ⟨l', taken, left⟩ := numArg_of_scan scanned
    have value : toInt (setNum n.toInt) = n.toInt := by
      have small : n.toInt < 2 ^ 31 := Int32.toInt_lt n
      rw [setNum, if_neg (by omega), toInt_decimal (by omega)]
      omega
    obtain ⟨delivered, refused⟩ := later l' left
    rw [taken, Option.bind_some, value]
    exact ⟨fun carried => delivered carried.2,
      fun missing => refused fun carried => missing ⟨sign, carried⟩⟩
  · have token : (scan l.unread).1 ≠ .num := by
      rw [unread, scan_negative (by omega)]
      decide
    rw [numArg_eq_none token]
    exact ⟨fun carried => absurd carried.1 sign, fun _ => rfl⟩

private theorem delivers_lineEnd {l : Lexer} {rest : Bytes} (unread : l.unread = newline :: rest)
    (request : Request) :
    Delivers ((lineEnd l).bind fun _ => some request) True request := by
  rw [lineEnd_of_unread unread]
  exact ⟨fun _ => rfl, fun absent => absurd trivial absent⟩

private theorem Delivers.of_iff {read : Option Request} {carried carried' : Prop}
    {request : Request} (delivers : Delivers read carried request) (same : carried' ↔ carried) :
    Delivers read carried' request :=
  ⟨fun holds => delivers.1 (same.mp holds), fun fails => delivers.2 (mt same.mpr fails)⟩

private theorem strArgs_escapeEnv {env : List Bytes} {fuel : Nat} {l : Lexer} {rest : Bytes}
    (unread : l.unread = escapeEnv env ++ newline :: rest) (enough : env.length < fuel) :
    ((∀ var ∈ env, del ∉ var) → strArgs fuel l = some env) ∧
      ((¬∀ var ∈ env, del ∉ var) → strArgs fuel l = none) := by
  induction env generalizing fuel l with
  | nil =>
    obtain ⟨fuel, rfl⟩ := Nat.exists_eq_succ_of_ne_zero (Nat.ne_of_gt enough)
    have scanned : scan l.unread = (.newline, [], rest) := by rw [unread]; rfl
    obtain ⟨l', lexed, -, -⟩ := Lexer.exists_lex scanned
    refine ⟨fun _ => ?_, fun lost => absurd (by simp) lost⟩
    simp only [strArgs, lexed]
  | cons var env ih =>
    obtain ⟨fuel, rfl⟩ := Nat.exists_eq_succ_of_ne_zero (Nat.ne_of_gt (Nat.zero_lt_of_lt enough))
    have shape : l.unread = blank :: (escape var ++ (escapeEnv env ++ newline :: rest)) := by
      simpa [escapeEnv] using unread
    have scanned := scan_blank_escape var (escapeEnv env ++ newline :: rest)
    rw [← shape] at scanned
    by_cases lost : del ∈ var
    · have token : l.lex.1 = .none := by rw [Lexer.lex_fst, scanned, scan_escape_lost lost]
      refine ⟨fun carried => absurd lost (carried var List.mem_cons_self), fun _ => ?_⟩
      simp only [strArgs]
      split
      · simp_all
      · simp_all
      · rfl
    · rw [scan_escape lost] at scanned
      obtain ⟨l', lexed, value, left⟩ := Lexer.exists_lex scanned
      obtain ⟨delivered, refused⟩ := ih left (Nat.lt_of_succ_lt_succ enough)
      simp only [strArgs, lexed, value, List.forall_mem_cons]
      constructor
      · intro carried
        rw [delivered carried.2, Option.map_some]
      · intro missing
        rw [refused fun carried => missing ⟨lost, carried⟩, Option.map_none]

private theorem length_escapeEnv (env : List Bytes) : env.length ≤ (escapeEnv env).length := by
  induction env with
  | nil => exact Nat.zero_le _
  | cons var env ih =>
    simp only [escapeEnv, List.flatMap_cons, List.length_append, List.length_cons] at ih ⊢
    omega

private theorem delivers_execArgs {l : Lexer} {prog user options : Bytes} {env : List Bytes}
    {rest : Bytes}
    (unread : l.unread =
      (if options ≠ [] ∨ env ≠ [] then blank :: (escape options ++ escapeEnv env) else []) ++
        newline :: rest) :
    Delivers
      (match l.lex with
        | (.newline, _) => some (.exec prog user [] [])
        | (.str, l) => do
            let env ← strArgs (l.unread.length + 1) l
            return .exec prog user l.lval env
        | _ => none)
      (del ∉ options ∧ ∀ var ∈ env, del ∉ var) (.exec prog user options env) := by
  split_ifs at unread with some_args
  · have shape : l.unread = blank :: (escape options ++ (escapeEnv env ++ newline :: rest)) := by
      simpa using unread
    have scanned := scan_blank_escape options (escapeEnv env ++ newline :: rest)
    rw [← shape] at scanned
    by_cases lost : del ∈ options
    · have token : l.lex.1 = .none := by rw [Lexer.lex_fst, scanned, scan_escape_lost lost]
      refine ⟨fun carried => absurd lost carried.1, fun _ => ?_⟩
      split
      · simp_all
      · simp_all
      · rfl
    · rw [scan_escape lost] at scanned
      obtain ⟨l', lexed, value, left⟩ := Lexer.exists_lex scanned
      have enough : env.length < l'.unread.length + 1 := by
        have bound := length_escapeEnv env
        rw [left, List.length_append]
        omega
      obtain ⟨delivered, refused⟩ := strArgs_escapeEnv left enough
      simp only [lexed]
      constructor
      · intro carried
        simp only [delivered carried.2, value]
        rfl
      · intro missing
        simp only [refused fun carried => missing ⟨lost, carried⟩]
        rfl
  · obtain ⟨rfl, rfl⟩ : options = [] ∧ env = [] := by simpa using some_args
    have scanned : scan l.unread = (.newline, [], rest) := by rw [unread]; rfl
    obtain ⟨l', lexed, -, -⟩ := Lexer.exists_lex scanned
    simp only [lexed]
    exact ⟨fun _ => rfl, fun lost => absurd (by simp) lost⟩

/-- What `lex` needs of a word to read it as a normal string. -/
private def isNormal : Bytes → Bool
  | [] => false
  | d :: w => !isdigit d && d != quote && (d :: w).all isword

private theorem scan_word {word : Bytes} (normal : isNormal word = true) (rest : Bytes) :
    scan (word ++ blank :: rest) = (keyword word, word, blank :: rest) := by
  cases word with
  | nil => simp [isNormal] at normal
  | cons d w =>
    simp only [isNormal, Bool.and_eq_true, Bool.not_eq_true', bne_iff_ne, List.all_eq_true]
      at normal
    obtain ⟨⟨plain, open_quote⟩, letters⟩ := normal
    have first := letters d List.mem_cons_self
    simp only [isword, Bool.and_eq_true, Bool.not_eq_true'] at first
    obtain ⟨space, control⟩ := first
    have line : d ≠ newline := by
      rintro rfl
      exact absurd space (by decide)
    rw [← scanToken_word plain open_quote letters rfl]
    simp [scan, line, space, control]

private theorem readRequest_of_word (word : Bytes) (normal : isNormal word = true)
    (rest : Bytes) :
    (Lexer.new (word ++ blank :: rest)).lex.1 = keyword word ∧
      ∃ l, l.unread = blank :: (rest ++ [0]) ∧
        readRequest (word ++ blank :: rest) = readArgs (keyword word) l := by
  have scanned : scan (Lexer.new (word ++ blank :: rest)).unread =
      (keyword word, word, blank :: (rest ++ [0])) := by
    rw [Lexer.new_unread, List.append_assoc, List.cons_append]
    exact scan_word normal (rest ++ [0])
  obtain ⟨l, lexed, -, left⟩ := Lexer.exists_lex scanned
  exact ⟨by rw [lexed], l, left, by rw [readRequest, lexed]⟩

private theorem delivers_named {word : Bytes} {make : Bytes → Request}
    (normal : isNormal word = true) (command : readArgs (keyword word) = readNamed make)
    (str : Bytes) :
    Delivers (readRequest (word ++ blank :: (escape str ++ [newline]))) (del ∉ str)
      (make str) := by
  obtain ⟨-, l, left, read⟩ := readRequest_of_word word normal (escape str ++ [newline])
  rw [read, command]
  rw [List.append_assoc] at left
  exact (delivers_strArg left fun l left => delivers_lineEnd left _).of_iff (by simp)

private theorem delivers_openNamed {word : Bytes} {make : Bytes → Request}
    (normal : isNormal word = true) (command : readArgs (keyword word) = readOpenNamed make)
    (str : Bytes) :
    Delivers (readRequest (word ++ blank :: (escape str ++ [newline]))) (del ∉ str)
      (make str) := by
  obtain ⟨-, l, left, read⟩ := readRequest_of_word word normal (escape str ++ [newline])
  rw [read, command]
  rw [List.append_assoc] at left
  have made (l : Lexer) : Delivers (some (make str)) True (make str) :=
    ⟨fun _ => rfl, fun absent => absurd trivial absent⟩
  exact (delivers_strArg left fun l _ => made l).of_iff (by simp)

private theorem delivers_int {word : Bytes} {make : Int → Request}
    (normal : isNormal word = true) (command : readArgs (keyword word) = readInt make)
    (n : Int32) :
    Delivers (readRequest (word ++ blank :: (setNum n.toInt ++ [newline]))) (0 ≤ n.toInt)
      (make n.toInt) := by
  obtain ⟨-, l, left, read⟩ := readRequest_of_word word normal (setNum n.toInt ++ [newline])
  rw [read, command]
  rw [List.append_assoc] at left
  exact (delivers_numArg left fun l left => delivers_lineEnd left _).of_iff (by simp)

private theorem delivers_call (call : Call) :
    Delivers (readRequest call.line) call.Carried call.request := by
  cases call with
  | setPass pass timeout =>
    obtain ⟨-, l, left, read⟩ := readRequest_of_word (ascii "PASS") (by decide)
      (escape pass.1 ++ blank :: (setNum timeout.toInt ++ [newline]))
    simp only [List.append_assoc, List.cons_append] at left
    rw [Call.line, setPass, read]
    exact (delivers_strArg left fun l left => delivers_numArg left fun l left =>
      delivers_lineEnd left _).of_iff (by simp [Call.Carried])
  | exec prog user options env =>
    obtain ⟨-, l, left, read⟩ := readRequest_of_word (ascii "EXEC") (by decide)
      (escape prog ++ blank :: (escape user ++
        ((if options ≠ [] ∨ env ≠ [] then blank :: (escape options ++ escapeEnv env) else []) ++
          [newline])))
    simp only [List.append_assoc, List.cons_append] at left
    rw [Call.line, exec, read]
    exact delivers_strArg left fun l left => delivers_strArg left fun l left =>
      delivers_execArgs left
  | delCommand key user =>
    obtain ⟨-, l, left, read⟩ := readRequest_of_word (ascii "DEL") (by decide)
      (escape key ++ blank :: (escape user ++ [newline]))
    simp only [List.append_assoc, List.cons_append] at left
    rw [Call.line, delCommand, read]
    exact (delivers_strArg left fun l left => delivers_strArg left fun l left =>
      delivers_lineEnd left _).of_iff (by simp [Call.Carried])
  | setVar key value timeout group =>
    obtain ⟨-, l, left, read⟩ := readRequest_of_word (ascii "SET") (by decide)
      (escape key ++ blank :: (escape value ++ blank :: (escape group ++
        blank :: (setNum timeout.toInt ++ [newline]))))
    simp only [List.append_assoc, List.cons_append] at left
    rw [Call.line, setVar, read]
    exact (delivers_strArg left fun l left => delivers_strArg left fun l left =>
      delivers_strArg left fun l left => delivers_numArg left fun l left =>
        delivers_lineEnd left _).of_iff (by simp [Call.Carried])
  | setHost host => exact delivers_named (by decide) rfl host
  | getVar key => exact delivers_named (by decide) rfl key
  | getKeys group => exact delivers_named (by decide) rfl group
  | findGroup group => exact delivers_named (by decide) rfl group
  | delVar key => exact delivers_named (by decide) rfl key
  | delGroup group => exact delivers_openNamed (by decide) rfl group
  | delVars special_key => exact delivers_openNamed (by decide) rfl special_key
  | setPriority prio => exact delivers_int (by decide) rfl prio
  | setScheduler sched => exact delivers_int (by decide) rfl sched

private theorem refusal_call (call : Call) : refusal call.line = [] := by
  obtain ⟨word, rest, line, normal, known⟩ : ∃ word rest, call.line = word ++ blank :: rest ∧
      isNormal word = true ∧ isCommandWord (keyword word) = true := by
    cases call <;> exact ⟨_, _, rfl, by decide, by decide⟩
  rw [refusal, line, (readRequest_of_word word normal rest).1, known, if_pos rfl]

private theorem escape_no_newline (str : Bytes) : newline ∉ escape str := by
  have byte (c : UInt8) : newline ∉ escapeByte c := by
    revert c
    decide +kernel
  simp only [escape, List.mem_cons, List.mem_append, List.mem_flatMap, List.not_mem_nil]
  rintro (first | ⟨c, -, inside⟩ | last | none)
  · exact absurd first (by decide)
  · exact byte c inside
  · exact absurd last (by decide)
  · exact none

private theorem setNum_no_newline (n : Int) : newline ∉ setNum n := by
  have plain (n : Nat) : newline ∉ decimal n := fun inside =>
    absurd (decimal_isdigit n newline inside) (by decide)
  simp only [setNum]
  split_ifs
  · simp only [List.mem_cons, not_or]
    exact ⟨by decide, plain _⟩
  · exact plain _

private theorem escapeEnv_no_newline (env : List Bytes) : newline ∉ escapeEnv env := by
  simp only [escapeEnv, List.mem_flatMap, List.mem_cons, not_exists, not_and, not_or]
  exact fun var _ => ⟨by decide, escape_no_newline var⟩

def OneLine (s : Bytes) : Prop := ∃ body, s = body ++ [newline] ∧ newline ∉ body

private theorem oneLine_append {s t : Bytes} (free : newline ∉ s) (line : OneLine t) :
    OneLine (s ++ t) := by
  obtain ⟨body, rfl, rest⟩ := line
  refine ⟨s ++ body, by rw [List.append_assoc], ?_⟩
  rw [List.mem_append, not_or]
  exact ⟨free, rest⟩

private theorem oneLine_blank {t : Bytes} (line : OneLine t) : OneLine (blank :: t) :=
  oneLine_append (s := [blank]) (by decide) line

private theorem oneLine_end : OneLine [newline] := ⟨[], rfl, by simp⟩

private theorem oneLine_escape {t : Bytes} (str : Bytes) (line : OneLine t) :
    OneLine (blank :: (escape str ++ t)) :=
  oneLine_blank (oneLine_append (escape_no_newline str) line)

private theorem oneLine_setNum {t : Bytes} (n : Int) (line : OneLine t) :
    OneLine (blank :: (setNum n ++ t)) :=
  oneLine_blank (oneLine_append (setNum_no_newline n) line)

theorem oneLine_call (call : Call) : OneLine call.line := by
  cases call
  case exec prog user options env =>
    apply oneLine_append (by decide)
    apply oneLine_escape
    apply oneLine_escape
    apply oneLine_append ?_ oneLine_end
    split_ifs
    · simp only [List.mem_cons, List.mem_append, not_or]
      exact ⟨by decide, escape_no_newline options, escapeEnv_no_newline env⟩
    · simp
  case setPass pass timeout =>
    exact oneLine_append (by decide) (oneLine_escape _ (oneLine_setNum _ oneLine_end))
  case setVar key value timeout group =>
    exact oneLine_append (by decide) (oneLine_escape _ (oneLine_escape _ (oneLine_escape _
      (oneLine_setNum _ oneLine_end))))
  case delCommand key user =>
    exact oneLine_append (by decide) (oneLine_escape _ (oneLine_escape _ oneLine_end))
  case setPriority prio => exact oneLine_append (by decide) (oneLine_setNum _ oneLine_end)
  case setScheduler sched => exact oneLine_append (by decide) (oneLine_setNum _ oneLine_end)
  all_goals exact oneLine_append (by decide) (oneLine_escape _ oneLine_end)

theorem doCommand_call (call : Call) :
    (call.Carried ∧ readRequest call.line = some call.request ∧
        ∀ sys h repo, doCommand sys h repo call.line =
          if peerIsMe sys h then perform sys h repo call.request else parseError h repo) ∨
      (¬call.Carried ∧
        ∀ sys h repo, ∃ h', doCommand sys h repo call.line = parseError h' repo) := by
  obtain ⟨delivered, refused⟩ := delivers_call call
  by_cases carried : call.Carried
  · refine Or.inl ⟨carried, delivered carried, fun sys h repo => ?_⟩
    split_ifs with me
    · exact doCommand_of_request me repo (delivered carried)
    · exact doCommand_of_stranger me repo call.line
  · refine Or.inr ⟨carried, fun sys h repo => ?_⟩
    by_cases me : peerIsMe sys h
    · obtain ⟨h', -, same⟩ := doCommand_of_none me repo (refused carried)
      exact ⟨h', by rw [same, refusal_call]; rfl⟩
    · exact ⟨h, doCommand_of_stranger me repo call.line⟩

/-- Every line a request method emits is one line. The daemon performs on it the request
that was meant, if no argument holds DEL or a sign, and else refuses it. -/
theorem no_request_misread (call : Call) :
    OneLine call.line ∧
      ((call.Carried ∧ readRequest call.line = some call.request ∧
          ∀ sys h repo, doCommand sys h repo call.line =
            if peerIsMe sys h then perform sys h repo call.request else parseError h repo) ∨
        (¬call.Carried ∧
          ∀ sys h repo, ∃ h', doCommand sys h repo call.line = parseError h' repo)) :=
  ⟨oneLine_call call, doCommand_call call⟩

end KDESu.Client.Requesting
