/- KDESu/Daemon/Lexing
   source: src/kdesud/lexer.cpp
   digest: The lexer of the daemon's protocol, one token and one unread rest at a time. -/

import KDESu.ByteArrays

set_option autoImplicit false
set_option relaxedAutoImplicit false

namespace KDESu.Daemon.Lexing

open KDESu.ByteArrays

/-- `Lexer::Tokens`, with the newline that `lex` returns as itself. -/
inductive Token
  | none | exec | pass | delCmd | ping | str | num | stop | set | get | delVar | delGroup
  | host | prio | sched | getKeys | chkGroup | delSpecialKey | exit | newline
  deriving DecidableEq, Repr

/-- The position `pos` is the source's `in`, an int: `handle` passes on lines of at most 1022 bytes,
over which it cannot wrap. -/
structure Lexer where
  m_Input : Bytes
  pos : Nat
  m_Output : Bytes
  deriving DecidableEq, Repr

def Lexer.new (input : Bytes) : Lexer := ⟨input, 0, []⟩

def Lexer.lval (l : Lexer) : Bytes := l.m_Output

/-- What `m_Input[in++]` delivers from here on, up to and with the NUL that QByteArray
keeps behind its data. -/
def Lexer.unread (l : Lexer) : Bytes := (l.m_Input ++ [0]).drop l.pos

def keyword (word : Bytes) : Token :=
  if word.length ≤ 4 then
    if word = ascii "EXEC" then .exec
    else if word = ascii "PASS" then .pass
    else if word = ascii "DEL" then .delCmd
    else if word = ascii "PING" then .ping
    else if word = ascii "EXIT" then .exit
    else if word = ascii "STOP" then .stop
    else if word = ascii "SET" then .set
    else if word = ascii "GET" then .get
    else if word = ascii "HOST" then .host
    else if word = ascii "SCHD" then .sched
    else if word = ascii "PRIO" then .prio
    else if word = ascii "DELV" then .delVar
    else if word = ascii "DELG" then .delGroup
    else if word = ascii "DELS" then .delSpecialKey
    else if word = ascii "GETK" then .getKeys
    else if word = ascii "CHKG" then .chkGroup
    else .str
  else .str

/-- The body of a quoted string behind its opening quote: token, output and unread rest.
No list ends inside it, because its last byte is the NUL, a control character. -/
def scanQuoted (out : Bytes) : Bytes → Token × Bytes × Bytes
  | [] => (.none, out, [])
  | c :: s =>
      if c = quote then (.str, out, s)
      else if iscntrl c then (.none, out, s)
      else if c = backslash then
        match s with
        | [] => (.none, out, [])
        | c :: s =>
            if iscntrl c then (.none, out, s)
            else if c = caret then
              match s with
              | [] => (.none, out, [])
              | c :: s =>
                  if c = quote || iscntrl c then (.none, out, s)
                  else scanQuoted (out ++ [c - 64]) s
            else scanQuoted (out ++ [c]) s
      else scanQuoted (out ++ [c]) s

def isword (c : UInt8) : Bool := !isspace c && !iscntrl c

def scanToken : Bytes → Token × Bytes × Bytes
  | [] => (.none, [], [])
  | c :: s =>
      if isdigit c then (.num, c :: s.takeWhile isdigit, s.dropWhile isdigit)
      else if c = quote then scanQuoted [] s
      else
        -- an empty word too is a Tok_str: a control character behind blanks yields one
        let word := (c :: s).takeWhile isword
        (keyword word, word, (c :: s).dropWhile isword)

def scan : Bytes → Token × Bytes × Bytes
  | [] => (.none, [], [])
  | c :: s =>
      if c = newline then (.newline, [], s)
      else if iscntrl c then (.none, [], s)
      else if isspace c then scanToken (s.dropWhile isspace)
      else scanToken (c :: s)

def Lexer.lex (l : Lexer) : Token × Lexer :=
  let (tok, out, rest) := scan l.unread
  (tok, { l with pos := l.m_Input.length + 1 - rest.length, m_Output := out })

theorem scanQuoted_suffix (out s : Bytes) : (scanQuoted out s).2.2 <:+ s := by
  fun_induction scanQuoted out s with
  | case1 => exact List.suffix_rfl
  | case2 | case3 => exact List.suffix_cons _ _
  | case4 => exact List.nil_suffix
  | case5 => exact (List.suffix_cons _ _).trans (List.suffix_cons _ _)
  | case6 => exact List.nil_suffix
  | case7 =>
    exact (List.suffix_cons _ _).trans ((List.suffix_cons _ _).trans (List.suffix_cons _ _))
  | case8 _ _ _ _ _ _ _ ih =>
    exact ih.trans
      ((List.suffix_cons _ _).trans ((List.suffix_cons _ _).trans (List.suffix_cons _ _)))
  | case9 _ _ _ _ _ _ _ ih => exact ih.trans ((List.suffix_cons _ _).trans (List.suffix_cons _ _))
  | case10 _ _ _ _ _ _ ih => exact ih.trans (List.suffix_cons _ _)

theorem scanToken_suffix (s : Bytes) : (scanToken s).2.2 <:+ s := by
  cases s with
  | nil => exact List.suffix_rfl
  | cons c s =>
    simp only [scanToken]
    split_ifs
    · exact (List.dropWhile_suffix _).trans (List.suffix_cons _ _)
    · exact (scanQuoted_suffix [] s).trans (List.suffix_cons _ _)
    · exact List.dropWhile_suffix _

theorem scan_suffix (s : Bytes) : (scan s).2.2 <:+ s := by
  cases s with
  | nil => exact List.suffix_rfl
  | cons c s =>
    simp only [scan]
    split_ifs
    · exact List.suffix_cons _ _
    · exact List.suffix_cons _ _
    · exact (scanToken_suffix _).trans
        ((List.dropWhile_suffix _).trans (List.suffix_cons _ _))
    · exact scanToken_suffix _

private theorem scanToken_length_lt {c : UInt8} {s : Bytes} (plain : isword c = true) :
    (scanToken (c :: s)).2.2.length < (c :: s).length := by
  simp only [scanToken]
  split_ifs
  · exact Nat.lt_succ_of_le (List.dropWhile_suffix _).length_le
  · exact Nat.lt_succ_of_le (scanQuoted_suffix [] s).length_le
  · rw [List.dropWhile_cons_of_pos plain]
    exact Nat.lt_succ_of_le (List.dropWhile_suffix _).length_le

theorem scan_length_lt {s : Bytes} (more : s ≠ []) : (scan s).2.2.length < s.length := by
  cases s with
  | nil => exact absurd rfl more
  | cons c s =>
    simp only [scan]
    split_ifs with line control space
    · exact Nat.lt_succ_self _
    · exact Nat.lt_succ_self _
    · exact Nat.lt_succ_of_le
        ((scanToken_suffix _).trans (List.dropWhile_suffix _)).length_le
    · exact scanToken_length_lt (by simp [isword, control, space])

namespace Lexer

@[simp] theorem new_unread (input : Bytes) : (new input).unread = input ++ [0] := rfl

@[simp] theorem lex_fst (l : Lexer) : l.lex.1 = (scan l.unread).1 := rfl

@[simp] theorem lex_lval (l : Lexer) : l.lex.2.lval = (scan l.unread).2.1 := rfl

@[simp] theorem lex_unread (l : Lexer) : l.lex.2.unread = (scan l.unread).2.2 := by
  have tail : (scan l.unread).2.2 <:+ l.m_Input ++ [0] :=
    (scan_suffix l.unread).trans (List.drop_suffix _ _)
  have same := List.suffix_iff_eq_drop.mp tail
  rw [List.length_append, List.length_singleton] at same
  exact same.symm

theorem lex_eq {l : Lexer} {tok : Token} {out rest : Bytes}
    (scanned : scan l.unread = (tok, out, rest)) :
    l.lex = (tok, ⟨l.m_Input, l.m_Input.length + 1 - rest.length, out⟩) := by
  simp only [lex, scanned]

theorem exists_lex {l : Lexer} {tok : Token} {out rest : Bytes}
    (scanned : scan l.unread = (tok, out, rest)) :
    ∃ l', l.lex = (tok, l') ∧ l'.lval = out ∧ l'.unread = rest := by
  refine ⟨l.lex.2, Prod.ext ?_ rfl, ?_, ?_⟩
  · rw [lex_fst, scanned]
  · rw [lex_lval, scanned]
  · rw [lex_unread, scanned]

theorem lex_unread_length_lt {l : Lexer} (more : l.unread ≠ []) :
    l.lex.2.unread.length < l.unread.length := by
  rw [lex_unread]
  exact scan_length_lt more

theorem token_length_lt {l l' : Lexer} {tok : Token} (lexed : l.lex = (tok, l'))
    (token : tok ≠ .none) : l'.unread.length < l.unread.length := by
  have more : l.unread ≠ [] := by
    intro empty
    have first : l.lex.1 = .none := by
      rw [lex_fst, empty]
      rfl
    rw [lexed] at first
    exact token first
  simpa only [lexed] using lex_unread_length_lt more

end Lexer

theorem scanQuoted_quote (out s : Bytes) : scanQuoted out (quote :: s) = (.str, out, s) := by
  rw [scanQuoted.eq_def]
  simp

theorem scanQuoted_control {c : UInt8} (out s : Bytes) (open_quote : c ≠ quote)
    (control : iscntrl c = true) : scanQuoted out (c :: s) = (.none, out, s) := by
  rw [scanQuoted.eq_def]
  simp [open_quote, control]

theorem scanQuoted_plain {c : UInt8} (out s : Bytes) (open_quote : c ≠ quote)
    (control : iscntrl c = false) (slashless : c ≠ backslash) :
    scanQuoted out (c :: s) = scanQuoted (out ++ [c]) s := by
  rw [scanQuoted.eq_def]
  simp [open_quote, control, slashless]

theorem scanQuoted_backslash {c : UInt8} (out s : Bytes) (control : iscntrl c = false)
    (caretless : c ≠ caret) :
    scanQuoted out (backslash :: c :: s) = scanQuoted (out ++ [c]) s := by
  have open_quote : backslash ≠ quote := by decide
  have slash : iscntrl backslash = false := rfl
  rw [scanQuoted.eq_def]
  simp [open_quote, slash, control, caretless]

theorem scanQuoted_caret {c : UInt8} (out s : Bytes) (open_quote : c ≠ quote)
    (control : iscntrl c = false) :
    scanQuoted out (backslash :: caret :: c :: s) = scanQuoted (out ++ [c - 64]) s := by
  have slash_open : backslash ≠ quote := by decide
  have slash : iscntrl backslash = false := rfl
  have hat : iscntrl caret = false := rfl
  rw [scanQuoted.eq_def]
  simp [slash_open, slash, hat, open_quote, control]

theorem scanQuoted_backslash_control {c : UInt8} (out s : Bytes) (control : iscntrl c = true) :
    scanQuoted out (backslash :: c :: s) = (.none, out, s) := by
  have open_quote : backslash ≠ quote := by decide
  have slash : iscntrl backslash = false := rfl
  rw [scanQuoted.eq_def]
  simp [open_quote, slash, control]

theorem scanQuoted_caret_stop {c : UInt8} (out s : Bytes)
    (stop : (c = quote || iscntrl c) = true) :
    scanQuoted out (backslash :: caret :: c :: s) = (.none, out, s) := by
  have slash_open : backslash ≠ quote := by decide
  have slash : iscntrl backslash = false := rfl
  have hat : iscntrl caret = false := rfl
  rw [scanQuoted.eq_def]
  simp [slash_open, slash, hat, stop]

@[simp] theorem scan_newline (s : Bytes) : scan (newline :: s) = (.newline, [], s) := rfl

theorem scan_blank {c : UInt8} (s : Bytes) (stop : isspace c = false) :
    scan (blank :: c :: s) = scanToken (c :: s) := by
  have here : scan (blank :: c :: s) = scanToken ((c :: s).dropWhile isspace) := rfl
  rw [here, List.dropWhile_cons_of_neg (by simp [stop])]

theorem scanToken_word {w : Bytes} {c d : UInt8} {s : Bytes} (plain : isdigit d = false)
    (open_quote : d ≠ quote) (word : ∀ b ∈ d :: w, isword b = true) (stop : isword c = false) :
    scanToken ((d :: w) ++ c :: s) = (keyword (d :: w), d :: w, c :: s) := by
  have taken : ((d :: w) ++ c :: s).takeWhile isword = d :: w := by
    rw [List.takeWhile_append_of_pos word, List.takeWhile_cons_of_neg (by simp [stop]),
      List.append_nil]
  have left : ((d :: w) ++ c :: s).dropWhile isword = c :: s := by
    rw [List.dropWhile_append_of_pos word, List.dropWhile_cons_of_neg (by simp [stop])]
  rw [List.cons_append] at taken left ⊢
  simp only [scanToken, plain, open_quote, taken, left, if_false, Bool.false_eq_true]

theorem scanToken_digits {w : Bytes} {c d : UInt8} {s : Bytes}
    (digits : ∀ b ∈ d :: w, isdigit b = true) (stop : isdigit c = false) :
    scanToken ((d :: w) ++ c :: s) = (.num, d :: w, c :: s) := by
  have first := digits d List.mem_cons_self
  have rest : ∀ b ∈ w, isdigit b = true := fun b member =>
    digits b (List.mem_cons_of_mem d member)
  simp only [List.cons_append, scanToken, first, if_true]
  rw [List.takeWhile_append_of_pos rest, List.takeWhile_cons_of_neg (by simp [stop]),
    List.append_nil, List.dropWhile_append_of_pos rest,
    List.dropWhile_cons_of_neg (by simp [stop])]

theorem scanQuoted_ne_newline (out s : Bytes) : (scanQuoted out s).1 ≠ .newline := by
  fun_induction scanQuoted out s with
  | case8 _ _ _ _ _ _ _ ih => exact ih
  | case9 _ _ _ _ _ _ _ ih => exact ih
  | case10 _ _ _ _ _ _ ih => exact ih
  | _ => exact Token.noConfusion

private theorem ite_ne_newline {p : Prop} [Decidable p] {a b : Token} (first : a ≠ .newline)
    (second : b ≠ .newline) : (if p then a else b) ≠ .newline := by
  split_ifs
  · exact first
  · exact second

theorem keyword_ne_newline (word : Bytes) : keyword word ≠ .newline := by
  unfold keyword
  repeat' apply ite_ne_newline
  all_goals simp

private theorem scanToken_ne_newline (s : Bytes) : (scanToken s).1 ≠ .newline := by
  cases s with
  | nil => exact Token.noConfusion
  | cons c s =>
    simp only [scanToken]
    split_ifs
    · exact Token.noConfusion
    · exact scanQuoted_ne_newline [] s
    · exact keyword_ne_newline _

theorem scan_eq_newline {s : Bytes} (ended : (scan s).1 = .newline) :
    ∃ rest, s = newline :: rest := by
  cases s with
  | nil => cases ended
  | cons c s =>
    simp only [scan] at ended
    split_ifs at ended with line
    · exact ⟨s, line ▸ rfl⟩
    · exact absurd ended (scanToken_ne_newline _)
    · exact absurd ended (scanToken_ne_newline _)

end KDESu.Daemon.Lexing
