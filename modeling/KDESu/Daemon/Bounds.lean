/- KDESu/Daemon/Bounds
   source: src/kdesud/lexer.cpp, src/kdesud/handler.cpp
   digest: The lexer one read of m_Input at a time, and all of doCommand on it: no read is
   beyond the NUL behind the data, and every loop ends. -/

import KDESu.Daemon.Handling

set_option autoImplicit false
set_option relaxedAutoImplicit false

namespace KDESu.Daemon.Bounds

open KDESu.ByteArrays
open KDESu.Daemon.Lexing
open KDESu.Daemon.Repositories (Repository)
open KDESu.Daemon.Handling

/-- `m_Input[pos]`, up to the NUL that QByteArray keeps behind its data and not beyond it. -/
def readAt (m_Input : Bytes) (pos : Nat) : Option UInt8 := (m_Input ++ [0])[pos]?

section

variable (m_Input : Bytes)

/-- `while (isspace(c = m_Input[in++]))`: the byte that stops it and the position behind it. -/
def skipBlanks : Nat → Nat → Option (UInt8 × Nat)
  | 0, _ => none
  | fuel + 1, pos => do
      let c ← readAt m_Input pos
      if isspace c then skipBlanks fuel (pos + 1) else return (c, pos + 1)

/-- `while (isdigit(c = m_Input[in++]))` and the step back behind it. -/
def takeDigits : Nat → Nat → Bytes → Option (Bytes × Nat)
  | 0, _, _ => none
  | fuel + 1, pos, out => do
      let c ← readAt m_Input pos
      if isdigit c then takeDigits fuel (pos + 1) (out ++ [c]) else return (out, pos + 1 - 1)

def takeQuoted : Nat → UInt8 → Nat → Bytes → Option (Token × Bytes × Nat)
  | 0, _, _, _ => none
  | fuel + 1, c, pos, out =>
      if c = quote then return (.str, out, pos)
      else if iscntrl c then return (.none, out, pos)
      else if c = backslash then do
        let c ← readAt m_Input pos
        if iscntrl c then return (.none, out, pos + 1)
        else if c = caret then do
          let c ← readAt m_Input (pos + 1)
          if c = quote || iscntrl c then return (.none, out, pos + 2)
          else takeQuoted fuel (← readAt m_Input (pos + 2)) (pos + 3) (out ++ [c - 64])
        else takeQuoted fuel (← readAt m_Input (pos + 1)) (pos + 2) (out ++ [c])
      else do takeQuoted fuel (← readAt m_Input pos) (pos + 1) (out ++ [c])

def takeWord : Nat → UInt8 → Nat → Bytes → Option (Bytes × Nat)
  | 0, _, _, _ => none
  | fuel + 1, c, pos, out =>
      if isword c then do takeWord fuel (← readAt m_Input pos) (pos + 1) (out ++ [c])
      else return (out, pos - 1)

/-- `lex` behind the white space, from the byte `c` that was read last. -/
def tokenAt (fuel : Nat) (c : UInt8) (pos : Nat) : Option (Token × Bytes × Nat) :=
  if isdigit c then do
    let (out, pos) ← takeDigits m_Input fuel pos [c]
    return (.num, out, pos)
  else if c = quote then do takeQuoted m_Input fuel (← readAt m_Input pos) (pos + 1) []
  else do
    let (word, pos) ← takeWord m_Input fuel c pos []
    return (keyword word, word, pos)

def scanAt (pos : Nat) : Option (Token × Bytes × Nat) := do
  let fuel := m_Input.length + 2
  let c ← readAt m_Input pos
  if c = newline then return (.newline, [], pos + 1)
  else if iscntrl c then return (.none, [], pos + 1)
  else if isspace c then do
    let (c, pos) ← skipBlanks m_Input fuel (pos + 1)
    tokenAt m_Input fuel c pos
  else tokenAt m_Input fuel c (pos + 1)

end

def lexAt (l : Lexer) : Option (Token × Lexer) := do
  let (tok, out, pos) ← scanAt l.m_Input l.pos
  return (tok, { l with pos := pos, m_Output := out })

example : lexAt ⟨ascii " \n", 0, []⟩ = some (.str, ⟨ascii " \n", 2, []⟩) := by decide

example : lexAt ⟨ascii "\"ab", 4, []⟩ = none := by decide

structure Unread (m_Input : Bytes) (pos : Nat) (s : Bytes) : Prop where
  rest : (m_Input ++ [0]).drop pos = s
  nul : (0 : UInt8) ∈ s

section

variable {m_Input : Bytes} {pos : Nat} {c : UInt8} {s : Bytes}

theorem unread_of_le (inside : pos ≤ m_Input.length) :
    Unread m_Input pos ((m_Input ++ [0]).drop pos) := by
  refine ⟨rfl, ?_⟩
  rw [List.drop_append_of_le_length inside]
  exact List.mem_append_right _ (List.mem_singleton.mpr rfl)

theorem Unread.ne_nil (unread : Unread m_Input pos s) : s ≠ [] := List.ne_nil_of_mem unread.nul

theorem Unread.length (unread : Unread m_Input pos s) : s.length = m_Input.length + 1 - pos := by
  rw [← unread.rest, List.length_drop, List.length_append, List.length_singleton]

theorem Unread.inside (unread : Unread m_Input pos s) : pos ≤ m_Input.length := by
  have some_left := List.length_pos_iff.mpr unread.ne_nil
  rw [unread.length] at some_left
  omega

theorem Unread.readAt (unread : Unread m_Input pos (c :: s)) : readAt m_Input pos = some c := by
  rw [Bounds.readAt, ← List.head?_drop, unread.rest, List.head?_cons]

theorem Unread.tail_eq (unread : Unread m_Input pos (c :: s)) :
    (m_Input ++ [0]).drop (pos + 1) = s := by
  rw [← List.tail_drop, unread.rest, List.tail_cons]

theorem Unread.tail (unread : Unread m_Input pos (c :: s)) (other : c ≠ 0) :
    Unread m_Input (pos + 1) s :=
  ⟨unread.tail_eq, (List.mem_cons.mp unread.nul).resolve_left other.symm⟩

theorem Unread.next (unread : Unread m_Input pos (c :: s)) (other : c ≠ 0) :
    ∃ d s', s = d :: s' ∧ Unread m_Input (pos + 1) (d :: s') := by
  have next := unread.tail other
  obtain ⟨d, s', rfl⟩ := List.exists_cons_of_ne_nil next.ne_nil
  exact ⟨d, s', rfl, next⟩

theorem skipBlanks_eq {fuel : Nat} (unread : Unread m_Input pos s) (enough : s.length < fuel) :
    ∃ c later p, skipBlanks m_Input fuel pos = some (c, p + 1) ∧
      s.dropWhile isspace = c :: later ∧ Unread m_Input p (c :: later) := by
  induction fuel generalizing pos s with
  | zero => cases enough
  | succ fuel ih =>
    obtain ⟨c, s, rfl⟩ := List.exists_cons_of_ne_nil unread.ne_nil
    by_cases space : isspace c = true
    · have other : c ≠ 0 := by
        rintro rfl
        cases space
      obtain ⟨d, later, p, skipped, stop, unread'⟩ :=
        ih (unread.tail other) (Nat.lt_of_succ_lt_succ enough)
      refine ⟨d, later, p, ?_, ?_, unread'⟩
      · simp only [skipBlanks, unread.readAt, Option.bind_eq_bind, Option.bind_some, space, if_true,
          skipped]
      · rw [List.dropWhile_cons_of_pos space, stop]
    · refine ⟨c, s, pos, ?_, ?_, unread⟩
      · simp [skipBlanks, unread.readAt, space]
      · rw [List.dropWhile_cons_of_neg space]

theorem takeDigits_eq {fuel : Nat} (unread : Unread m_Input pos s) (enough : s.length < fuel)
    (out : Bytes) :
    ∃ p, takeDigits m_Input fuel pos out = some (out ++ s.takeWhile isdigit, p) ∧
      Unread m_Input p (s.dropWhile isdigit) := by
  induction fuel generalizing pos s out with
  | zero => cases enough
  | succ fuel ih =>
    obtain ⟨c, s, rfl⟩ := List.exists_cons_of_ne_nil unread.ne_nil
    by_cases digit : isdigit c = true
    · have other : c ≠ 0 := by
        rintro rfl
        cases digit
      obtain ⟨p, taken, unread'⟩ :=
        ih (unread.tail other) (Nat.lt_of_succ_lt_succ enough) (out ++ [c])
      refine ⟨p, ?_, ?_⟩
      · simp [takeDigits, unread.readAt, digit, taken]
      · rwa [List.dropWhile_cons_of_pos digit]
    · refine ⟨pos, ?_, ?_⟩
      · simp [takeDigits, unread.readAt, digit]
      · rwa [List.dropWhile_cons_of_neg digit]

theorem takeWord_eq {fuel : Nat} (unread : Unread m_Input pos (c :: s))
    (enough : (c :: s).length ≤ fuel) (out : Bytes) :
    ∃ p, takeWord m_Input fuel c (pos + 1) out = some (out ++ (c :: s).takeWhile isword, p) ∧
      Unread m_Input p ((c :: s).dropWhile isword) := by
  induction fuel generalizing pos c s out with
  | zero => cases enough
  | succ fuel ih =>
    by_cases word : isword c = true
    · have other : c ≠ 0 := by
        rintro rfl
        cases word
      obtain ⟨d, s, rfl, next⟩ := unread.next other
      obtain ⟨p, taken, unread'⟩ := ih next (Nat.le_of_succ_le_succ enough) (out ++ [c])
      refine ⟨p, ?_, ?_⟩
      · rw [takeWord, if_pos word, next.readAt]
        simp only [Option.bind_eq_bind, Option.bind_some, taken,
          List.takeWhile_cons_of_pos word, List.append_assoc, List.singleton_append]
      · rwa [List.dropWhile_cons_of_pos word]
    · refine ⟨pos, ?_, ?_⟩
      · rw [takeWord, if_neg word, List.takeWhile_cons_of_neg word, List.append_nil]
        rfl
      · rwa [List.dropWhile_cons_of_neg word]

/-- A token was read as the list of the unread bytes has it; the position is behind its bytes, and
inside the data unless it is a `Tok_none`. -/
structure Reached (m_Input : Bytes) (read : Option (Token × Bytes × Nat))
    (scanned : Token × Bytes × Bytes) (p : Nat) : Prop where
  read : read = some (scanned.1, scanned.2.1, p)
  rest : (m_Input ++ [0]).drop p = scanned.2.2
  within : p ≤ m_Input.length + 1
  inside : scanned.1 ≠ .none → p ≤ m_Input.length

theorem reached_of_unread (unread : Unread m_Input pos s) (tok : Token) (out : Bytes) :
    Reached m_Input (some (tok, out, pos)) (tok, out, s) pos :=
  ⟨rfl, unread.rest, unread.inside.trans (Nat.le_succ _), fun _ => unread.inside⟩

theorem reached_of_none (unread : Unread m_Input pos (c :: s)) (out : Bytes) :
    Reached m_Input (some (.none, out, pos + 1)) (.none, out, s) (pos + 1) :=
  ⟨rfl, unread.tail_eq, Nat.succ_le_succ unread.inside, fun other => absurd rfl other⟩

theorem ne_nul_of_plain (plain : ¬iscntrl c = true) : c ≠ 0 := by
  rintro rfl
  exact plain rfl

theorem takeQuoted_eq {fuel : Nat} (unread : Unread m_Input pos (c :: s))
    (enough : (c :: s).length ≤ fuel) (out : Bytes) :
    ∃ p, Reached m_Input (takeQuoted m_Input fuel c (pos + 1) out) (scanQuoted out (c :: s)) p := by
  induction fuel generalizing pos c s out with
  | zero => cases enough
  | succ fuel ih =>
    rw [List.length_cons] at enough
    by_cases close : c = quote
    · subst close
      rw [scanQuoted_quote, takeQuoted, if_pos rfl]
      exact ⟨_, reached_of_unread (unread.tail (by decide)) .str out⟩
    by_cases control : iscntrl c = true
    · rw [scanQuoted_control out s close control, takeQuoted, if_neg close, if_pos control]
      exact ⟨_, reached_of_none unread out⟩
    obtain ⟨d, s, rfl, next⟩ := unread.next (ne_nul_of_plain control)
    rw [List.length_cons] at enough
    by_cases escape : c = backslash
    · subst escape
      rw [takeQuoted, if_neg close, if_neg control, if_pos rfl, next.readAt]
      simp only [Option.bind_eq_bind, Option.bind_some]
      by_cases control' : iscntrl d = true
      · rw [scanQuoted_backslash_control out s control', if_pos control']
        exact ⟨_, reached_of_none next out⟩
      obtain ⟨e, s, rfl, next'⟩ := next.next (ne_nul_of_plain control')
      rw [List.length_cons] at enough
      rw [if_neg control']
      by_cases code : d = caret
      · subst code
        rw [if_pos rfl, next'.readAt]
        simp only [Option.bind_some]
        by_cases stop : (e = quote || iscntrl e) = true
        · rw [scanQuoted_caret_stop out s stop, if_pos stop]
          exact ⟨_, reached_of_none next' out⟩
        obtain ⟨open_quote, plain⟩ : e ≠ quote ∧ ¬iscntrl e = true := by simpa using stop
        obtain ⟨g, s, rfl, last⟩ := next'.next (ne_nul_of_plain plain)
        rw [if_neg stop, last.readAt, scanQuoted_caret out _ open_quote (by simpa using plain)]
        exact ih last (by rw [List.length_cons] at enough ⊢; omega) _
      · rw [if_neg code, next'.readAt, scanQuoted_backslash out _ (by simpa using control') code]
        exact ih next' (by rw [List.length_cons]; omega) _
    · rw [takeQuoted, if_neg close, if_neg control, if_neg escape, next.readAt,
        scanQuoted_plain out _ close (by simpa using control) escape]
      exact ih next (by rw [List.length_cons]; omega) _

theorem tokenAt_eq {fuel : Nat} (unread : Unread m_Input pos (c :: s))
    (enough : (c :: s).length ≤ fuel) :
    ∃ p, Reached m_Input (tokenAt m_Input fuel c (pos + 1)) (scanToken (c :: s)) p := by
  have shorter : s.length < fuel := enough
  simp only [tokenAt, scanToken]
  split_ifs with digit quoted
  · have other : c ≠ 0 := by
      rintro rfl
      cases digit
    obtain ⟨p, taken, unread'⟩ := takeDigits_eq (unread.tail other) shorter [c]
    rw [taken]
    exact ⟨p, reached_of_unread unread' .num _⟩
  · subst quoted
    obtain ⟨d, s, rfl, next⟩ := unread.next (by decide : quote ≠ 0)
    rw [next.readAt]
    exact takeQuoted_eq next (Nat.le_of_lt shorter) []
  · obtain ⟨p, taken, unread'⟩ := takeWord_eq unread enough []
    rw [taken]
    exact ⟨p, reached_of_unread unread' _ _⟩

def Inside (l : Lexer) : Prop := l.pos ≤ l.m_Input.length

theorem scanAt_eq (inside : pos ≤ m_Input.length) :
    ∃ p, Reached m_Input (scanAt m_Input pos) (scan ((m_Input ++ [0]).drop pos)) p := by
  have unread := unread_of_le inside
  have enough := unread.length
  obtain ⟨c, s, cut⟩ := List.exists_cons_of_ne_nil unread.ne_nil
  rw [cut] at unread enough
  rw [List.length_cons] at enough
  rw [cut, scanAt, unread.readAt]
  simp only [scan, Option.bind_eq_bind, Option.bind_some]
  split_ifs with line control space
  · subst line
    exact ⟨_, reached_of_unread (unread.tail (by decide)) .newline []⟩
  · exact ⟨_, reached_of_none unread []⟩
  · have next := unread.tail (ne_nul_of_plain control)
    have within : s.length < m_Input.length + 2 := by omega
    obtain ⟨d, later, p, skipped, stop, unread'⟩ := skipBlanks_eq next within
    have fewer := (List.dropWhile_suffix (l := s) isspace).length_le
    rw [stop] at fewer
    rw [skipped, stop]
    have room : (d :: later).length ≤ m_Input.length + 2 := fewer.trans (by omega)
    exact tokenAt_eq unread' room
  · exact tokenAt_eq unread (by rw [List.length_cons]; omega)

/-- From a position inside the data `lex` reads nothing beyond the NUL, every loop of it ends, and
it stays inside unless it finds a `Tok_none`. -/
theorem lexAt_eq {l : Lexer} (inside : Inside l) :
    ∃ tok l', l.lex = (tok, l') ∧ lexAt l = some (tok, l') ∧ (tok ≠ .none → Inside l') := by
  obtain ⟨p, read, rest, within, stays⟩ := scanAt_eq inside
  have position : l.m_Input.length + 1 - (scan l.unread).2.2.length = p := by
    rw [Lexer.unread, ← rest, List.length_drop, List.length_append, List.length_singleton]
    omega
  refine ⟨(scan l.unread).1, ⟨l.m_Input, p, (scan l.unread).2.1⟩, ?_, ?_, stays⟩
  · rw [Lexer.lex, ← position]
  · rw [lexAt, read]
    rfl

end

def onStrAt (l : Lexer) (h : ConnectionHandler) (repo : Repository)
    (next : Bytes → Lexer → Option Outcome) : Option Outcome :=
  (lexAt l).bind fun
    | (.str, l) => next l.lval l
    | _ => some (parseError h repo)

def onNumAt (l : Lexer) (h : ConnectionHandler) (repo : Repository)
    (next : Int → Lexer → Option Outcome) : Option Outcome :=
  (lexAt l).bind fun
    | (.num, l) => next (toInt l.lval) l
    | _ => some (parseError h repo)

def onNewlineAt (l : Lexer) (h : ConnectionHandler) (repo : Repository)
    (next : Outcome) : Option Outcome :=
  (lexAt l).map fun
    | (.newline, _) => next
    | _ => parseError h repo

def doPassAt (h : ConnectionHandler) (repo : Repository) (l : Lexer) : Option Outcome :=
  onStrAt l h repo fun password l =>
    let h := { h with m_Pass := some password }
    onNumAt l h repo fun timeout l =>
      let h := { h with m_Timeout := timeout }
      onNewlineAt l h repo <|
        let h := if h.m_Pass.isNull then { h with m_Pass := some [] } else h
        answer h repo .Res_OK []

def doHostAt (h : ConnectionHandler) (repo : Repository) (l : Lexer) : Option Outcome :=
  onStrAt l h repo fun host l =>
    let h := { h with m_Host := host }
    onNewlineAt l h repo (answer h repo .Res_OK [])

def doSetIntAt (update : ConnectionHandler → Int → ConnectionHandler) (h : ConnectionHandler)
    (repo : Repository) (l : Lexer) : Option Outcome :=
  onNumAt l h repo fun n l =>
    let h := update h n
    onNewlineAt l h repo (answer h repo .Res_OK [])

/-- The environment loop; with its fuel gone the whole call is none, and a parse error is a none
inside. -/
def readEnvAt : Nat → Token × Lexer → List Bytes → QByteArray →
    Option (Option (List Bytes × QByteArray))
  | 0, _, _, _ => none
  | fuel + 1, (tok, l), env, env_check =>
      if tok = .newline then some (some (env, env_check))
      else if tok = .str then do
        readEnvAt fuel (← lexAt l) (env ++ [l.lval]) (checkEnv env_check l.lval)
      else some none

def doExecAt (sys : SysCalls) (h : ConnectionHandler) (repo : Repository) (l : Lexer) :
    Option Outcome :=
  onStrAt l h repo fun command l =>
    onStrAt l h repo fun user l =>
      (lexAt l).bind fun
        | (.newline, _) => some (execCommand sys h repo command user [] [] none)
        | (.str, l) => do
            let options := l.lval
            match ← readEnvAt (l.unread.length + 1) (← lexAt l) [] none with
            | some (env, env_check) =>
                some (execCommand sys h repo command user options env env_check)
            | none => some (parseError h repo)
        | _ => some (parseError h repo)

def doDelCmdAt (h : ConnectionHandler) (repo : Repository) (l : Lexer) : Option Outcome :=
  onStrAt l h repo fun command l =>
    onStrAt l h repo fun user l =>
      onNewlineAt l h repo (report h (repo.remove (makeKey 0 h.m_Host user command)))

def doNamedAt (act : Bytes → Outcome) (h : ConnectionHandler) (repo : Repository) (l : Lexer) :
    Option Outcome :=
  onStrAt l h repo fun name l => onNewlineAt l h repo (act name)

def doOpenNamedAt (act : Bytes → Outcome) (h : ConnectionHandler) (repo : Repository) (l : Lexer) :
    Option Outcome :=
  onStrAt l h repo fun name _ => some (act name)

def doSetAt (sys : SysCalls) (h : ConnectionHandler) (repo : Repository) (l : Lexer) :
    Option Outcome :=
  onStrAt l h repo fun name l =>
    onStrAt l h repo fun value l =>
      onStrAt l h repo fun group l =>
        onNumAt l h repo fun timeout l =>
          onNewlineAt l h repo (setVariable sys h repo name value group timeout)

def doCommandAt (sys : SysCalls) (h : ConnectionHandler) (repo : Repository) (buf : Bytes) :
    Option Outcome :=
  if ¬peerIsMe sys h then some (parseError h repo)
  else
    (lexAt (Lexer.new buf)).bind fun
      | (.pass, l) => doPassAt h repo l
      | (.host, l) => doHostAt h repo l
      | (.prio, l) => doSetIntAt (fun h n => { h with m_Priority := n }) h repo l
      | (.sched, l) => doSetIntAt (fun h n => { h with m_Scheduler := n }) h repo l
      | (.exec, l) => doExecAt sys h repo l
      | (.delCmd, l) => doDelCmdAt h repo l
      | (.delVar, l) =>
          doNamedAt (fun name => report h (repo.remove (makeKey 1 name [] []))) h repo l
      | (.delGroup, l) => doOpenNamedAt (fun name => report h (repo.removeGroup name)) h repo l
      | (.delSpecialKey, l) =>
          doOpenNamedAt (fun name => report h (repo.removeSpecialKey name)) h repo l
      | (.set, l) => doSetAt sys h repo l
      | (.get, l) =>
          doNamedAt (fun name => deliver h repo (repo.find (makeKey 1 name [] [])).data) h repo l
      | (.getKeys, l) =>
          doNamedAt (fun name => deliver h repo (repo.findKeys name (ascii "-"))) h repo l
      | (.chkGroup, l) => doNamedAt (fun name => report h (repo, repo.hasGroup name)) h repo l
      | (.ping, l) => onNewlineAt l h repo (answer h repo .Res_OK [])
      | (.exit, l) => onNewlineAt l h repo (requestExitCode h repo)
      | (.stop, l) => onNewlineAt l h repo { answer h repo .Res_OK [] with ending := .exit }
      | _ => some { parseError h repo with sent := [.respond .Res_NO []] }

section

variable {l : Lexer} {h : ConnectionHandler} {repo : Repository}

theorem onStrAt_eq (inside : Inside l) {next : Bytes → Lexer → Outcome}
    {next' : Bytes → Lexer → Option Outcome}
    (rest : ∀ s l, Inside l → next' s l = some (next s l)) :
    onStrAt l h repo next' = some (onStr l h repo next) := by
  obtain ⟨tok, l, lex, lexed, stays⟩ := lexAt_eq inside
  rw [onStrAt, lexed, Option.bind_some, onStr, lex]
  cases tok
  case str => exact rest l.lval l (stays (by simp))
  all_goals rfl

theorem onNumAt_eq (inside : Inside l) {next : Int → Lexer → Outcome}
    {next' : Int → Lexer → Option Outcome}
    (rest : ∀ n l, Inside l → next' n l = some (next n l)) :
    onNumAt l h repo next' = some (onNum l h repo next) := by
  obtain ⟨tok, l, lex, lexed, stays⟩ := lexAt_eq inside
  rw [onNumAt, lexed, Option.bind_some, onNum, lex]
  cases tok
  case num => exact rest (toInt l.lval) l (stays (by simp))
  all_goals rfl

theorem onNewlineAt_eq (inside : Inside l) (next : Outcome) :
    onNewlineAt l h repo next = some (onNewline l h repo next) := by
  obtain ⟨tok, l, lex, lexed, -⟩ := lexAt_eq inside
  rw [onNewlineAt, lexed, onNewline, lex]
  cases tok <;> rfl

theorem readEnvAt_eq {fuel : Nat} {tok : Token} (inside : tok ≠ .none → Inside l)
    (enough : l.unread.length < fuel) (env : List Bytes) (env_check : QByteArray) :
    readEnvAt fuel (tok, l) env env_check = some (readEnv fuel (tok, l) env env_check) := by
  induction fuel generalizing tok l env env_check with
  | zero => cases enough
  | succ fuel ih =>
    simp only [readEnvAt, readEnv]
    split_ifs with ended string
    · rfl
    · have here := inside (by simp [string])
      obtain ⟨tok, l', lex, lexed, stays⟩ := lexAt_eq here
      have shorter : l'.unread.length < l.unread.length := by
        simpa only [lex] using Lexer.lex_unread_length_lt (unread_of_le here).ne_nil
      rw [lexed, lex, Option.bind_eq_bind, Option.bind_some]
      exact ih stays (by omega) _ _
    · rfl

theorem doExecAt_eq (sys : SysCalls) (inside : Inside l) :
    doExecAt sys h repo l = some (doExec sys h repo l) := by
  refine onStrAt_eq inside fun command l inside => onStrAt_eq inside fun user l inside => ?_
  obtain ⟨tok, l, lex, lexed, stays⟩ := lexAt_eq inside
  rw [lexed, lex, Option.bind_some]
  cases tok
  case str =>
    have here : Inside l := stays (by simp)
    obtain ⟨tok, l', lex, lexed, stays⟩ := lexAt_eq here
    have shorter : l'.unread.length < l.unread.length := by
      simpa only [lex] using Lexer.lex_unread_length_lt (unread_of_le here).ne_nil
    have within : l'.unread.length < l.unread.length + 1 := by omega
    have looped := readEnvAt_eq stays within [] none
    simp only [lexed, lex, Option.bind_eq_bind, Option.bind_some]
    rw [looped, Option.bind_some]
    cases readEnv (l.unread.length + 1) (tok, l') [] none <;> rfl
  all_goals rfl

theorem doSetIntAt_eq (update : ConnectionHandler → Int → ConnectionHandler) (inside : Inside l) :
    doSetIntAt update h repo l = some (doSetInt update h repo l) :=
  onNumAt_eq inside fun _ _ inside => onNewlineAt_eq inside _

theorem doNamedAt_eq (act : Bytes → Outcome) (inside : Inside l) :
    doNamedAt act h repo l = some (doNamed act h repo l) :=
  onStrAt_eq inside fun _ _ inside => onNewlineAt_eq inside _

theorem doOpenNamedAt_eq (act : Bytes → Outcome) (inside : Inside l) :
    doOpenNamedAt act h repo l = some (doOpenNamed act h repo l) :=
  onStrAt_eq inside fun _ _ _ => rfl

end

/-- On every buffer the calls of `lex` that `doCommand` makes end, and none of them reads beyond
the NUL behind the data. -/
theorem doCommandAt_eq (sys : SysCalls) (h : ConnectionHandler) (repo : Repository) (buf : Bytes) :
    doCommandAt sys h repo buf = some (doCommand sys h repo buf) := by
  have start : Inside (Lexer.new buf) := Nat.zero_le _
  obtain ⟨tok, l, lex, lexed, inside⟩ := lexAt_eq start
  by_cases me : peerIsMe sys h
  · rw [doCommandAt, doCommand, if_neg (not_not.mpr me), if_neg (not_not.mpr me), lexed, lex,
      Option.bind_some]
    cases tok
    case pass =>
      exact onStrAt_eq (inside (by simp)) fun _ _ inside =>
        onNumAt_eq inside fun _ _ inside => onNewlineAt_eq inside _
    case host =>
      exact onStrAt_eq (inside (by simp)) fun _ _ inside => onNewlineAt_eq inside _
    case prio | sched => exact doSetIntAt_eq _ (inside (by simp))
    case exec => exact doExecAt_eq sys (inside (by simp))
    case delCmd =>
      exact onStrAt_eq (inside (by simp)) fun _ _ inside =>
        onStrAt_eq inside fun _ _ inside => onNewlineAt_eq inside _
    case delVar | get | getKeys | chkGroup => exact doNamedAt_eq _ (inside (by simp))
    case delGroup | delSpecialKey => exact doOpenNamedAt_eq _ (inside (by simp))
    case set =>
      exact onStrAt_eq (inside (by simp)) fun _ _ inside =>
        onStrAt_eq inside fun _ _ inside => onStrAt_eq inside fun _ _ inside =>
          onNumAt_eq inside fun _ _ inside => onNewlineAt_eq inside _
    case ping | exit | stop => exact onNewlineAt_eq (inside (by simp)) _
    all_goals rfl
  · rw [doCommandAt, doCommand, if_pos me, if_pos me]

end KDESu.Daemon.Bounds
