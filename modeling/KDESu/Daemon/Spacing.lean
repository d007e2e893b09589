/- KDESu/Daemon/Spacing
   source: src/kdesud/lexer.cpp, src/kdesud/handler.cpp
   digest: Where further spaces in an accepted command line leave it the same command. -/

import KDESu.Daemon.Grammar

set_option autoImplicit false
set_option relaxedAutoImplicit false

namespace KDESu.Daemon.Spacing

open KDESu.ByteArrays
open KDESu.Client.Requesting (OneLine)
open KDESu.Daemon.Lexing
open KDESu.Daemon.Repositories (Repository)
open KDESu.Daemon.Handling
open KDESu.Daemon.Requests
open KDESu.Daemon.Grammar

private theorem ne_blank_of_iscntrl {c : UInt8} (control : iscntrl c = true) : c ≠ blank := by
  rintro rfl
  cases control

private theorem scanQuoted_taken (out s : Bytes) (more : (scanQuoted out s).2.2 ≠ []) :
    ∃ u d, d ≠ blank ∧ s = u ++ d :: (scanQuoted out s).2.2 ∧ ∀ v, scanQuoted out (u ++ d :: v) =
      ((scanQuoted out s).1, (scanQuoted out s).2.1, v) := by
  fun_induction scanQuoted out s with
  | case1 | case4 | case6 => exact absurd rfl more
  | case2 out s => exact ⟨[], quote, by decide, rfl, fun v => scanQuoted_quote out v⟩
  | case3 out c s open_quote control =>
    exact ⟨[], c, ne_blank_of_iscntrl control, rfl,
      fun v => scanQuoted_control out v open_quote control⟩
  | case5 out c s control =>
    exact ⟨[backslash], c, ne_blank_of_iscntrl control, rfl,
      fun v => scanQuoted_backslash_control out v control⟩
  | case7 out c s stop =>
    refine ⟨[backslash, caret], c, ?_, rfl, fun v => scanQuoted_caret_stop out v stop⟩
    rintro rfl
    cases stop
  | case8 out c s stop _ _ _ ih =>
    obtain ⟨u, d, solid, equal, same⟩ := ih more
    rw [Bool.or_eq_true, decide_eq_true_eq, not_or, Bool.not_eq_true] at stop
    refine ⟨backslash :: caret :: c :: u, d, solid, ?_, fun v => ?_⟩
    · rw [List.cons_append, List.cons_append, List.cons_append, ← equal]
    · exact (scanQuoted_caret out _ stop.1 stop.2).trans (same v)
  | case9 out c s control hat _ _ ih =>
    obtain ⟨u, d, solid, equal, same⟩ := ih more
    refine ⟨backslash :: c :: u, d, solid, ?_, fun v => ?_⟩
    · rw [List.cons_append, List.cons_append, ← equal]
    · exact (scanQuoted_backslash out _ (Bool.eq_false_iff.mpr control) hat).trans (same v)
  | case10 out c s open_quote control slash ih =>
    obtain ⟨u, d, solid, equal, same⟩ := ih more
    refine ⟨c :: u, d, solid, by rw [List.cons_append, ← equal], fun v => ?_⟩
    exact (scanQuoted_plain out _ open_quote (Bool.eq_false_iff.mpr control) slash).trans (same v)

private theorem parted {p : UInt8 → Bool} {s : Bytes} {c : UInt8} {w : Bytes}
    (left : s.dropWhile p = c :: w) :
    s = s.takeWhile p ++ c :: w ∧ p c = false ∧ ∀ b ∈ s.takeWhile p, p b = true := by
  refine ⟨?_, ?_, fun b member => List.mem_takeWhile_imp member⟩
  · rw [← left, List.takeWhile_append_dropWhile]
  · simpa [left] using List.head?_dropWhile_not p s

private theorem last_ne_blank {u : Bytes} (solid : ∀ b ∈ u, b ≠ blank) :
    u.getLast? ≠ some blank := fun last => solid blank (List.mem_of_getLast? last) rfl

/-- The bytes `u` are one token in front of `c`, and the same one in front of a blank. -/
private structure Taken (scan : Bytes → Token × Bytes × Bytes) (u : Bytes) (tok : Token)
    (out : Bytes) (c : UInt8) : Prop where
  last : u.getLast? ≠ some blank
  read : ∀ c' w, c' = c ∨ c' = blank → scan (u ++ c' :: w) = (tok, out, c' :: w)

private theorem scanToken_taken {d c : UInt8} {s w : Bytes} {tok : Token} {out : Bytes}
    (plain : isword d = true) (scanned : scanToken (d :: s) = (tok, out, c :: w)) :
    ∃ u, s = u ++ c :: w ∧ Taken scanToken (d :: u) tok out c := by
  by_cases digit : isdigit d = true
  · simp only [scanToken, digit, if_true, Prod.mk.injEq] at scanned
    obtain ⟨rfl, rfl, left⟩ := scanned
    obtain ⟨equal, stop, digits⟩ := parted left
    have all : ∀ b ∈ d :: s.takeWhile isdigit, isdigit b = true :=
      List.forall_mem_cons.mpr ⟨digit, digits⟩
    refine ⟨s.takeWhile isdigit, equal, last_ne_blank ?_, ?_⟩
    · rintro b member rfl
      cases all _ member
    · rintro c' w' (rfl | rfl)
      · exact scanToken_digits all stop
      · exact scanToken_digits all rfl
  · by_cases open_quote : d = quote
    · subst open_quote
      have here : ∀ t, scanToken (quote :: t) = scanQuoted [] t := fun _ => rfl
      rw [here] at scanned
      obtain ⟨u, b, solid, equal, same⟩ := scanQuoted_taken [] s (by simp [scanned])
      rw [scanned] at equal same
      refine ⟨u ++ [b], by simp [equal], ?_, fun c' w' _ => ?_⟩
      · rw [← List.cons_append, List.getLast?_concat]
        exact fun last => solid (Option.some.inj last)
      · rw [List.cons_append, here, List.append_assoc]
        exact same (c' :: w')
    · simp only [scanToken, digit, open_quote, if_false, Bool.false_eq_true,
        List.takeWhile_cons_of_pos plain, List.dropWhile_cons_of_pos plain,
        Prod.mk.injEq] at scanned
      obtain ⟨rfl, rfl, left⟩ := scanned
      obtain ⟨equal, stop, rest⟩ := parted left
      have word : ∀ b ∈ d :: s.takeWhile isword, isword b = true :=
        List.forall_mem_cons.mpr ⟨plain, rest⟩
      refine ⟨s.takeWhile isword, equal, last_ne_blank ?_, ?_⟩
      · rintro b member rfl
        cases word _ member
      · have first : isdigit d = false := Bool.eq_false_iff.mpr digit
        rintro c' w' (rfl | rfl)
        · exact scanToken_word first open_quote word stop
        · exact scanToken_word first open_quote word rfl

private theorem scan_blanks {gap : Bytes} (spaces : ∀ b ∈ gap, isspace b = true) (w : Bytes) :
    scan (blank :: gap ++ w) = scanToken (w.dropWhile isspace) := by
  have here : scan (blank :: (gap ++ w)) = scanToken ((gap ++ w).dropWhile isspace) := rfl
  rw [List.cons_append, here, List.dropWhile_append_of_pos spaces]

private theorem scan_plain {c : UInt8} (plain : isword c = true) (w : Bytes) :
    scan (c :: w) = scanToken (c :: w) := by
  simp only [isword, Bool.and_eq_true, Bool.not_eq_true'] at plain
  have solid : c ≠ newline := by
    rintro rfl
    cases plain.1
  simp only [scan, solid, plain, if_false, Bool.false_eq_true]

private theorem eq_blank {c : UInt8} (space : isspace c = true) (control : iscntrl c = false) :
    c = blank := by
  revert c
  decide +kernel

private theorem scanToken_control {c : UInt8} (control : iscntrl c = true) (w : Bytes) :
    scanToken (c :: w) = (.str, [], c :: w) := by
  have stop : isword c = false := by simp [isword, control]
  have digit : isdigit c = false := by
    revert c
    decide +kernel
  have open_quote : c ≠ quote := by
    rintro rfl
    cases control
  have nothing : keyword [] = .str := by decide
  simp [scanToken, digit, open_quote, stop, nothing]

/-- The bytes `u` are blanks in front of the control character `c`: an empty word, and all the
same with more blanks. -/
private structure Empty (u : Bytes) (tok : Token) (out : Bytes) (c : UInt8) : Prop where
  control : ∀ w, (scan (c :: w)).1 = .none
  read : ∀ k w, scan (u ++ (List.replicate k blank ++ c :: w)) = (tok, out, c :: w)

private theorem scan_control {c : UInt8} (control : iscntrl c = true) (solid : c ≠ newline)
    (w : Bytes) : scan (c :: w) = (.none, [], w) := by
  simp only [scan, solid, control, if_true, if_false]

private theorem blanks_taken {t w : Bytes} {tok : Token} {out : Bytes} {c : UInt8}
    (scanned : scan (blank :: t) = (tok, out, c :: w)) :
    ∃ u, blank :: t = u ++ c :: w ∧ (Taken scan u tok out c ∨ Empty u tok out c) := by
  have token : scan (blank :: t) = scanToken (t.dropWhile isspace) := rfl
  rw [token] at scanned
  cases left : t.dropWhile isspace with
  | nil =>
    rw [left] at scanned
    cases scanned
  | cons b v =>
    rw [left] at scanned
    obtain ⟨equal, solid, spaces⟩ := parted left
    generalize t.takeWhile isspace = gap at equal spaces
    subst equal
    cases control : iscntrl b with
    | true =>
      cases (scanToken_control control v).symm.trans scanned
      refine ⟨blank :: gap, rfl, Or.inr ⟨fun w' => ?_, fun k w' => ?_⟩⟩
      · have line : c ≠ newline := by
          rintro rfl
          cases solid
        rw [scan_control control line]
      · have more : ∀ b ∈ gap ++ List.replicate k blank, isspace b = true := by
          intro b member
          rcases List.mem_append.mp member with member | member
          · exact spaces b member
          · rw [List.eq_of_mem_replicate member]
            rfl
        have read := scan_blanks more (c :: w')
        rw [List.dropWhile_cons_of_neg (by simp [solid]), scanToken_control control] at read
        simpa using read
    | false =>
      have plain : isword b = true := by simp [isword, solid, control]
      obtain ⟨u, rfl, last, read⟩ := scanToken_taken plain scanned
      refine ⟨blank :: gap ++ b :: u, by simp, Or.inl ⟨?_, fun c' w' same => ?_⟩⟩
      · rwa [List.getLast?_append_cons]
      · have skipped : (b :: u ++ c' :: w').dropWhile isspace = b :: u ++ c' :: w' :=
          List.dropWhile_cons_of_neg (by simp [solid])
        rw [List.append_assoc, scan_blanks spaces, skipped, read c' w' same]

private theorem scan_taken {s w : Bytes} {tok : Token} {out : Bytes} {c : UInt8}
    (scanned : scan s = (tok, out, c :: w)) :
    ∃ u, s = u ++ c :: w ∧ (Taken scan u tok out c ∨ Empty u tok out c) := by
  cases s with
  | nil => cases scanned
  | cons d t =>
    by_cases line : d = newline
    · subst line
      cases scanned
      exact ⟨[newline], rfl, Or.inl ⟨by decide, fun c' w' _ => rfl⟩⟩
    · cases control : iscntrl d with
      | true =>
        have here := scan_control control line
        cases (here t).symm.trans scanned
        refine ⟨[d], rfl, Or.inl ⟨?_, fun c' w' _ => here (c' :: w')⟩⟩
        exact fun last => ne_blank_of_iscntrl control (Option.some.inj last)
      | false =>
        cases space : isspace d with
        | false =>
          have plain : isword d = true := by simp [isword, space, control]
          rw [scan_plain plain] at scanned
          obtain ⟨u, rfl, last, read⟩ := scanToken_taken plain scanned
          exact ⟨d :: u, rfl, Or.inl ⟨last, fun c' w' same =>
            (scan_plain plain _).trans (read c' w' same)⟩⟩
        | true =>
          obtain rfl := eq_blank space control
          exact blanks_taken scanned

/-- A line parted between two of its tokens, or between a token and the newline. White space of
the line's own may lie in front of the place. -/
inductive Between : Bytes → Bytes → Prop
  | here {token gap rest : Bytes} (more : rest ≠ [])
      (white : ∀ c ∈ gap, isspace c = true ∧ c ≠ newline)
      (read : (scan (token ++ (gap ++ (rest ++ [0])))).2.2 = gap ++ (rest ++ [0])) :
      Between (token ++ gap) rest
  | behind {token front rest : Bytes}
      (read : (scan (token ++ (front ++ (rest ++ [0])))).2.2 = front ++ (rest ++ [0]))
      (later : Between front rest) : Between (token ++ front) rest

/-- Bytes that read as the same tokens, up to one that `ends` the reading. -/
private inductive Alike (ends : Token → Prop) : Bytes → Bytes → Prop
  | same (s : Bytes) : Alike ends s s
  | ended {s s' : Bytes} (stop : ends (scan s).1) : Alike ends s s'
  | token {s s' : Bytes} (tok : (scan s').1 = (scan s).1) (value : (scan s').2.1 = (scan s).2.1)
      (later : Alike ends (scan s).2.2 (scan s').2.2) : Alike ends s s'

private theorem scan_eq_scanToken {s : Bytes} (token : (scan s).1 ≠ .none)
    (line : (scan s).1 ≠ .newline) : scan s = scanToken (s.dropWhile isspace) := by
  cases s with
  | nil => exact absurd rfl token
  | cons c s =>
    simp only [scan] at token line ⊢
    split_ifs at token line ⊢ with ended control space
    · exact absurd rfl line
    · exact absurd rfl token
    · rw [List.dropWhile_cons_of_pos space]
    · rw [List.dropWhile_cons_of_neg space]

private theorem scan_gap {gap w : Bytes} (white : ∀ c ∈ gap, isspace c = true ∧ c ≠ newline)
    (token : (scan (gap ++ w)).1 ≠ .none) (line : gap = [] → (scan w).1 ≠ .newline) (k : Nat) :
    scan (gap ++ (List.replicate k blank ++ w)) = scan (gap ++ w) := by
  have blanks : ∀ n, ∀ b ∈ List.replicate n blank, isspace b = true := fun n b member => by
    rw [List.eq_of_mem_replicate member]
    rfl
  cases gap with
  | nil =>
    cases k with
    | zero => rfl
    | succ k =>
      rw [List.nil_append, List.replicate_succ, scan_blanks (blanks k)]
      exact (scan_eq_scanToken token (line rfl)).symm
  | cons g gap =>
    obtain ⟨space, solid⟩ := white g List.mem_cons_self
    have spaces : ∀ b ∈ gap, isspace b = true :=
      fun b member => (white b (List.mem_cons_of_mem g member)).1
    have plain : iscntrl g = false := by
      by_contra control
      rw [Bool.not_eq_false] at control
      exact token (congrArg Prod.fst (scan_control control solid (gap ++ w)))
    obtain rfl := eq_blank space plain
    rw [scan_blanks spaces, scan_blanks spaces, List.dropWhile_append_of_pos (blanks k)]

section

variable {ends : Token → Prop} {s s' : Bytes}

private theorem alike_next (alike : Alike ends s s') (more : ¬ends (scan s).1) :
    (scan s').1 = (scan s).1 ∧ (scan s').2.1 = (scan s).2.1 ∧
      Alike ends (scan s).2.2 (scan s').2.2 := by
  cases alike with
  | same => exact ⟨rfl, rfl, .same _⟩
  | ended stop => exact absurd stop more
  | token tok value later => exact ⟨tok, value, later⟩

private theorem alike_of_scan (scanned : scan s' = scan s) : Alike ends s s' :=
  .token (by rw [scanned]) (by rw [scanned]) (scanned ▸ .same _)

private theorem token_ne_nil {token w : Bytes} (read : (scan (token ++ w)).2.2 = w)
    (more : w ≠ []) : token ≠ [] := by
  rintro rfl
  have shorter := scan_length_lt more
  rw [List.nil_append] at read
  rw [read] at shorter
  exact Nat.lt_irrefl _ shorter

private theorem between_ne_nil {front rest : Bytes} (place : Between front rest) :
    front ≠ [] := by
  cases place with
  | here more white read =>
    exact List.append_ne_nil_of_left_ne_nil (token_ne_nil read (by simp)) _
  | behind read later => exact List.append_ne_nil_of_left_ne_nil (token_ne_nil read (by simp)) _

private theorem scan_behind {token w v : Bytes} {c : UInt8}
    (read : (scan (token ++ c :: w)).2.2 = c :: w) :
    scan (token ++ c :: v) =
      ((scan (token ++ c :: w)).1, (scan (token ++ c :: w)).2.1, c :: v) := by
  obtain ⟨u, equal, either⟩ := scan_taken (Prod.ext rfl (Prod.ext rfl read))
  obtain rfl := List.append_cancel_right equal
  rcases either with taken | empty
  · exact taken.read c v (Or.inl rfl)
  · exact empty.read 0 v

private theorem alike_here {token w : Bytes} {c : UInt8}
    (read : (scan (token ++ c :: w)).2.2 = c :: w) (k : Nat)
    (next : Alike ends (c :: w) (List.replicate k blank ++ c :: w)) :
    Alike ends (token ++ c :: w) (token ++ (List.replicate k blank ++ c :: w)) := by
  obtain ⟨u, equal, either⟩ := scan_taken (Prod.ext rfl (Prod.ext rfl read))
  obtain rfl := List.append_cancel_right equal
  cases k with
  | zero => exact .same _
  | succ k =>
    rcases either with taken | empty
    · rw [List.replicate_succ, List.cons_append] at next ⊢
      have scanned := taken.read blank (List.replicate k blank ++ c :: w) (Or.inr rfl)
      refine .token (by rw [scanned]) (by rw [scanned]) ?_
      rwa [read, scanned]
    · exact alike_of_scan ((empty.read (k + 1) w).trans (Prod.ext rfl (Prod.ext rfl read.symm)))

private theorem alike_behind {token w v : Bytes} {c : UInt8}
    (read : (scan (token ++ c :: w)).2.2 = c :: w) (next : Alike ends (c :: w) (c :: v)) :
    Alike ends (token ++ c :: w) (token ++ c :: v) := by
  have scanned := scan_behind (v := v) read
  refine .token (by rw [scanned]) (by rw [scanned]) ?_
  rwa [read, scanned]

private theorem alike_of_between {front rest : Bytes} (place : Between front rest)
    (none : ends .none) (line : ends .newline ∨ (scan (rest ++ [0])).1 ≠ .newline) (k : Nat) :
    Alike ends (front ++ (rest ++ [0])) (front ++ (List.replicate k blank ++ (rest ++ [0]))) := by
  induction place with
  | @here token gap rest more white read =>
    have next : Alike ends (gap ++ (rest ++ [0]))
        (gap ++ (List.replicate k blank ++ (rest ++ [0]))) := by
      by_cases stop : ends (scan (gap ++ (rest ++ [0]))).1
      · exact .ended stop
      · refine alike_of_scan (scan_gap white ?_ ?_ k)
        · intro token
          exact stop (token ▸ none)
        · rintro rfl token
          rcases line with line | other
          · exact stop (token ▸ line)
          · exact other token
    cases gap with
    | nil =>
      obtain ⟨c, w, whole⟩ :=
        List.exists_cons_of_ne_nil (List.append_ne_nil_of_left_ne_nil more [0])
      rw [List.append_nil]
      rw [List.nil_append, List.nil_append, whole] at next
      rw [List.nil_append, whole] at read
      rw [whole]
      exact alike_here read k next
    | cons g gap =>
      rw [List.append_assoc, List.append_assoc]
      exact alike_behind read next
  | @behind token front rest read later ih =>
    obtain ⟨c, front, rfl⟩ := List.exists_cons_of_ne_nil (between_ne_nil later)
    rw [List.append_assoc, List.append_assoc]
    exact alike_behind read (ih line)

private theorem lex_alike {l l' l₁ : Lexer} {tok : Token} (alike : Alike ends l.unread l'.unread)
    (more : ¬ends tok) (lexed : l.lex = (tok, l₁)) :
    ∃ l₁', l'.lex = (tok, l₁') ∧ l₁'.lval = l₁.lval ∧ Alike ends l₁.unread l₁'.unread := by
  have first : l.lex.1 = tok := congrArg Prod.fst lexed
  have left : l.lex.2 = l₁ := congrArg Prod.snd lexed
  rw [Lexer.lex_fst] at first
  obtain ⟨same, value, later⟩ := alike_next alike (first ▸ more)
  rw [← Lexer.lex_lval, ← Lexer.lex_lval, left] at value
  rw [← Lexer.lex_unread, ← Lexer.lex_unread, left] at later
  exact ⟨l'.lex.2, Prod.ext (same.trans first) rfl, value, later⟩

private def Keeps (ends : Token → Prop) {α : Type} (read : Lexer → Option α) : Prop :=
  ∀ l l' r, Alike ends l.unread l'.unread → read l = some r → read l' = some r

private theorem keeps_string (token : ¬ends .str) {read : Bytes × Lexer → Option Request}
    (rest : ∀ s, Keeps ends fun l => read (s, l)) :
    Keeps ends fun l => (strArg l).bind read := by
  intro l l' r alike accepted
  obtain ⟨⟨s, l₁⟩, string, later⟩ := Option.bind_eq_some_iff.mp accepted
  simp only [strArg] at string
  split at string
  · rename_i l₂ lexed
    cases string
    obtain ⟨l₁', lexed', value, alike'⟩ := lex_alike alike token lexed
    simp only [strArg, lexed', Option.bind_some, value]
    exact rest _ _ _ _ alike' later
  · cases string

private theorem keeps_int (token : ¬ends .num) {read : Int × Lexer → Option Request}
    (rest : ∀ n, Keeps ends fun l => read (n, l)) :
    Keeps ends fun l => (numArg l).bind read := by
  intro l l' r alike accepted
  obtain ⟨⟨n, l₁⟩, number, later⟩ := Option.bind_eq_some_iff.mp accepted
  simp only [numArg] at number
  split at number
  · rename_i l₂ lexed
    cases number
    obtain ⟨l₁', lexed', value, alike'⟩ := lex_alike alike token lexed
    simp only [numArg, lexed', Option.bind_some, value]
    exact rest _ _ _ _ alike' later
  · cases number

private theorem keeps_newline (token : ¬ends .newline) (request : Request) :
    Keeps ends fun l => (lineEnd l).bind fun _ => some request := by
  intro l l' r alike accepted
  obtain ⟨_, ended, made⟩ := Option.bind_eq_some_iff.mp accepted
  simp only [lineEnd] at ended
  split at ended
  · rename_i l₁ lexed
    obtain ⟨l₁', lexed', -, -⟩ := lex_alike alike token lexed
    simp only [lineEnd, lexed', Option.bind_some, made]
  · cases ended

private theorem keeps_strArgs (string : ¬ends .str) (line : ¬ends .newline) {fuel fuel' : Nat}
    {l l' : Lexer} {env : List Bytes} (alike : Alike ends l.unread l'.unread)
    (enough : l'.unread.length < fuel') (read : strArgs fuel l = some env) :
    strArgs fuel' l' = some env := by
  induction fuel generalizing fuel' l l' env with
  | zero => cases read
  | succ fuel ih =>
    obtain ⟨fuel', rfl⟩ := Nat.exists_eq_succ_of_ne_zero (Nat.ne_of_gt (Nat.zero_lt_of_lt enough))
    simp only [strArgs] at read ⊢
    split at read
    · rename_i l₁ lexed
      obtain ⟨l₁', lexed', -, -⟩ := lex_alike alike line lexed
      simp only [lexed', read]
    · rename_i l₁ lexed
      obtain ⟨l₁', lexed', value, alike'⟩ := lex_alike alike string lexed
      obtain ⟨later, strings, rfl⟩ := Option.map_eq_some_iff.mp read
      have shorter := Lexer.token_length_lt lexed' Token.noConfusion
      have same : strArgs fuel' l₁' = some later := ih alike' (by omega) strings
      simp only [lexed', value, same, Option.map_some]
    · cases read

private theorem keeps_exec (string : ¬ends .str) (line : ¬ends .newline) :
    Keeps ends readExec := by
  refine keeps_string string fun command => keeps_string string fun user l l' r alike read => ?_
  simp only at read ⊢
  split at read
  · rename_i l₁ lexed
    obtain ⟨l₁', lexed', -, -⟩ := lex_alike alike line lexed
    simp only [lexed', read]
  · rename_i l₁ lexed
    obtain ⟨l₁', lexed', value, alike'⟩ := lex_alike alike string lexed
    obtain ⟨env, strings, made⟩ := Option.bind_eq_some_iff.mp read
    have same := keeps_strArgs string line alike' (Nat.lt_add_one _) strings
    simp only [lexed', value]
    exact Option.bind_eq_some_iff.mpr ⟨env, same, made⟩
  · cases read

private theorem keeps_args (string : ¬ends .str) (int : ¬ends .num) {word : Token}
    (line : ends .newline → isOpenWord word = true) : Keeps ends (readArgs word) := by
  cases word
  case delGroup | delSpecialKey => exact keeps_string string fun _ _ _ _ _ made => made
  case none | str | num | newline =>
    intro l l' r alike read
    cases read
  all_goals have line : ¬ends .newline := fun stop => Bool.false_ne_true (line stop)
  case pass => exact keeps_string string fun _ => keeps_int int fun _ => keeps_newline line _
  case host | delVar | get | getKeys | chkGroup =>
    exact keeps_string string fun _ => keeps_newline line _
  case prio | sched => exact keeps_int int fun _ => keeps_newline line _
  case exec => exact keeps_exec string line
  case delCmd =>
    exact keeps_string string fun _ => keeps_string string fun _ => keeps_newline line _
  case set =>
    exact keeps_string string fun _ => keeps_string string fun _ => keeps_string string fun _ =>
      keeps_int int fun _ => keeps_newline line _
  case ping | exit | stop => exact keeps_newline line _

end

/-- The blank in front of the only newline makes it white space. -/
private def Swallowed (s : Bytes) : Prop := ∃ p, s = p ++ [blank, newline, 0] ∧ newline ∉ p

private theorem swallowed_token {s : Bytes} (swallowed : Swallowed s) :
    (scan s).1 ≠ .newline := by
  obtain ⟨p, rfl, free⟩ := swallowed
  intro ended
  obtain ⟨rest, begins⟩ := scan_eq_newline ended
  cases p with
  | nil => cases (List.cons.inj begins).1
  | cons c p => exact free ((List.cons.inj begins).1 ▸ List.mem_cons_self)

private theorem swallowed_left {s : Bytes} (swallowed : Swallowed s) :
    Swallowed (scan s).2.2 ∨ (scan s).2.2.length ≤ 1 := by
  obtain ⟨p, rfl, free⟩ := swallowed
  obtain ⟨read, whole⟩ := scan_suffix (p ++ [blank, newline, 0])
  rcases List.append_eq_append_iff.mp whole with ⟨p', rfl, left⟩ | ⟨read', rfl, left⟩
  · exact Or.inl ⟨p', left, fun member => free (List.mem_append_right _ member)⟩
  · match read', left with
    | [], left => exact Or.inl ⟨[], left.symm, List.not_mem_nil⟩
    | [c], left =>
      obtain ⟨rfl, stop⟩ := List.cons.inj left
      obtain ⟨u, equal, either⟩ := scan_taken (Prod.ext rfl (Prod.ext rfl stop.symm))
      have parts : p ++ [blank] ++ [newline, 0] = u ++ [newline, 0] := by simpa using equal
      obtain rfl := List.append_cancel_right parts
      rcases either with taken | empty
      · exact absurd List.getLast?_concat taken.last
      · exact absurd (empty.control [0]) Token.noConfusion
    | _ :: _ :: _, left =>
      right
      have lengths := congrArg List.length left
      simp only [List.length_append, List.length_cons, List.length_nil] at lengths
      omega

private theorem newline_not_mem_remaining (n : Nat) {l : Lexer} (bound : l.unread.length ≤ n)
    (swallowed : Swallowed l.unread) : .newline ∉ remaining l := by
  induction n generalizing l with
  | zero =>
    rw [remaining_of_done (by omega)]
    exact List.not_mem_nil
  | succ n ih =>
    by_cases done : l.unread.length ≤ 1
    · rw [remaining_of_done done]
      exact List.not_mem_nil
    · have more : l.unread ≠ [] := List.ne_nil_of_length_pos (by omega)
      have shorter := Lexer.lex_unread_length_lt more
      rw [remaining_of_more (not_le.mp done), List.mem_cons, not_or]
      refine ⟨(swallowed_token swallowed).symm, ?_⟩
      rcases swallowed_left swallowed with later | spent
      · exact ih (by omega) (l.lex_unread ▸ later)
      · rw [remaining_of_done (l.lex_unread ▸ spent)]
        exact List.not_mem_nil

private theorem fits_newline {args : List Argument} {ts : List Token} (fits : Fits args ts) :
    .newline ∈ ts := by
  induction fits with
  | newline => exact List.mem_singleton_self _
  | string rest ih | int rest ih => exact List.mem_cons_of_mem _ ih
  | environment n rest ih => exact List.mem_append_right _ ih

theorem refused_of_blank {front : Bytes} (free : newline ∉ front)
    (closed : isOpenWord (Lexer.new (front ++ [blank, newline])).lex.1 = false) :
    readRequest (front ++ [blank, newline]) = none := by
  have line : OneLine (front ++ [blank, newline]) :=
    ⟨front ++ [blank], by simp, by simpa [free] using by decide⟩
  have absent : .newline ∉ tokens (front ++ [blank, newline]) :=
    newline_not_mem_remaining _ (Nat.le_refl _) ⟨front, by simp, free⟩
  by_contra accepted
  rcases (readRequest_isSome_iff line).mp (Option.isSome_iff_ne_none.mpr accepted) with
    ⟨word, args, rest, -, fits, equal⟩ | ⟨word, more, open_word, -, equal⟩
  · exact absent (equal ▸ List.mem_cons_of_mem _ (fits_newline fits))
  · rw [tokens_eq line] at equal
    rw [(List.cons.inj equal).1, open_word] at closed
    cases closed

/-- The line `line'` is accepted as `line` is: the same command and arguments, the same effect. -/
def SameCommand (sys : SysCalls) (h : ConnectionHandler) (repo : Repository)
    (line line' : Bytes) : Prop :=
  readRequest line' = readRequest line ∧ doCommand sys h repo line' = doCommand sys h repo line

section

variable {sys : SysCalls} {h : ConnectionHandler} {repo : Repository} {front rest : Bytes}

private theorem accepted_iff {line : Bytes} :
    (doCommand sys h repo line).ending ≠ .error ↔
      peerIsMe sys h ∧ ∃ request, readRequest line = some request := by
  by_cases me : peerIsMe sys h
  · cases read : readRequest line with
    | none =>
      obtain ⟨h', -, refused⟩ := doCommand_of_none me repo read
      simp [refused, parseError]
    | some request =>
      rw [doCommand_of_request me repo read, perform_ending]
      split_ifs <;> simp [me]
  · simp [doCommand_of_stranger me, parseError, me]

private theorem sameCommand_of_read {line line' : Bytes} {request : Request}
    (me : peerIsMe sys h) (read : readRequest line = some request)
    (read' : readRequest line' = some request) : SameCommand sys h repo line line' :=
  ⟨read'.trans read.symm, by rw [doCommand_of_request me repo read,
    doCommand_of_request me repo read']⟩

private theorem readRequest_alike (ends : Token → Prop) {line line' : Bytes}
    {request : Request} (alike : Alike ends (line ++ [0]) (line' ++ [0]))
    (read : readRequest line = some request)
    (word : ¬ends (Lexer.new line).lex.1) (string : ¬ends .str) (int : ¬ends .num)
    (newline : ends .newline → isOpenWord (Lexer.new line).lex.1 = true) :
    readRequest line' = some request := by
  obtain ⟨l', lexed, -, alike'⟩ := @lex_alike ends (.new line) (.new line') _ _ alike word rfl
  rw [readRequest, lexed]
  exact keeps_args string int newline _ _ _ alike' read

private theorem last_newline {more : Bytes} (line : OneLine (front ++ newline :: more)) :
    more = [] := by
  obtain ⟨body, equal, free⟩ := line
  rcases List.eq_nil_or_concat more with rfl | ⟨more, c, rfl⟩
  · rfl
  · have whole : (front ++ newline :: more) ++ [c] = body ++ [newline] := by simpa using equal
    obtain rfl := (List.append_inj' whole rfl).1
    simp at free

private theorem rest_not_newline (line : OneLine (front ++ rest)) (other : rest ≠ [newline]) :
    (scan (rest ++ [0])).1 ≠ .newline := by
  intro ended
  obtain ⟨more, begins⟩ := scan_eq_newline ended
  cases rest with
  | nil => cases (List.cons.inj begins).1
  | cons c rest =>
    obtain rfl := (List.cons.inj begins).1
    exact other (congrArg _ (last_newline line))

/-- Spaces between the tokens of an accepted line leave it the same command, but directly in
front of the newline only where the newline is not read. -/
theorem spaces_kept_iff (line : OneLine (front ++ rest))
    (accepted : (doCommand sys h repo (front ++ rest)).ending ≠ .error)
    (place : Between front rest) (k : Nat) :
    SameCommand sys h repo (front ++ rest) (front ++ (List.replicate k blank ++ rest)) ↔
      k = 0 ∨ rest ≠ [newline] ∨ isOpenWord (Lexer.new (front ++ rest)).lex.1 = true := by
  obtain ⟨me, request, read⟩ := accepted_iff.mp accepted
  have first := readArgs_word _ _ _ read
  have word : (Lexer.new (front ++ rest)).lex.1 ≠ .none := by
    rw [← first]
    cases request <;> exact Token.noConfusion
  have alike {ends : Token → Prop} (none : ends .none)
      (newline : ends .newline ∨ (scan (rest ++ [0])).1 ≠ .newline) :
      Alike ends (front ++ rest ++ [0]) (front ++ (List.replicate k blank ++ rest) ++ [0]) := by
    simpa only [List.append_assoc] using alike_of_between place none newline k
  constructor
  · intro same
    by_contra fails
    simp only [not_or, not_not, Bool.not_eq_true] at fails
    obtain ⟨some_blank, rfl, closed⟩ := fails
    obtain ⟨k, rfl⟩ := Nat.exists_eq_succ_of_ne_zero some_blank
    have read' := same.1.trans read
    have first' := readArgs_word _ _ _ read'
    rw [← first, first'] at closed
    have shape : front ++ (List.replicate (k + 1) blank ++ [newline]) =
        front ++ List.replicate k blank ++ [blank, newline] := by
      simp [List.replicate_succ']
    have free : newline ∉ front ++ List.replicate k blank := by
      obtain ⟨body, equal, free⟩ := line
      rw [List.append_cancel_right equal]
      simpa [free] using fun _ => by decide
    rw [shape] at closed read'
    rw [refused_of_blank free closed] at read'
    cases read'
  · rintro (rfl | other | open_word)
    · exact ⟨rfl, rfl⟩
    · refine sameCommand_of_read me read (readRequest_alike (· = .none) ?_ read word
        Token.noConfusion Token.noConfusion Token.noConfusion)
      exact alike rfl (Or.inr (rest_not_newline line other))
    · have ends_word : ¬((Lexer.new (front ++ rest)).lex.1 = .none ∨
          (Lexer.new (front ++ rest)).lex.1 = .newline) := by
        rintro (none | newline)
        · exact word none
        · rw [newline] at open_word
          cases open_word
      refine sameCommand_of_read me read (readRequest_alike
        (fun tok => tok = .none ∨ tok = .newline) ?_ read ends_word (by simp) (by simp)
        fun _ => open_word)
      exact alike (Or.inl rfl) (Or.inl (Or.inr rfl))

end

theorem spaces_kept_iff_get : SameCommand ownCalls ownSession .new (ascii "GET name\n")
    (ascii "GET   name\n") := by
  have line : OneLine (ascii "GET" ++ ascii " name\n") :=
    ⟨ascii "GET name", by decide, by decide⟩
  have place : Between (ascii "GET" ++ []) (ascii " name\n") :=
    .here (by decide) (by simp) (by decide +kernel)
  exact (@spaces_kept_iff ownCalls ownSession .new _ _ line (by decide +kernel) place 2).mpr
    (Or.inr (Or.inl (by decide)))

/-- A blank behind PING has it refused. -/
theorem blank_behind_ping_refused : ¬∀ sys h repo front rest, OneLine (front ++ rest) →
    (doCommand sys h repo (front ++ rest)).ending ≠ .error → Between front rest → ∀ k,
      SameCommand sys h repo (front ++ rest) (front ++ (List.replicate k blank ++ rest)) := by
  intro kept
  have line : OneLine (ascii "PING" ++ [newline]) := ⟨ascii "PING", by decide, by decide⟩
  have place : Between (ascii "PING" ++ []) [newline] :=
    .here (by decide) (by simp) (by decide +kernel)
  have same := kept ownCalls ownSession .new _ _ line (by decide +kernel) place 1
  have differ : readRequest (ascii "PING" ++ ([blank] ++ [newline])) ≠
      readRequest (ascii "PING" ++ [newline]) := by decide +kernel
  exact differ same.1

end KDESu.Daemon.Spacing
