/- KDESu/Daemon/Grammar
   source: src/kdesud/handler.cpp, src/kdesud/lexer.cpp
   digest: The productions beside the cases of doCommand, and the lines that doCommand accepts. -/

import KDESu.Client.Requesting
import KDESu.Daemon.EventLoop

set_option autoImplicit false
set_option relaxedAutoImplicit false

namespace KDESu.Daemon.Grammar

open KDESu.ByteArrays
open KDESu.Client.Requesting (OneLine)
open KDESu.Daemon.Lexing
open KDESu.Daemon.Repositories (Repository)
open KDESu.Daemon.Handling
open KDESu.Daemon.Requests
open KDESu.Daemon.EventLoop (Kdesud)

def tokensFrom : Nat → Lexer → List Token
  | 0, _ => []
  | fuel + 1, l => if l.unread.length ≤ 1 then [] else l.lex.1 :: tokensFrom fuel l.lex.2

def remaining (l : Lexer) : List Token := tokensFrom l.unread.length l

def tokens (line : Bytes) : List Token := remaining (Lexer.new line)

private theorem tokensFrom_of_done {fuel : Nat} {l : Lexer} (done : l.unread.length ≤ 1) :
    tokensFrom fuel l = [] := by
  cases fuel with
  | zero => rfl
  | succ fuel => simp only [tokensFrom, if_pos done]

private theorem lex_shorter {l : Lexer} (more : 1 < l.unread.length) :
    l.lex.2.unread.length < l.unread.length :=
  Lexer.lex_unread_length_lt (List.ne_nil_of_length_pos (by omega))

private theorem tokensFrom_enough {fuel fuel' : Nat} {l : Lexer}
    (enough : l.unread.length ≤ fuel) (enough' : l.unread.length ≤ fuel') :
    tokensFrom fuel l = tokensFrom fuel' l := by
  induction fuel generalizing fuel' l with
  | zero =>
    have done : l.unread.length ≤ 1 := by omega
    rw [tokensFrom_of_done done, tokensFrom_of_done done]
  | succ fuel ih =>
    by_cases done : l.unread.length ≤ 1
    · rw [tokensFrom_of_done done, tokensFrom_of_done done]
    · have shorter := lex_shorter (not_le.mp done)
      obtain ⟨fuel', rfl⟩ : ∃ n, fuel' = n + 1 := ⟨fuel' - 1, by omega⟩
      simp only [tokensFrom, if_neg done]
      exact congrArg (l.lex.1 :: ·) (ih (by omega) (by omega))

theorem remaining_of_done {l : Lexer} (done : l.unread.length ≤ 1) : remaining l = [] :=
  tokensFrom_of_done done

theorem remaining_of_more {l : Lexer} (more : 1 < l.unread.length) :
    remaining l = l.lex.1 :: remaining l.lex.2 := by
  have shorter := lex_shorter more
  have unfolded : remaining l = tokensFrom (l.unread.length + 1) l :=
    tokensFrom_enough (Nat.le_refl _) (Nat.le_succ _)
  rw [unfolded, tokensFrom, if_neg (not_le.mpr more)]
  exact congrArg _ (tokensFrom_enough (by omega) (Nat.le_refl _))

private theorem more_of_token {l : Lexer} (token : l.lex.1 ≠ .none) : 1 < l.unread.length := by
  by_contra done
  have tail : l.unread <:+ l.m_Input ++ [0] := List.drop_suffix _ _
  rw [Lexer.lex_fst] at token
  match same : l.unread with
  | [] => exact token (by rw [same]; rfl)
  | [c] =>
    rw [same] at tail token
    obtain ⟨front, equal⟩ := tail
    obtain rfl := List.singleton_inj.mp (List.append_inj' equal rfl).2
    exact token rfl
  | _ :: _ :: _ => simp [same] at done

private theorem remaining_of_newline {l : Lexer} (line : OneLine l.m_Input)
    (ended : l.lex.1 = .newline) : remaining l = [.newline] := by
  have more : 1 < l.unread.length := more_of_token (ended ▸ Token.noConfusion)
  obtain ⟨rest, same⟩ := scan_eq_newline (l.lex_fst ▸ ended)
  obtain ⟨body, input, free⟩ := line
  have last : rest.length ≤ 1 := by
    have tail : l.unread <:+ l.m_Input ++ [0] := List.drop_suffix _ _
    rw [same, input, List.append_assoc] at tail
    obtain ⟨front, whole⟩ := tail
    rcases List.append_eq_append_iff.mp whole with ⟨more, rfl, equal⟩ | ⟨more, rfl, equal⟩
    · cases more with
      | nil => simp_all
      | cons c more =>
        obtain rfl := (List.cons.inj equal).1
        simp at free
    · have lengths := congrArg List.length equal
      simp only [List.length_append, List.length_cons, List.length_nil] at lengths
      omega
  have left : l.lex.2.unread = rest := by
    rw [Lexer.lex_unread, same, scan_newline]
  rw [remaining_of_more more, ended, remaining_of_done (left ▸ last)]

/-- The arguments in the comments beside the cases: `environment` is EXEC's
`[options:string (env:string)*]`. -/
inductive Argument
  | string | int | environment
  deriving DecidableEq

/-- What the comment beside the case of a command word says. -/
def arguments : Token → Option (List Argument)
  | .pass => some [.string, .int]
  | .host => some [.string]
  | .prio => some [.int]
  | .sched => some [.int]
  | .exec => some [.string, .string, .environment]
  | .delCmd => some [.string, .string]
  | .delVar => some [.string]
  | .delGroup => some [.string]
  | .delSpecialKey => some [.string]
  | .set => some [.string, .string, .string, .int]
  | .get => some [.string]
  | .getKeys => some [.string]
  | .chkGroup => some [.string]
  | .ping => some []
  | .exit => some []
  | .stop => some []
  | .none | .str | .num | .newline => none

/-- The token sequences of an argument list: the newline ends them. -/
inductive Fits : List Argument → List Token → Prop
  | newline : Fits [] [.newline]
  | string {args : List Argument} {ts : List Token} (rest : Fits args ts) :
      Fits (.string :: args) (.str :: ts)
  | int {args : List Argument} {ts : List Token} (rest : Fits args ts) :
      Fits (.int :: args) (.num :: ts)
  | environment {args : List Argument} {ts : List Token} (n : Nat) (rest : Fits args ts) :
      Fits (.environment :: args) (List.replicate n .str ++ ts)

/-- A command word with the arguments of its comment, and nothing else. -/
def Production (ts : List Token) : Prop :=
  ∃ word args rest, arguments word = some args ∧ Fits args rest ∧ ts = word :: rest

section

variable {l : Lexer} {args : List Argument}

private theorem remaining_eq_cons_iff {tok : Token} (token : tok ≠ .none) (ts : List Token) :
    remaining l = tok :: ts ↔ l.lex.1 = tok ∧ remaining l.lex.2 = ts := by
  by_cases more : 1 < l.unread.length
  · rw [remaining_of_more more, List.cons.injEq]
  · rw [remaining_of_done (not_lt.mp more)]
    constructor
    · intro same
      cases same
    · rintro ⟨first, -⟩
      exact absurd (more_of_token (first ▸ token)) more

private theorem fits_cons_iff {first : Argument} {tok : Token} (token : tok ≠ .none)
    (begins : ∀ ts, Fits (first :: args) ts ↔ ∃ rest, ts = tok :: rest ∧ Fits args rest) :
    Fits (first :: args) (remaining l) ↔ l.lex.1 = tok ∧ Fits args (remaining l.lex.2) := by
  simp only [begins, remaining_eq_cons_iff token]
  constructor
  · rintro ⟨rest, ⟨first, rfl⟩, fits⟩
    exact ⟨first, fits⟩
  · rintro ⟨first, fits⟩
    exact ⟨_, ⟨first, rfl⟩, fits⟩

private theorem fits_string_iff :
    Fits (.string :: args) (remaining l) ↔ l.lex.1 = .str ∧ Fits args (remaining l.lex.2) := by
  refine fits_cons_iff Token.noConfusion (fun ts => ⟨fun fits => ?_, ?_⟩)
  · cases fits with
    | string rest => exact ⟨_, rfl, rest⟩
  · rintro ⟨rest, rfl, fits⟩
    exact .string fits

private theorem fits_int_iff :
    Fits (.int :: args) (remaining l) ↔ l.lex.1 = .num ∧ Fits args (remaining l.lex.2) := by
  refine fits_cons_iff Token.noConfusion (fun ts => ⟨fun fits => ?_, ?_⟩)
  · cases fits with
    | int rest => exact ⟨_, rfl, rest⟩
  · rintro ⟨rest, rfl, fits⟩
    exact .int fits

private theorem fits_nil_iff (line : OneLine l.m_Input) :
    Fits [] (remaining l) ↔ l.lex.1 = .newline := by
  constructor
  · intro fits
    by_cases more : 1 < l.unread.length
    · rw [remaining_of_more more] at fits
      generalize l.lex.1 = tok at fits ⊢
      generalize remaining l.lex.2 = later at fits
      cases fits
      rfl
    · rw [remaining_of_done (not_lt.mp more)] at fits
      cases fits
  · intro ended
    rw [remaining_of_newline line ended]
    exact .newline

private theorem fits_environment_iff :
    Fits (.environment :: args) (remaining l) ↔
      Fits args (remaining l) ∨
        (l.lex.1 = .str ∧ Fits (.environment :: args) (remaining l.lex.2)) := by
  constructor
  · intro fits
    generalize same : remaining l = ts at fits ⊢
    cases fits with
    | environment n rest =>
      cases n with
      | zero => exact Or.inl rest
      | succ n =>
        obtain ⟨first, later⟩ := (remaining_eq_cons_iff Token.noConfusion _).mp same
        exact Or.inr ⟨first, later ▸ .environment n rest⟩
  · rintro (fits | ⟨first, fits⟩)
    · exact .environment 0 fits
    · generalize same : remaining l.lex.2 = ts at fits
      cases fits with
      | environment n rest =>
        have whole := (remaining_eq_cons_iff Token.noConfusion _).mpr ⟨first, same⟩
        exact whole ▸ .environment (n + 1) rest

end

private def Accepts (read : Lexer → Option Request) (args : List Argument) : Prop :=
  ∀ l, OneLine l.m_Input → ((read l).isSome ↔ Fits args (remaining l))

private theorem accepts_string {args : List Argument} {read : Bytes × Lexer → Option Request}
    (rest : ∀ s, Accepts (fun l => read (s, l)) args) :
    Accepts (fun l => (strArg l).bind read) (.string :: args) := by
  intro l line
  simp only [strArg]
  rw [fits_string_iff]
  rcases lexed : l.lex with ⟨tok, l'⟩
  have input : l'.m_Input = l.m_Input := congrArg (fun p => p.2.m_Input) lexed.symm
  cases tok
  case str => simpa using rest l'.lval l' (input ▸ line)
  all_goals simp

private theorem accepts_int {args : List Argument} {read : Int × Lexer → Option Request}
    (rest : ∀ n, Accepts (fun l => read (n, l)) args) :
    Accepts (fun l => (numArg l).bind read) (.int :: args) := by
  intro l line
  simp only [numArg]
  rw [fits_int_iff]
  rcases lexed : l.lex with ⟨tok, l'⟩
  have input : l'.m_Input = l.m_Input := congrArg (fun p => p.2.m_Input) lexed.symm
  cases tok
  case num => simpa using rest (toInt l'.lval) l' (input ▸ line)
  all_goals simp

private theorem accepts_newline (request : Request) :
    Accepts (fun l => (lineEnd l).bind fun _ => some request) [] := by
  intro l line
  simp only [lineEnd]
  rw [fits_nil_iff line]
  rcases l.lex with ⟨tok, l'⟩
  cases tok <;> simp

private theorem strArgs_isSome {fuel : Nat} {l : Lexer} (enough : l.unread.length < fuel)
    (line : OneLine l.m_Input) :
    (strArgs fuel l).isSome ↔ Fits [.environment] (remaining l) := by
  induction fuel generalizing l with
  | zero => omega
  | succ fuel ih =>
    rw [fits_environment_iff, fits_nil_iff line]
    simp only [strArgs]
    rcases lexed : l.lex with ⟨tok, l'⟩
    have input : l'.m_Input = l.m_Input := congrArg (fun p => p.2.m_Input) lexed.symm
    cases tok
    case newline => simp
    case str =>
      have token : l.lex.1 ≠ .none := by
        rw [lexed]
        exact Token.noConfusion
      have shorter := lex_shorter (more_of_token token)
      simp only [lexed] at shorter
      simpa using ih (by omega) (input ▸ line)
    all_goals simp

private theorem accepts_exec : Accepts readExec [.string, .string, .environment] := by
  refine accepts_string fun command => accepts_string fun user l line => ?_
  rw [fits_environment_iff, fits_nil_iff line]
  simp only
  rcases lexed : l.lex with ⟨tok, l'⟩
  have input : l'.m_Input = l.m_Input := congrArg (fun p => p.2.m_Input) lexed.symm
  cases tok
  case newline => simp
  case str =>
    have read := strArgs_isSome (Nat.lt_add_one l'.unread.length) (input ▸ line)
    simpa [Option.isSome_iff_exists, Option.bind_eq_some_iff] using read
  all_goals simp

/-- The words whose cases do not look for the newline. -/
def isOpenWord : Token → Bool
  | .delGroup | .delSpecialKey => true
  | _ => false

private theorem accepts_args {word : Token} {args : List Argument}
    (comment : arguments word = some args) (closed : isOpenWord word = false) :
    Accepts (readArgs word) args := by
  cases word
  case pass =>
    cases comment
    exact accepts_string fun _ => accepts_int fun _ => accepts_newline _
  case host | delVar | get | getKeys | chkGroup =>
    cases comment
    exact accepts_string fun _ => accepts_newline _
  case prio | sched =>
    cases comment
    exact accepts_int fun _ => accepts_newline _
  case exec =>
    cases comment
    exact accepts_exec
  case delCmd =>
    cases comment
    exact accepts_string fun _ => accepts_string fun _ => accepts_newline _
  case set =>
    cases comment
    exact accepts_string fun _ => accepts_string fun _ => accepts_string fun _ =>
      accepts_int fun _ => accepts_newline _
  case ping | exit | stop =>
    cases comment
    exact accepts_newline _
  case delGroup | delSpecialKey => cases closed
  all_goals cases comment

private theorem readOpenNamed_isSome (make : Bytes → Request) (l : Lexer) :
    (readOpenNamed make l).isSome ↔ ∃ more, remaining l = .str :: more := by
  have string : Token.str ≠ .none := Token.noConfusion
  simp only [remaining_eq_cons_iff string, readOpenNamed, strArg]
  rcases l.lex with ⟨tok, l'⟩
  cases tok <;> simp

/-- DELG or DELS with a string, and then something else than the newline. -/
def TrailsOff (ts : List Token) : Prop :=
  ∃ word more, isOpenWord word = true ∧ more ≠ [.newline] ∧ ts = word :: .str :: more

private theorem production_open_iff {word : Token} (open_word : isOpenWord word = true)
    (rest : List Token) : Production (word :: rest) ↔ rest = [.str, .newline] := by
  have comment : arguments word = some [.string] := by
    cases word <;> first | rfl | cases open_word
  constructor
  · rintro ⟨word', args, rest', comment', fits, equal⟩
    cases equal
    rw [comment] at comment'
    cases comment'
    cases fits with
    | string fits =>
      cases fits
      rfl
  · rintro rfl
    exact ⟨word, _, _, comment, .string .newline, rfl⟩

private theorem not_production_of_trailsOff {ts : List Token} (trails : TrailsOff ts) :
    ¬Production ts := by
  obtain ⟨word, more, open_word, other, rfl⟩ := trails
  rw [production_open_iff open_word]
  intro same
  exact other (List.cons.inj same).2

theorem tokens_eq {line : Bytes} (one : OneLine line) :
    tokens line = (Lexer.new line).lex.1 :: remaining (Lexer.new line).lex.2 := by
  obtain ⟨body, rfl, -⟩ := one
  refine remaining_of_more ?_
  simp only [Lexer.new_unread, List.length_append, List.length_singleton]
  omega

/-- What `doCommand` reads as a request: the productions, and the lines that trail off. -/
theorem readRequest_isSome_iff {line : Bytes} (one : OneLine line) :
    (readRequest line).isSome ↔ Production (tokens line) ∨ TrailsOff (tokens line) := by
  have kept : OneLine (Lexer.new line).lex.2.m_Input := one
  rw [tokens_eq one, readRequest]
  generalize (Lexer.new line).lex.1 = word
  generalize (Lexer.new line).lex.2 = l at kept
  cases open_word : isOpenWord word with
  | true =>
    have read : (readArgs word l).isSome ↔ ∃ more, remaining l = .str :: more := by
      cases word <;> first | exact readOpenNamed_isSome _ l | cases open_word
    rw [read, production_open_iff open_word]
    constructor
    · rintro ⟨more, same⟩
      by_cases ended : more = [.newline]
      · exact Or.inl (ended ▸ same)
      · exact Or.inr ⟨word, more, open_word, ended, congrArg _ same⟩
    · rintro (same | ⟨word', more, -, -, equal⟩)
      · exact ⟨_, same⟩
      · exact ⟨more, (List.cons.inj equal).2⟩
  | false =>
    have closed : ¬TrailsOff (word :: remaining l) := by
      rintro ⟨word', more, open_word', -, equal⟩
      rw [(List.cons.inj equal).1, open_word'] at open_word
      cases open_word
    rw [or_iff_left closed]
    cases comment : arguments word with
    | none =>
      have unread : readArgs word l = none := by
        cases word <;> first | rfl | cases comment
      rw [unread]
      constructor
      · intro wrong
        cases wrong
      · rintro ⟨word', args, rest, comment', -, equal⟩
        rw [← (List.cons.inj equal).1, comment] at comment'
        cases comment'
    | some args =>
      rw [accepts_args comment open_word l kept]
      constructor
      · intro fits
        exact ⟨word, args, _, comment, fits, rfl⟩
      · rintro ⟨word', args', rest, comment', fits, equal⟩
        obtain ⟨rfl, rfl⟩ := List.cons.inj equal
        rw [comment] at comment'
        cases comment'
        exact fits

private theorem tokens_of_stop {line : Bytes} (one : OneLine line)
    (read : readRequest line = some .stop) : tokens line = [.stop, .newline] := by
  have kept : OneLine (Lexer.new line).lex.2.m_Input := one
  have word := readArgs_word _ _ _ read
  have fits := @accepts_args .stop [] rfl rfl _ kept
  rw [readRequest, ← word] at read
  rw [tokens_eq one, ← word]
  generalize remaining (Lexer.new line).lex.2 = rest at fits ⊢
  cases fits.mp (Option.isSome_of_mem read)
  rfl

/-- What `doCommand` owes a line: 0 at most for a production, and for every other line -1 with
the repository left as it was. -/
def KeepsGrammar (sys : SysCalls) (h : ConnectionHandler) (repo : Repository)
    (line : Bytes) : Prop :=
  ((doCommand sys h repo line).ending = .ok → Production (tokens line)) ∧
    (¬Production (tokens line) → (doCommand sys h repo line).ending = .error ∧
      (doCommand sys h repo line).repo = repo)

section

variable {sys : SysCalls} {h : ConnectionHandler} {line : Bytes}

private theorem accepted_of_request (me : peerIsMe sys h) (repo : Repository)
    (one : OneLine line) (other : tokens line ≠ [.stop, .newline]) {request : Request}
    (read : readRequest line = some request) : (doCommand sys h repo line).ending = .ok := by
  rw [doCommand_of_request me repo read, perform_ending, if_neg]
  rintro rfl
  exact other (tokens_of_stop one read)

theorem accepted_of_production (me : peerIsMe sys h) (repo : Repository) (one : OneLine line)
    (other : tokens line ≠ [.stop, .newline]) (production : Production (tokens line)) :
    (doCommand sys h repo line).ending = .ok := by
  have read := (readRequest_isSome_iff one).mpr (Or.inl production)
  obtain ⟨request, read⟩ := Option.isSome_iff_exists.mp read
  exact accepted_of_request me repo one other read

end

/-- `doCommand` keeps to its grammar on every line but those of DELG and DELS that go on behind
their string, which it accepts from its own user. -/
theorem doCommand_keeps_grammar_iff (sys : SysCalls) (h : ConnectionHandler) (repo : Repository)
    {line : Bytes} (one : OneLine line) (other : tokens line ≠ [.stop, .newline]) :
    KeepsGrammar sys h repo line ↔ (peerIsMe sys h → ¬TrailsOff (tokens line)) := by
  by_cases me : peerIsMe sys h
  · cases read : readRequest line with
    | none =>
      have neither : ¬(Production (tokens line) ∨ TrailsOff (tokens line)) := by
        rw [← readRequest_isSome_iff one, read]
        exact Bool.false_ne_true
      obtain ⟨h', -, refused⟩ := doCommand_of_none me repo read
      rw [not_or] at neither
      simp [KeepsGrammar, refused, parseError, neither]
    | some request =>
      have either := (readRequest_isSome_iff one).mp (Option.isSome_of_mem read)
      have accepted := accepted_of_request me repo one other read
      have apart := @not_production_of_trailsOff (tokens line)
      simp only [KeepsGrammar, accepted, me]
      tauto
  · simp [KeepsGrammar, doCommand_of_stranger me, parseError, me]

def ownSession : ConnectionHandler := .new 6 1000 0

def ownCalls : SysCalls := ⟨1000, 100, 100, none⟩

theorem doCommand_keeps_grammar_delGroup :
    KeepsGrammar ownCalls ownSession .new (ascii "DELG g\n") := by
  have one : OneLine (ascii "DELG g\n") := ⟨ascii "DELG g", by decide, by decide⟩
  have ts : tokens (ascii "DELG g\n") = [.delGroup, .str, .newline] := by decide +kernel
  refine (doCommand_keeps_grammar_iff ownCalls ownSession .new one (by rw [ts]; decide)).mpr ?_
  rintro - ⟨word, more, -, ended, equal⟩
  rw [ts] at equal
  cases equal
  exact ended rfl

/-- DELG deletes its group although the line goes on. -/
theorem trailing_text_accepted : ¬∀ sys h repo line, OneLine line →
    tokens line ≠ [.stop, .newline] → KeepsGrammar sys h repo line := by
  intro keeps
  have one : OneLine (ascii "DELG g x\n") := ⟨ascii "DELG g x", by decide, by decide⟩
  have ts : tokens (ascii "DELG g x\n") = [.delGroup, .str, .str, .newline] := by decide +kernel
  have kept := keeps ownCalls ownSession .new _ one (by rw [ts]; decide)
  have production := kept.1 (by decide +kernel)
  rw [ts] at production
  exact not_production_of_trailsOff ⟨.delGroup, [.str, .newline], rfl, by decide, rfl⟩ production

end KDESu.Daemon.Grammar
