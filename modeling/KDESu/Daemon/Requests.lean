/- KDESu/Daemon/Requests
   source: src/kdesud/handler.cpp
   digest: Requests as values; doCommand reads one request and performs it, or refuses. -/

import KDESu.Daemon.Handling

set_option autoImplicit false
set_option relaxedAutoImplicit false

namespace KDESu.Daemon.Requests

open KDESu.ByteArrays
open KDESu.Daemon.Lexing (Lexer Token scan scan_newline)
open KDESu.Daemon.Repositories (DataEntry Repository)
open KDESu.Daemon.Handling

/-- What a command line asks for, with its decoded arguments. -/
inductive Request
  | pass (password : Bytes) (timeout : Int)
  | host (host : Bytes)
  | prio (priority : Int)
  | sched (scheduler : Int)
  | exec (command user options : Bytes) (env : List Bytes)
  | delCmd (command user : Bytes)
  | delVar (name : Bytes)
  | delGroup (group : Bytes)
  | delSpecialKey (key : Bytes)
  | set (name value group : Bytes) (timeout : Int)
  | get (name : Bytes)
  | getKeys (group : Bytes)
  | chkGroup (group : Bytes)
  | ping
  | exit
  | stop
  deriving DecidableEq, Repr

def envCheck (env : List Bytes) : QByteArray := env.foldl checkEnv none

def perform (sys : SysCalls) (h : ConnectionHandler) (repo : Repository) : Request → Outcome
  | .pass password timeout =>
      answer { h with m_Pass := some password, m_Timeout := timeout } repo .Res_OK []
  | .host host => answer { h with m_Host := host } repo .Res_OK []
  | .prio priority => answer { h with m_Priority := priority } repo .Res_OK []
  | .sched scheduler => answer { h with m_Scheduler := scheduler } repo .Res_OK []
  | .exec command user options env =>
      execCommand sys h repo command user options env (envCheck env)
  | .delCmd command user => report h (repo.remove (makeKey 0 h.m_Host user command))
  | .delVar name => report h (repo.remove (makeKey 1 name [] []))
  | .delGroup group => report h (repo.removeGroup group)
  | .delSpecialKey key => report h (repo.removeSpecialKey key)
  | .set name value group timeout => setVariable sys h repo name value group timeout
  | .get name => deliver h repo (repo.find (makeKey 1 name [] [])).data
  | .getKeys group => deliver h repo (repo.findKeys group (ascii "-"))
  | .chkGroup group => report h (repo, repo.hasGroup group)
  | .ping => answer h repo .Res_OK []
  | .exit => requestExitCode h repo
  | .stop => { answer h repo .Res_OK [] with ending := .exit }

def Request.value (repo : Repository) : Request → Bytes
  | .get name => (repo.find (makeKey 1 name [] [])).data
  | .getKeys group => repo.findKeys group (ascii "-")
  | _ => []

def strArg (l : Lexer) : Option (Bytes × Lexer) :=
  match l.lex with
  | (.str, l) => some (l.lval, l)
  | _ => none

def numArg (l : Lexer) : Option (Int × Lexer) :=
  match l.lex with
  | (.num, l) => some (toInt l.lval, l)
  | _ => none

def lineEnd (l : Lexer) : Option Unit :=
  match l.lex with
  | (.newline, _) => some ()
  | _ => none

def strArgs : Nat → Lexer → Option (List Bytes)
  | 0, _ => none
  | fuel + 1, l =>
      match l.lex with
      | (.newline, _) => some []
      | (.str, l) => (strArgs fuel l).map (l.lval :: ·)
      | _ => none

def readNamed (make : Bytes → Request) (l : Lexer) : Option Request := do
  let (name, l) ← strArg l
  lineEnd l
  return make name

def readInt (make : Int → Request) (l : Lexer) : Option Request := do
  let (n, l) ← numArg l
  lineEnd l
  return make n

/-- DELG and DELS read no newline. -/
def readOpenNamed (make : Bytes → Request) (l : Lexer) : Option Request := do
  let (name, _) ← strArg l
  return make name

def readBare (request : Request) (l : Lexer) : Option Request := do
  lineEnd l
  return request

def readPass (l : Lexer) : Option Request := do
  let (password, l) ← strArg l
  let (timeout, l) ← numArg l
  lineEnd l
  return .pass password timeout

def readExec (l : Lexer) : Option Request := do
  let (command, l) ← strArg l
  let (user, l) ← strArg l
  match l.lex with
  | (.newline, _) => return .exec command user [] []
  | (.str, l) =>
      let env ← strArgs (l.unread.length + 1) l
      return .exec command user l.lval env
  | _ => none

def readDelCmd (l : Lexer) : Option Request := do
  let (command, l) ← strArg l
  let (user, l) ← strArg l
  lineEnd l
  return .delCmd command user

def readSet (l : Lexer) : Option Request := do
  let (name, l) ← strArg l
  let (value, l) ← strArg l
  let (group, l) ← strArg l
  let (timeout, l) ← numArg l
  lineEnd l
  return .set name value group timeout

def readArgs : Token → Lexer → Option Request
  | .pass => readPass
  | .host => readNamed .host
  | .prio => readInt .prio
  | .sched => readInt .sched
  | .exec => readExec
  | .delCmd => readDelCmd
  | .delVar => readNamed .delVar
  | .delGroup => readOpenNamed .delGroup
  | .delSpecialKey => readOpenNamed .delSpecialKey
  | .set => readSet
  | .get => readNamed .get
  | .getKeys => readNamed .getKeys
  | .chkGroup => readNamed .chkGroup
  | .ping => readBare .ping
  | .exit => readBare .exit
  | .stop => readBare .stop
  | _ => fun _ => none

/-- The request of a command line, if it is one. -/
def readRequest (buf : Bytes) : Option Request :=
  readArgs (Lexer.new buf).lex.1 (Lexer.new buf).lex.2

theorem strArg_of_scan {l : Lexer} {s rest : Bytes} (scanned : scan l.unread = (.str, s, rest)) :
    ∃ l', strArg l = some (s, l') ∧ l'.unread = rest := by
  obtain ⟨l', lexed, value, unread⟩ := Lexer.exists_lex scanned
  exact ⟨l', by simp only [strArg, lexed, value], unread⟩

theorem strArg_eq_none {l : Lexer} (other : (scan l.unread).1 ≠ .str) : strArg l = none := by
  rw [← Lexer.lex_fst] at other
  simp only [strArg]
  split
  · simp_all
  · rfl

theorem numArg_of_scan {l : Lexer} {s rest : Bytes} (scanned : scan l.unread = (.num, s, rest)) :
    ∃ l', numArg l = some (toInt s, l') ∧ l'.unread = rest := by
  obtain ⟨l', lexed, value, unread⟩ := Lexer.exists_lex scanned
  exact ⟨l', by simp only [numArg, lexed, value], unread⟩

theorem numArg_eq_none {l : Lexer} (other : (scan l.unread).1 ≠ .num) : numArg l = none := by
  rw [← Lexer.lex_fst] at other
  simp only [numArg]
  split
  · simp_all
  · rfl

theorem strArgs_enough {fuel fuel' : Nat} {l : Lexer} (enough : l.unread.length < fuel)
    (enough' : l.unread.length < fuel') : strArgs fuel l = strArgs fuel' l := by
  induction fuel generalizing fuel' l with
  | zero => omega
  | succ fuel ih =>
    obtain ⟨fuel', rfl⟩ := Nat.exists_eq_succ_of_ne_zero (Nat.ne_of_gt (Nat.zero_lt_of_lt enough'))
    simp only [strArgs]
    rcases lexed : l.lex with ⟨tok, l'⟩
    cases tok
    case str =>
      have shorter := Lexer.token_length_lt lexed Token.noConfusion
      exact congrArg (Option.map (l'.lval :: ·)) (ih (by omega) (by omega))
    all_goals rfl

theorem lineEnd_of_unread {l : Lexer} {rest : Bytes} (unread : l.unread = newline :: rest) :
    lineEnd l = some () := by
  have scanned : scan l.unread = (.newline, [], rest) := by rw [unread, scan_newline]
  obtain ⟨l', lexed, -, -⟩ := Lexer.exists_lex scanned
  simp only [lineEnd, lexed]

theorem numArg_range {l l' : Lexer} {n : Int} (read : numArg l = some (n, l')) :
    0 ≤ n ∧ n < 2 ^ 31 := by
  simp only [numArg] at read
  split at read
  · cases read
    exact ⟨toInt_nonneg _, toInt_lt _⟩
  · cases read

def Request.word : Request → Token
  | .pass .. => .pass
  | .host .. => .host
  | .prio .. => .prio
  | .sched .. => .sched
  | .exec .. => .exec
  | .delCmd .. => .delCmd
  | .delVar .. => .delVar
  | .delGroup .. => .delGroup
  | .delSpecialKey .. => .delSpecialKey
  | .set .. => .set
  | .get .. => .get
  | .getKeys .. => .getKeys
  | .chkGroup .. => .chkGroup
  | .ping => .ping
  | .exit => .exit
  | .stop => .stop

private theorem word_of_bind {α : Type} {read : Option α} {next : α → Option Request}
    {word : Token} (rest : ∀ a, ∀ request ∈ next a, request.word = word) :
    ∀ request ∈ read.bind next, request.word = word := by
  intro request made
  obtain ⟨a, -, made⟩ := Option.bind_eq_some_iff.mp made
  exact rest a request made

private theorem word_of_some {request' : Request} :
    ∀ request ∈ some request', request.word = request'.word := by
  rintro request made
  cases made
  rfl

theorem readArgs_word (tok : Token) (l : Lexer) :
    ∀ request ∈ readArgs tok l, request.word = tok := by
  cases tok
  case pass =>
    exact word_of_bind fun _ => word_of_bind fun _ => word_of_bind fun _ => word_of_some
  case host | delVar | get | getKeys | chkGroup | prio | sched =>
    exact word_of_bind fun _ => word_of_bind fun _ => word_of_some
  case delGroup | delSpecialKey => exact word_of_bind fun _ => word_of_some
  case exec =>
    refine word_of_bind fun _ => word_of_bind fun ⟨user, l⟩ => ?_
    dsimp only
    rcases l.lex with ⟨tok, l'⟩
    cases tok
    case newline => exact word_of_some
    case str => exact word_of_bind fun _ => word_of_some
    all_goals exact fun request made => by cases made
  case delCmd =>
    exact word_of_bind fun _ => word_of_bind fun _ => word_of_bind fun _ => word_of_some
  case set =>
    exact word_of_bind fun _ => word_of_bind fun _ => word_of_bind fun _ => word_of_bind fun _ =>
      word_of_bind fun _ => word_of_some
  case ping | exit | stop => exact word_of_bind fun _ => word_of_some
  all_goals exact fun request made => by cases made

theorem set_timeout_range {buf name value group : Bytes} {timeout : Int}
    (read : readRequest buf = some (.set name value group timeout)) :
    0 ≤ timeout ∧ timeout < 2 ^ 31 := by
  rw [readRequest] at read
  have word := readArgs_word _ _ _ read
  rw [← word] at read
  simp only [Request.word, readArgs, readSet, Option.bind_eq_bind, Option.bind_eq_some_iff] at read
  obtain ⟨⟨_, l₁⟩, -, ⟨_, l₂⟩, -, ⟨_, l₃⟩, -, ⟨n, l₄⟩, number, _, -, made⟩ := read
  cases made
  exact numArg_range number

def isCommandWord : Token → Bool
  | .none | .str | .num | .newline => false
  | _ => true

/-- What a refused line is answered: a NO when its command is unknown, else nothing. -/
def refusal (buf : Bytes) : List Reply :=
  if isCommandWord (Lexer.new buf).lex.1 then [] else [.respond .Res_NO []]

section

variable (sys : SysCalls) (h : ConnectionHandler) (repo : Repository)

/-- An outcome is that of the request read, or a parse error that leaves the repository and the
descriptor. -/
private def Follows (o : Outcome) : Option Request → Prop
  | some request => o = perform sys h repo request
  | none => ∃ h', h'.m_Fd = h.m_Fd ∧ o = parseError h' repo

variable {sys h repo}

private theorem follows_onStr {h' : ConnectionHandler} (same : h'.m_Fd = h.m_Fd) {l : Lexer}
    {next : Bytes → Lexer → Outcome} {read : Bytes × Lexer → Option Request}
    (rest : ∀ s l, Follows sys h repo (next s l) (read (s, l))) :
    Follows sys h repo (onStr l h' repo next) ((strArg l).bind read) := by
  simp only [onStr, strArg]
  rcases l.lex with ⟨tok, l⟩
  cases tok
  case str => exact rest l.lval l
  all_goals exact ⟨h', same, rfl⟩

private theorem follows_onNum {h' : ConnectionHandler} (same : h'.m_Fd = h.m_Fd) {l : Lexer}
    {next : Int → Lexer → Outcome} {read : Int × Lexer → Option Request}
    (rest : ∀ n l, Follows sys h repo (next n l) (read (n, l))) :
    Follows sys h repo (onNum l h' repo next) ((numArg l).bind read) := by
  simp only [onNum, numArg]
  rcases l.lex with ⟨tok, l⟩
  cases tok
  case num => exact rest (toInt l.lval) l
  all_goals exact ⟨h', same, rfl⟩

private theorem follows_onNewline {h' : ConnectionHandler} (same : h'.m_Fd = h.m_Fd) {l : Lexer}
    {o : Outcome} {request : Request} (performed : o = perform sys h repo request) :
    Follows sys h repo (onNewline l h' repo o) ((lineEnd l).bind fun _ => some request) := by
  simp only [onNewline, lineEnd]
  rcases l.lex with ⟨tok, l⟩
  cases tok
  case newline => exact performed
  all_goals exact ⟨h', same, rfl⟩

private theorem readEnv_eq (fuel : Nat) (l : Lexer) (env : List Bytes) (check : QByteArray) :
    readEnv fuel l.lex env check =
      (strArgs fuel l).map (fun strings => (env ++ strings, strings.foldl checkEnv check)) := by
  induction fuel generalizing l env check with
  | zero => rfl
  | succ fuel ih =>
    simp only [strArgs]
    rcases l.lex with ⟨tok, l⟩
    cases tok
    case newline => simp [readEnv]
    case str =>
      simp only [readEnv, reduceCtorEq, if_false, if_true, ih, Option.map_map,
        Function.comp_def, List.append_assoc, List.singleton_append, List.foldl_cons]
    all_goals rfl

private theorem doExec_follows (l : Lexer) :
    Follows sys h repo (doExec sys h repo l) (readExec l) := by
  refine follows_onStr (by rfl) fun command l => follows_onStr (by rfl) fun user l => ?_
  dsimp only
  rcases l.lex with ⟨tok, l⟩
  cases tok
  case newline => rfl
  case str =>
    simp only [readEnv_eq, List.nil_append]
    cases strArgs (l.unread.length + 1) l with
    | none => exact ⟨h, rfl, rfl⟩
    | some env => rfl
  all_goals exact ⟨h, rfl, rfl⟩

private theorem doNamed_follows {act : Bytes → Outcome} {make : Bytes → Request}
    (performed : ∀ name, act name = perform sys h repo (make name)) (l : Lexer) :
    Follows sys h repo (doNamed act h repo l) (readNamed make l) :=
  follows_onStr (by rfl) fun name _ => follows_onNewline (by rfl) (performed name)

private theorem doOpenNamed_follows {act : Bytes → Outcome} {make : Bytes → Request}
    (performed : ∀ name, act name = perform sys h repo (make name)) (l : Lexer) :
    Follows sys h repo (doOpenNamed act h repo l) (readOpenNamed make l) :=
  follows_onStr (by rfl) fun name _ => performed name

private theorem doSetInt_follows {update : ConnectionHandler → Int → ConnectionHandler}
    {make : Int → Request} (same : ∀ n, (update h n).m_Fd = h.m_Fd)
    (performed : ∀ n, answer (update h n) repo .Res_OK [] = perform sys h repo (make n))
    (l : Lexer) : Follows sys h repo (doSetInt update h repo l) (readInt make l) :=
  follows_onNum (by rfl) fun n _ => follows_onNewline (same n) (performed n)

private theorem doCommand_follows (me : peerIsMe sys h) (repo : Repository) (buf : Bytes)
    (known : isCommandWord (Lexer.new buf).lex.1 = true) :
    Follows sys h repo (doCommand sys h repo buf) (readRequest buf) := by
  simp only [doCommand, readRequest, me, not_true_eq_false, if_false]
  rcases same : (Lexer.new buf).lex with ⟨tok, l⟩
  rw [same] at known
  cases tok
  case pass =>
    exact follows_onStr (by rfl) fun _ _ => follows_onNum (by rfl) fun _ _ =>
      follows_onNewline (by rfl) rfl
  case host => exact follows_onStr (by rfl) fun _ _ => follows_onNewline (by rfl) rfl
  case prio => exact doSetInt_follows (fun _ => rfl) (fun _ => rfl) l
  case sched => exact doSetInt_follows (fun _ => rfl) (fun _ => rfl) l
  case exec => exact doExec_follows l
  case delCmd =>
    exact follows_onStr (by rfl) fun _ _ => follows_onStr (by rfl) fun _ _ =>
      follows_onNewline (by rfl) rfl
  case delVar => exact doNamed_follows (fun _ => rfl) l
  case delGroup => exact doOpenNamed_follows (fun _ => rfl) l
  case delSpecialKey => exact doOpenNamed_follows (fun _ => rfl) l
  case set =>
    exact follows_onStr (by rfl) fun _ _ => follows_onStr (by rfl) fun _ _ =>
      follows_onStr (by rfl) fun _ _ => follows_onNum (by rfl) fun _ _ =>
        follows_onNewline (by rfl) rfl
  case get => exact doNamed_follows (fun _ => rfl) l
  case getKeys => exact doNamed_follows (fun _ => rfl) l
  case chkGroup => exact doNamed_follows (fun _ => rfl) l
  case ping => exact follows_onNewline (by rfl) rfl
  case exit => exact follows_onNewline (by rfl) rfl
  case stop => exact follows_onNewline (by rfl) rfl
  all_goals simp [isCommandWord] at known

end

private theorem readArgs_unknown {tok : Token} (unknown : isCommandWord tok = false)
    (l : Lexer) : readArgs tok l = none := by
  cases tok <;> first | rfl | simp [isCommandWord] at unknown

private theorem doCommand_unknown {sys : SysCalls} {h : ConnectionHandler} (me : peerIsMe sys h)
    (repo : Repository) {buf : Bytes} (unknown : isCommandWord (Lexer.new buf).lex.1 = false) :
    doCommand sys h repo buf = { parseError h repo with sent := [.respond .Res_NO []] } := by
  simp only [doCommand, me, not_true_eq_false, if_false]
  rcases same : (Lexer.new buf).lex with ⟨tok, l⟩
  rw [same] at unknown
  cases tok <;> first | rfl | simp [isCommandWord] at unknown

/-- A line that reads as a request has exactly that request's effect. -/
theorem doCommand_of_request {sys : SysCalls} {h : ConnectionHandler} (me : peerIsMe sys h)
    (repo : Repository) {buf : Bytes} {request : Request} (read : readRequest buf = some request) :
    doCommand sys h repo buf = perform sys h repo request := by
  cases known : isCommandWord (Lexer.new buf).lex.1 with
  | true =>
    have follows := doCommand_follows me repo buf known
    rwa [read] at follows
  | false =>
    rw [readRequest, readArgs_unknown known] at read
    cases read

/-- Any other line is a parse error: the repository stays and the handler goes. -/
theorem doCommand_of_none {sys : SysCalls} {h : ConnectionHandler} (me : peerIsMe sys h)
    (repo : Repository) {buf : Bytes} (read : readRequest buf = none) :
    ∃ h', h'.m_Fd = h.m_Fd ∧
      doCommand sys h repo buf = { parseError h' repo with sent := refusal buf } := by
  cases known : isCommandWord (Lexer.new buf).lex.1 with
  | true =>
    have follows := doCommand_follows me repo buf known
    rw [read] at follows
    obtain ⟨h', same, refused⟩ := follows
    exact ⟨h', same, by rw [refused, refusal, known]; rfl⟩
  | false => exact ⟨h, rfl, by rw [doCommand_unknown me repo known, refusal, known]; rfl⟩

theorem doCommand_of_stranger {sys : SysCalls} {h : ConnectionHandler}
    (stranger : ¬peerIsMe sys h) (repo : Repository) (buf : Bytes) :
    doCommand sys h repo buf = parseError h repo := by
  simp only [doCommand, stranger, not_false_eq_true, if_true]

section

variable (sys : SysCalls) (h : ConnectionHandler) (repo : Repository)

def handlerOf (h : ConnectionHandler) (child : Option Child) : Request → ConnectionHandler
  | .pass password timeout => { h with m_Pass := some password, m_Timeout := timeout }
  | .host host => { h with m_Host := host }
  | .prio priority => { h with m_Priority := priority }
  | .sched scheduler => { h with m_Scheduler := scheduler }
  | .exec .. =>
      match child with
      | some c => { h with m_pid := c.pid }
      | none => h
  | .exit => { h with m_needExitCode := true }
  | _ => h

private theorem launch_handler (command user options : Bytes) (env : List Bytes) (pass : Bytes) :
    (launch sys h repo command user options env pass).handler =
      match (launch sys h repo command user options env pass).child with
      | some c => { h with m_pid := c.pid }
      | none => h := by
  simp only [launch]
  cases sys.fork <;> rfl

theorem perform_handler (request : Request) :
    (perform sys h repo request).handler =
      handlerOf h (perform sys h repo request).child request := by
  cases request
  case exec command user options env =>
    simp only [perform, execCommand, handlerOf]
    split
    · exact launch_handler sys h repo command user options env _
    · split
      · rfl
      · exact launch_handler sys h _ command user options env _
  case get | getKeys =>
    simp only [perform, deliver]
    split_ifs <;> rfl
  all_goals rfl

theorem perform_child {request : Request} {c : Child}
    (started : (perform sys h repo request).child = some c) :
    ∃ command user options env, request = .exec command user options env := by
  cases request
  case exec command user options env => exact ⟨command, user, options, env, rfl⟩
  case get | getKeys =>
    simp only [perform, deliver, answer] at started
    split_ifs at started
  all_goals cases started

private theorem launch_sent (command user options : Bytes) (env : List Bytes) (pass : Bytes) :
    ∃ ok, (launch sys h repo command user options env pass).sent = [.respond ok []] := by
  simp only [launch]
  cases sys.fork with
  | none => exact ⟨.Res_NO, rfl⟩
  | some pid => exact ⟨.Res_OK, rfl⟩

theorem perform_answer {request : Request} (other : request ≠ .exit) :
    ∃ ok, (perform sys h repo request).sent = [.respond ok (request.value repo)] ∧
      (request.value repo ≠ [] → ok = .Res_OK) := by
  cases request
  case exit => exact absurd rfl other
  case exec command user options env =>
    have answered : ∃ ok, (perform sys h repo (.exec command user options env)).sent =
        [.respond ok []] := by
      simp only [perform, execCommand]
      split
      · exact launch_sent sys h repo command user options env _
      · split
        · exact ⟨.Res_NO, rfl⟩
        · exact launch_sent sys h _ command user options env _
    obtain ⟨ok, sent⟩ := answered
    exact ⟨ok, sent, fun more => absurd rfl more⟩
  case get | getKeys =>
    simp only [perform, deliver, Request.value]
    split_ifs with empty
    · exact ⟨.Res_NO, by rw [empty]; rfl, fun more => absurd empty more⟩
    · exact ⟨.Res_OK, rfl, fun _ => rfl⟩
  all_goals exact ⟨_, rfl, fun more => absurd rfl more⟩

theorem perform_sent (request : Request) :
    (request = .exit ∧ (perform sys h repo request).sent =
        if h.m_hasExitCode then [.exitCode h.m_exitCode] else []) ∨
      (request ≠ .exit ∧ ∃ ok s, (perform sys h repo request).sent = [.respond ok s]) := by
  by_cases exits : request = .exit
  · subst exits
    exact Or.inl ⟨rfl, rfl⟩
  · obtain ⟨ok, sent, -⟩ := perform_answer sys h repo exits
    exact Or.inr ⟨exits, ok, _, sent⟩

theorem perform_ending (request : Request) :
    (perform sys h repo request).ending = if request = .stop then .exit else .ok := by
  cases request
  case exec command user options env =>
    simp only [perform, execCommand, launch, answer, reduceCtorEq, if_false]
    split
    · split <;> rfl
    · split
      · rfl
      · split <;> rfl
  case get | getKeys =>
    simp only [perform, deliver, answer, reduceCtorEq, if_false]
    split <;> rfl
  all_goals rfl

end

theorem doCommand_m_Fd (sys : SysCalls) (h : ConnectionHandler) (repo : Repository)
    (buf : Bytes) : (doCommand sys h repo buf).handler.m_Fd = h.m_Fd := by
  by_cases me : peerIsMe sys h
  · cases read : readRequest buf with
    | none =>
      obtain ⟨h', same, refused⟩ := doCommand_of_none me repo read
      rw [refused]
      exact same
    | some request =>
      rw [doCommand_of_request me repo read, perform_handler]
      cases request
      case exec => cases (perform sys h repo _).child <;> rfl
      all_goals rfl
  · rw [doCommand_of_stranger me]
    rfl

theorem pass_of_started {sys : SysCalls} {h : ConnectionHandler} {repo : Repository}
    {command user options : Bytes} {env : List Bytes} {child : Child}
    (started : (perform sys h repo (.exec command user options env)).child = some child) :
    (cachedPass h repo command user (envCheck env)).or h.m_Pass = some child.pass := by
  have launched {repo : Repository} {pass : Bytes}
      (started : (launch sys h repo command user options env pass).child = some child) :
      child.pass = pass := by
    simp only [launch] at started
    split at started
    · cases started
    · cases started
      rfl
  simp only [perform, execCommand] at started
  split at started
  · rename_i pass found
    rw [found, Option.some_or, launched started]
  · rename_i missing
    split at started
    · cases started
    · rename_i pass held
      rw [missing, held, Option.none_or, launched started]

end KDESu.Daemon.Requests
