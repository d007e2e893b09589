/- KDESu/Daemon/Handling
   source: src/kdesud/handler.cpp, src/kdesud/handler.h
   digest: A connection handler and doCommand, case by case as the source has them. -/

import KDESu.Daemon.Lexing
import KDESu.Daemon.Repositories

set_option autoImplicit false
set_option relaxedAutoImplicit false

namespace KDESu.Daemon.Handling

open KDESu.ByteArrays
open KDESu.Daemon.Lexing (Lexer Token)
open KDESu.Daemon.Repositories (DataEntry Repository)

abbrev Pid := { n : Nat // 0 < n }

instance pidOfNat (n : Nat) : OfNat Pid (n + 1) := ⟨⟨n + 1, Nat.succ_pos n⟩⟩

/-- What the system calls of one `doCommand` answer: the two readings of `time(nullptr)`
that an EXEC can take in this order, and `fork` in the parent, where `none` is a failure. -/
structure SysCalls where
  getuid : Nat
  time₁ : Nat
  time₂ : Nat
  fork : Option Pid
  deriving DecidableEq, Repr

def SchedNormal : Int := 0

/-- `ConnectionHandler` without `m_Buf`, which only `handle` uses. The peer's `uid` is
`SocketSecurity`'s. -/
structure ConnectionHandler where
  m_Fd : Nat
  uid : Int
  m_Timeout : Int
  m_Priority : Int
  m_Scheduler : Int
  m_Pass : QByteArray
  m_Host : Bytes
  m_exitCode : Int
  m_hasExitCode : Bool
  m_needExitCode : Bool
  m_pid : Nat
  deriving DecidableEq, Repr

/-- The constructor leaves `m_Timeout` as it finds it. -/
def ConnectionHandler.new (fd : Nat) (uid uninitialised : Int) : ConnectionHandler where
  m_Fd := fd
  uid := uid
  m_Timeout := uninitialised
  m_Priority := 50
  m_Scheduler := SchedNormal
  m_Pass := none
  m_Host := []
  m_exitCode := 0
  m_hasExitCode := false
  m_needExitCode := false
  m_pid := 0

inductive Results
  | Res_OK | Res_NO
  deriving DecidableEq, Repr

inductive Reply
  | respond (ok : Results) (s : Bytes)
  | exitCode (code : Int)
  deriving DecidableEq, Repr

/-- The bytes that `respond` and `sendExitCode` put on the socket. -/
def Reply.buf : Reply → Bytes
  | .respond ok s =>
      let buf := match ok with
        | .Res_OK => ascii "OK"
        | .Res_NO => ascii "NO"
      let buf := if s = [] then buf else buf ++ blank :: s
      buf ++ [newline]
  | .exitCode code => ascii "OK " ++ setNum code ++ [newline]

inductive Process
  | su (command user : Bytes) (xOnly : Bool) (priority scheduler : Int)
      (environment : List Bytes)
  | ssh (command user host : Bytes)
  deriving DecidableEq, Repr

structure Child where
  pid : Pid
  process : Process
  pass : Bytes
  deriving DecidableEq, Repr

/-- How `doCommand` ends: it returns 0, it returns -1, or it stops the daemon. -/
inductive Ending
  | ok | error | exit
  deriving DecidableEq, Repr

structure Outcome where
  ending : Ending
  handler : ConnectionHandler
  repo : Repository
  sent : List Reply
  child : Option Child

def makeKey (namespac : Int) (s1 s2 s3 : Bytes) : Bytes :=
  setNum namespac ++ asterisk :: (s1 ++ asterisk :: (s2 ++ asterisk :: s3))

theorem makeKey_ne_nil (namespac : Int) (s1 s2 s3 : Bytes) :
    makeKey namespac s1 s2 s3 ≠ [] := by
  simp [makeKey]

def sendExitCode (h : ConnectionHandler) : List Reply :=
  if h.m_needExitCode then [.exitCode h.m_exitCode] else []

def parseError (h : ConnectionHandler) (repo : Repository) : Outcome :=
  ⟨.error, h, repo, [], none⟩

def answer (h : ConnectionHandler) (repo : Repository) (ok : Results)
    (s : Bytes) : Outcome :=
  ⟨.ok, h, repo, [.respond ok s], none⟩

/-- An int stored in an unsigned field. -/
def unsigned (n : Int) : Nat := (n % 2 ^ 32).toNat

/-- The account in the repository's keys. -/
def authUser (h : ConnectionHandler) (user : Bytes) : Bytes :=
  if h.m_Scheduler ≠ SchedNormal ∨ 50 < h.m_Priority then ascii "root" else user

/-- One round of the environment loop: `env_check` leaves out the startup id. -/
def checkEnv (env_check : QByteArray) (env_str : Bytes) : QByteArray :=
  if ascii "DESKTOP_STARTUP_ID=" <+: env_str then env_check
  else some (env_check.data ++ asterisk :: env_str)

def process (h : ConnectionHandler) (command user options : Bytes) (env : List Bytes) : Process :=
  if h.m_Host = [] then
    .su command user (contains options (ascii "x")) h.m_Priority h.m_Scheduler env
  else .ssh command user h.m_Host

/-- EXEC from `fork` on. -/
def launch (sys : SysCalls) (h : ConnectionHandler) (repo : Repository)
    (command user options : Bytes) (env : List Bytes) (pass : Bytes) : Outcome :=
  match sys.fork with
  | none => answer h repo .Res_NO []
  | some pid =>
      { answer { h with m_pid := pid } repo .Res_OK [] with
        child := some ⟨pid, process h command user options env, pass⟩ }

/-- The password EXEC finds in the repository; null when there is none to use. -/
def cachedPass (h : ConnectionHandler) (repo : Repository) (command user : Bytes)
    (env_check : QByteArray) : QByteArray :=
  if (repo.find (makeKey 2 h.m_Host (authUser h user) command)).eq env_check then
    repo.find (makeKey 0 h.m_Host (authUser h user) command)
  else none

/-- The two entries EXEC adds: the environment first, then the password. -/
def cachePass (sys : SysCalls) (h : ConnectionHandler) (repo : Repository)
    (command user : Bytes) (env_check : QByteArray) : Repository :=
  let repo := repo.add sys.time₁ (makeKey 2 h.m_Host (authUser h user) command)
    (makeKey_ne_nil _ _ _ _) ⟨env_check, [], unsigned h.m_Timeout⟩
  repo.add sys.time₂ (makeKey 0 h.m_Host (authUser h user) command)
    (makeKey_ne_nil _ _ _ _) ⟨h.m_Pass, [], unsigned h.m_Timeout⟩

/-- EXEC behind its token checks. -/
def execCommand (sys : SysCalls) (h : ConnectionHandler) (repo : Repository)
    (command user options : Bytes) (env : List Bytes) (env_check : QByteArray) : Outcome :=
  match cachedPass h repo command user env_check with
  | some pass => launch sys h repo command user options env pass
  | none =>
      match h.m_Pass with
      | none => answer h repo .Res_NO []
      | some pass =>
          launch sys h (cachePass sys h repo command user env_check) command user options env
            pass

/-- The reply of the three deletions and of CHKG to a return value. -/
def report (h : ConnectionHandler) (result : Repository × Int) : Outcome :=
  answer h result.1 (if result.2 < 0 then .Res_NO else .Res_OK) []

/-- The reply of GET and GETK: an empty value is a NO. -/
def deliver (h : ConnectionHandler) (repo : Repository) (value : Bytes) : Outcome :=
  if value = [] then answer h repo .Res_NO [] else answer h repo .Res_OK value

def setVariable (sys : SysCalls) (h : ConnectionHandler) (repo : Repository)
    (name value group : Bytes) (timeout : Int) : Outcome :=
  answer h (repo.add sys.time₁ (makeKey 1 name [] []) (makeKey_ne_nil _ _ _ _)
    ⟨some value, group, unsigned timeout⟩) .Res_OK []

def requestExitCode (h : ConnectionHandler) (repo : Repository) : Outcome :=
  let h := { h with m_needExitCode := true }
  ⟨.ok, h, repo, if h.m_hasExitCode then sendExitCode h else [], none⟩

def onStr (l : Lexer) (h : ConnectionHandler) (repo : Repository)
    (next : Bytes → Lexer → Outcome) : Outcome :=
  match l.lex with
  | (.str, l) => next l.lval l
  | _ => parseError h repo

def onNum (l : Lexer) (h : ConnectionHandler) (repo : Repository)
    (next : Int → Lexer → Outcome) : Outcome :=
  match l.lex with
  | (.num, l) => next (toInt l.lval) l
  | _ => parseError h repo

def onNewline (l : Lexer) (h : ConnectionHandler) (repo : Repository)
    (next : Outcome) : Outcome :=
  match l.lex with
  | (.newline, _) => next
  | _ => parseError h repo

def doPass (h : ConnectionHandler) (repo : Repository) (l : Lexer) : Outcome :=
  onStr l h repo fun password l =>
    let h := { h with m_Pass := some password }
    onNum l h repo fun timeout l =>
      let h := { h with m_Timeout := timeout }
      onNewline l h repo <|
        let h := if h.m_Pass.isNull then { h with m_Pass := some [] } else h
        answer h repo .Res_OK []

def doHost (h : ConnectionHandler) (repo : Repository) (l : Lexer) : Outcome :=
  onStr l h repo fun host l =>
    let h := { h with m_Host := host }
    onNewline l h repo (answer h repo .Res_OK [])

/-- PRIO and SCHD differ in the field they set. -/
def doSetInt (update : ConnectionHandler → Int → ConnectionHandler) (h : ConnectionHandler)
    (repo : Repository) (l : Lexer) : Outcome :=
  onNum l h repo fun n l =>
    let h := update h n
    onNewline l h repo (answer h repo .Res_OK [])

def doPrio : ConnectionHandler → Repository → Lexer → Outcome :=
  doSetInt (fun h n => { h with m_Priority := n })

def doSched : ConnectionHandler → Repository → Lexer → Outcome :=
  doSetInt (fun h n => { h with m_Scheduler := n })

/-- The loop over the environment strings of EXEC. The fuel is a bound on the tokens
left: each takes at least one of the unread bytes. -/
def readEnv : Nat → Token × Lexer → List Bytes → QByteArray → Option (List Bytes × QByteArray)
  | 0, _, _, _ => none
  | fuel + 1, (tok, l), env, env_check =>
      if tok = .newline then some (env, env_check)
      else if tok = .str then
        readEnv fuel l.lex (env ++ [l.lval]) (checkEnv env_check l.lval)
      else none

def doExec (sys : SysCalls) (h : ConnectionHandler) (repo : Repository) (l : Lexer) : Outcome :=
  onStr l h repo fun command l =>
    onStr l h repo fun user l =>
      match l.lex with
      | (.newline, _) => execCommand sys h repo command user [] [] none
      | (.str, l) =>
          let options := l.lval
          match readEnv (l.unread.length + 1) l.lex [] none with
          | some (env, env_check) => execCommand sys h repo command user options env env_check
          | none => parseError h repo
      | _ => parseError h repo

def doDelCmd (h : ConnectionHandler) (repo : Repository) (l : Lexer) : Outcome :=
  onStr l h repo fun command l =>
    onStr l h repo fun user l =>
      onNewline l h repo (report h (repo.remove (makeKey 0 h.m_Host user command)))

/-- DELV, GET, GETK and CHKG: one string and the newline. -/
def doNamed (act : Bytes → Outcome) (h : ConnectionHandler) (repo : Repository)
    (l : Lexer) : Outcome :=
  onStr l h repo fun name l => onNewline l h repo (act name)

/-- DELG and DELS: one string, and no look at what follows it. -/
def doOpenNamed (act : Bytes → Outcome) (h : ConnectionHandler) (repo : Repository)
    (l : Lexer) : Outcome :=
  onStr l h repo fun name _ => act name

def doDelVar (h : ConnectionHandler) (repo : Repository) : Lexer → Outcome :=
  doNamed (fun name => report h (repo.remove (makeKey 1 name [] []))) h repo

def doDelGroup (h : ConnectionHandler) (repo : Repository) : Lexer → Outcome :=
  doOpenNamed (fun name => report h (repo.removeGroup name)) h repo

def doDelSpecialKey (h : ConnectionHandler) (repo : Repository) : Lexer → Outcome :=
  doOpenNamed (fun name => report h (repo.removeSpecialKey name)) h repo

def doGet (h : ConnectionHandler) (repo : Repository) : Lexer → Outcome :=
  doNamed (fun name => deliver h repo (repo.find (makeKey 1 name [] [])).data) h repo

def doGetKeys (h : ConnectionHandler) (repo : Repository) : Lexer → Outcome :=
  doNamed (fun name => deliver h repo (repo.findKeys name (ascii "-"))) h repo

def doChkGroup (h : ConnectionHandler) (repo : Repository) : Lexer → Outcome :=
  doNamed (fun name => report h (repo, repo.hasGroup name)) h repo

def doSet (sys : SysCalls) (h : ConnectionHandler) (repo : Repository) (l : Lexer) : Outcome :=
  onStr l h repo fun name l =>
    onStr l h repo fun value l =>
      onStr l h repo fun group l =>
        onNum l h repo fun timeout l =>
          onNewline l h repo (setVariable sys h repo name value group timeout)

def doPing (h : ConnectionHandler) (repo : Repository) (l : Lexer) : Outcome :=
  onNewline l h repo (answer h repo .Res_OK [])

def doExit (h : ConnectionHandler) (repo : Repository) (l : Lexer) : Outcome :=
  onNewline l h repo (requestExitCode h repo)

def doStop (h : ConnectionHandler) (repo : Repository) (l : Lexer) : Outcome :=
  onNewline l h repo { answer h repo .Res_OK [] with ending := .exit }

/-- `(uid_t)peerUid() == getuid()`. -/
def peerIsMe (sys : SysCalls) (h : ConnectionHandler) : Prop := unsigned h.uid = sys.getuid

instance (sys : SysCalls) (h : ConnectionHandler) : Decidable (peerIsMe sys h) :=
  inferInstanceAs (Decidable (_ = _))

def doCommand (sys : SysCalls) (h : ConnectionHandler) (repo : Repository)
    (buf : Bytes) : Outcome :=
  if ¬peerIsMe sys h then parseError h repo
  else
    match (Lexer.new buf).lex with
    | (.pass, l) => doPass h repo l
    | (.host, l) => doHost h repo l
    | (.prio, l) => doPrio h repo l
    | (.sched, l) => doSched h repo l
    | (.exec, l) => doExec sys h repo l
    | (.delCmd, l) => doDelCmd h repo l
    | (.delVar, l) => doDelVar h repo l
    | (.delGroup, l) => doDelGroup h repo l
    | (.delSpecialKey, l) => doDelSpecialKey h repo l
    | (.set, l) => doSet sys h repo l
    | (.get, l) => doGet h repo l
    | (.getKeys, l) => doGetKeys h repo l
    | (.chkGroup, l) => doChkGroup h repo l
    | (.ping, l) => doPing h repo l
    | (.exit, l) => doExit h repo l
    | (.stop, l) => doStop h repo l
    | _ => { parseError h repo with sent := [.respond .Res_NO []] }

end KDESu.Daemon.Handling
