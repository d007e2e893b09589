/- KDESu/Stub/Cookies
   source: src/kcookie.cpp, src/kdesu_stub.c, src/stubprocess.cpp
   digest: The cookie of a display, from the xauth that lists it to the xauth that adds it. -/

import KDESu.Library.Words
import KDESu.Stub.Serving

set_option autoImplicit false
set_option relaxedAutoImplicit false

namespace KDESu.Stub.Cookies

open KDESu.ByteArrays
open KDESu.Library.Environments
open KDESu.Library.Words
open KDESu.Process.Launching
open KDESu.Process.Conversing
open KDESu.Stub.Parameters
open KDESu.Stub.Running
open KDESu.Stub.Variables
open KDESu.Stub.Serving

/-- The session of the caller. `xauth` is what can be read of the first line of `xauth list` for a
display, where there is an xauth that starts. -/
structure XSession where
  DISPLAY : Bytes
  WAYLAND_DISPLAY : Bytes
  xauth : Option (Bytes → Bytes)

structure KCookie where
  display : Bytes
  displayAuth : Bytes
  deriving DecidableEq, Repr

def simplified (s : Bytes) : Bytes := [blank].intercalate (words isspace s)

/-- What becomes of the line that xauth lists. -/
def parseLine (line : Bytes) : Bytes :=
  let output := simplified line
  if output = [] then []
  else
    match output.splitOn blank with
    | [_, type, key] => type ++ [blank] ++ key
    | _ => []

def getXCookie (x : XSession) : KCookie :=
  if x.DISPLAY = [] then
    -- on Wayland there is no X authentication
    ⟨x.WAYLAND_DISPLAY, []⟩
  else
    let disp := if ascii "localhost:" <+: x.DISPLAY then x.DISPLAY.drop 9 else x.DISPLAY
    match x.xauth with
    | none => ⟨x.DISPLAY, []⟩
    | some readLine => ⟨x.DISPLAY, parseLine (readLine disp)⟩

/-- What `converseStub` answers with for a process of this session. -/
def around (x : XSession) (PATH : Bytes) (getpid : Int) : Surroundings :=
  ⟨(getXCookie x).display, (getXCookie x).displayAuth, PATH, getpid⟩

/-- The line that xauth lists for the display is made of a name, a type and a key. -/
structure Listed (x : XSession) (type key : Bytes) : Prop where
  display : x.DISPLAY ≠ []
  line : ∃ readLine name, x.xauth = some readLine ∧
    words isspace (readLine (authDisplay x.DISPLAY)) = [name, type, key]

theorem isspace_blank : isspace blank = true := rfl

theorem simplified_eq_nil (s : Bytes) : simplified s = [] ↔ words isspace s = [] := by
  refine ⟨fun none => ?_, fun none => by rw [simplified, none]; rfl⟩
  have read : words isspace (simplified s) = words isspace s :=
    words_intercalate isspace_blank fun w => isWord_of_words
  rw [← read, none, words_nil]

theorem Listed.unique {x : XSession} {type key type' key' : Bytes} (first : Listed x type key)
    (second : Listed x type' key') : type = type' ∧ key = key' := by
  obtain ⟨readLine, name, there, line⟩ := first.line
  obtain ⟨other, name', there', line'⟩ := second.line
  obtain rfl : readLine = other := Option.some.inj (there.symm.trans there')
  rw [line] at line'
  injection line' with _ later
  injection later with types rest
  injection rest with keys
  exact ⟨types, keys⟩

theorem getXCookie_display (x : XSession) :
    (getXCookie x).display = if x.DISPLAY = [] then x.WAYLAND_DISPLAY else x.DISPLAY := by
  rw [getXCookie]
  by_cases unset : x.DISPLAY = []
  · rw [if_pos unset, if_pos unset]
  · rw [if_neg unset, if_neg unset]
    cases x.xauth <;> rfl

theorem parseLine_cases (line : Bytes) :
    (∃ name type key, words isspace line = [name, type, key] ∧
      parseLine line = type ++ [blank] ++ key) ∨
    (∀ name type key, words isspace line ≠ [name, type, key]) ∧ parseLine line = [] := by
  by_cases empty : words isspace line = []
  · refine Or.inr ⟨fun name type key three => ?_, ?_⟩
    · rw [empty] at three
      cases three
    · rw [parseLine, if_pos ((simplified_eq_nil line).mpr empty)]
  · rw [parseLine, if_neg fun none => empty ((simplified_eq_nil line).mp none), simplified,
      splitOn_intercalate isspace_blank empty]
    split
    case h_1 name type key three => exact Or.inl ⟨name, type, key, three, rfl⟩
    case h_2 other => exact Or.inr ⟨other, rfl⟩

theorem getXCookie_displayAuth (x : XSession) :
    (∃ type key, Listed x type key ∧ (getXCookie x).displayAuth = type ++ [blank] ++ key) ∨
      (¬∃ type key, Listed x type key) ∧ (getXCookie x).displayAuth = [] := by
  by_cases unset : x.DISPLAY = []
  · refine Or.inr ⟨fun ⟨_, _, listed⟩ => listed.display unset, ?_⟩
    rw [getXCookie, if_pos unset]
  · cases there : x.xauth with
    | none =>
      refine Or.inr ⟨fun ⟨_, _, listed⟩ => ?_, ?_⟩
      · obtain ⟨readLine, name, found, -⟩ := listed.line
        rw [there] at found
        cases found
      · rw [getXCookie, if_neg unset]
        simp only [there]
    | some readLine =>
      have same : (getXCookie x).displayAuth = parseLine (readLine (authDisplay x.DISPLAY)) := by
        rw [getXCookie, if_neg unset]
        simp only [there]
        rfl
      rw [same]
      rcases parseLine_cases (readLine (authDisplay x.DISPLAY)) with
        ⟨name, type, key, three, taken⟩ | ⟨never, taken⟩
      · exact Or.inl ⟨type, key, ⟨unset, readLine, name, there, three⟩, taken⟩
      · refine Or.inr ⟨fun ⟨type, key, listed⟩ => ?_, taken⟩
        obtain ⟨other, name, found, three⟩ := listed.line
        obtain rfl : readLine = other := Option.some.inj (there.symm.trans found)
        exact never name type key three

def fed (programs : List Started) : List (Bytes × Bytes) :=
  (programs.filter (·.input ≠ [])).map fun q => (q.command, q.input)

abbrev xauthCommand : Bytes := ascii "xauth >/dev/null 2>&1"

/-- The calls behind the setup of a display. -/
def CanAdd (sys : System) : Prop := sys.mkstemp.isSome = true ∧ sys.popen = true

theorem fed_append (programs later : List Started) :
    fed (programs ++ later) = fed programs ++ fed later := by
  rw [fed, List.filter_append, List.map_append]
  rfl

theorem fed_start (command input : Bytes) (session : Bool) (s : StubState) :
    fed (start command input session s).started =
      fed s.started ++ if input = [] then [] else [(command, input)] := by
  rw [start, fed_append]
  split_ifs with empty <;> simp [fed, empty]

theorem fed_handleDisplay {sys : System} {v : Params} {s t : StubState}
    (went : handleDisplay sys v s = .ok t) :
    (Asks v → CanAdd sys) ∧
      fed t.started = fed s.started ++ if Asks v then [(xauthCommand, addLine v)] else [] := by
  by_cases asks : Asks v
  · have solid : addLine v ≠ [] := by simp [addLine]
    rw [handleDisplay, if_neg asks.1] at went
    simp only [if_neg asks.2] at went
    cases made : sys.mkstemp with
    | none =>
      simp only [made] at went
      cases went
    | some unique =>
      simp only [made] at went
      split_ifs at went with popen
      · cases went
      · cases went
        have able : CanAdd sys := ⟨made ▸ rfl, by simpa using popen⟩
        refine ⟨fun _ => able, ?_⟩
        rw [fed_start, if_neg solid, if_pos asks]
        rfl
  · have keeps := (handleDisplay_ok went).keeps asks
    rw [if_neg asks, List.append_nil, keeps.started]
    exact ⟨fun both => absurd both asks, rfl⟩

theorem fed_stopKdeinit (sys : System) (v : Params) (s : StubState) :
    fed (stopKdeinit sys v s).started = fed s.started := by
  rw [stopKdeinit]
  split_ifs
  · rw [fed_start, if_pos rfl, List.append_nil]
  · rfl

theorem fed_runCommand (sys : System) (v : Params) (s : StubState) :
    fed (runCommand sys v s).stub.started = fed s.started := by
  rw [runCommand]
  split_ifs
  · rfl
  · rw [(awaitCommand_keeps sys _).1, execCommand]
    split_ifs
    · rw [fed_start, if_pos rfl, List.append_nil]
    · rfl

theorem fed_runAs (sys : System) (v : Params) (s : StubState) :
    (Asks v ∧ CanAdd sys ∧
      fed (runAs sys v s).stub.started = fed s.started ++ [(xauthCommand, addLine v)]) ∨
    (¬(Asks v ∧ CanAdd sys) ∧ fed (runAs sys v s).stub.started = fed s.started) := by
  rw [runAs]
  cases went : handleDisplay sys v s with
  | error e =>
    cases handleDisplay_error went with
    | unmade asks made keeps code =>
      exact Or.inr ⟨fun both => by simp [CanAdd, made] at both, congrArg fed keeps.started⟩
    | unadded asks made popen umask files started code =>
      exact Or.inr ⟨fun both => by simp [CanAdd, popen] at both, congrArg fed started⟩
  | ok t =>
    obtain ⟨able, given⟩ := fed_handleDisplay went
    simp only [fed_runCommand, fed_stopKdeinit, given]
    by_cases asks : Asks v
    · exact Or.inl ⟨asks, able asks, by rw [if_pos asks]⟩
    · exact Or.inr ⟨fun both => asks both.1, by rw [if_neg asks, List.append_nil]⟩

theorem fed_main (b : Build) (sys : System) (v : Params) (c : Credentials) (umask : Nat)
    (environ : List Bytes) :
    let given := fed (main b sys v (.begin c umask environ)).stub.started
    ((∃ pw, Becomes b sys v c pw) ∧ Asks v ∧ CanAdd sys ∧ given = [(xauthCommand, addLine v)]) ∨
    (¬((∃ pw, Becomes b sys v c pw) ∧ Asks v ∧ CanAdd sys) ∧ given = []) := by
  have course := main_course b sys v (.begin c umask environ)
  generalize main b sys v (.begin c umask environ) = e at course
  cases course with
  | refused none_granted keeps code =>
    refine Or.inr ⟨fun ⟨⟨pw, becomes⟩, _⟩ => none_granted pw becomes.1 becomes.2, ?_⟩
    exact congrArg fed keeps.started
  | @became pw t found granted keeps =>
    have nothing : fed t.started = [] := congrArg fed keeps.started
    rcases fed_runAs sys v t with ⟨asks, able, given⟩ | ⟨never, given⟩
    · rw [nothing] at given
      exact Or.inl ⟨⟨pw, found, granted⟩, asks, able, given⟩
    · rw [nothing] at given
      exact Or.inr ⟨fun ⟨_, both⟩ => never both, given⟩

def cookieLine (x : XSession) (type key : Bytes) : Bytes :=
  ascii "add " ++ authDisplay x.DISPLAY ++ [blank] ++ (type ++ [blank] ++ key) ++ [newline]

theorem Listed.words {x : XSession} {type key : Bytes} (listed : Listed x type key) :
    IsWord isspace type ∧ IsWord isspace key := by
  obtain ⟨-, readLine, name, -, line⟩ := listed
  have each : ∀ w ∈ [name, type, key], IsWord isspace w := fun w member =>
    isWord_of_words (line ▸ member)
  exact ⟨each type (by simp), each key (by simp)⟩

theorem words_cookieLine {x : XSession} {type key : Bytes} (listed : Listed x type key)
    (plain : ∀ c ∈ x.DISPLAY, isspace c = false) :
    words isspace (cookieLine x type key) =
      [ascii "add", authDisplay x.DISPLAY, type, key] := by
  obtain ⟨type_word, key_word⟩ := listed.words
  have display : IsWord isspace (authDisplay x.DISPLAY) := by
    rw [authDisplay]
    split_ifs with localhost
    · obtain ⟨rest, whole⟩ := localhost
      refine ⟨?_, fun c member => plain c (List.mem_of_mem_drop member)⟩
      rw [← whole]
      exact List.cons_ne_nil 58 rest
    · exact ⟨listed.display, plain⟩
  have each : ∀ w ∈ [ascii "add", authDisplay x.DISPLAY, type, key], IsWord isspace w := by
    simp only [List.forall_mem_cons]
    exact ⟨⟨by decide, by decide +kernel⟩, display, type_word, key_word, List.forall_mem_nil _⟩
  have shape : cookieLine x type key =
      [blank].intercalate [ascii "add", authDisplay x.DISPLAY, type, key] ++ [newline] := by
    have add : ascii "add " = ascii "add" ++ [blank] := rfl
    simp [cookieLine, add, List.intercalate, List.intersperse]
  rw [shape, words_append_cons _ [] rfl, words_intercalate isspace_blank each, words_nil,
    List.append_nil]

structure Forwards (b : Build) (sys : System) (x : XSession) (v : Params) (c : Credentials) :
    Prop where
  becomes : ∃ pw, Becomes b sys v c pw
  able : CanAdd sys
  shown : x.DISPLAY ≠ ascii "no"

section

variable {x : XSession} {PATH : Bytes} {getpid : Int} {p : StubProcess}

theorem asks_iff : Asks (sent (around x PATH getpid) p) ↔
    x.DISPLAY ≠ ascii "no" ∧ ∃ type key, Listed x type key := by
  have display := getXCookie_display x
  have shown (set : x.DISPLAY ≠ []) : (sent (around x PATH getpid) p).display = x.DISPLAY := by
    rw [if_neg set] at display
    exact display
  rcases getXCookie_displayAuth x with ⟨type, key, listed, auth⟩ | ⟨never, auth⟩
  · have solid : (sent (around x PATH getpid) p).display_auth ≠ [] := by
      simp [sent, around, auth]
    rw [Asks, shown listed.display]
    exact ⟨fun asks => ⟨asks.1, type, key, listed⟩, fun both => ⟨both.1, solid⟩⟩
  · exact ⟨fun asks => absurd auth asks.2, fun both => absurd both.2 never⟩

theorem addLine_sent {type key : Bytes} (listed : Listed x type key) :
    addLine (sent (around x PATH getpid) p) = cookieLine x type key := by
  have display := getXCookie_display x
  rw [if_neg listed.display] at display
  rcases getXCookie_displayAuth x with ⟨type', key', listed', auth⟩ | ⟨never, auth⟩
  · obtain ⟨rfl, rfl⟩ := listed.unique listed'
    rw [addLine, cookieLine]
    simp only [sent, around, display, auth]
  · exact absurd ⟨type, key, listed⟩ never

theorem cookie_added {b : Build} {sys : System} {c : Credentials} {umask : Nat}
    {environ : List Bytes} {ended : Ended} (whole : Whole (around x PATH getpid) p)
    (run : serve b sys (around x PATH getpid) p c umask environ = some ended) :
    (∀ type key, Listed x type key →
      Forwards b sys x (sent (around x PATH getpid) p) c →
        fed ended.stub.started = [(xauthCommand, cookieLine x type key)]) ∧
    (¬((∃ type key, Listed x type key) ∧ Forwards b sys x (sent (around x PATH getpid) p) c) →
      fed ended.stub.started = []) := by
  rw [serve, startup_of_whole whole] at run
  obtain rfl := Option.some.inj run
  rcases fed_main b sys (sent (around x PATH getpid) p) c umask (putAll equals p.env environ) with
    ⟨becomes, asks, able, given⟩ | ⟨never, given⟩
  · refine ⟨fun type key listed _ => ?_, fun other => ?_⟩
    · rw [given, addLine_sent listed]
    · obtain ⟨shown, some_listed⟩ := asks_iff.mp asks
      exact absurd ⟨some_listed, becomes, able, shown⟩ other
  · refine ⟨fun type key listed forwards => ?_, fun _ => given⟩
    exact absurd ⟨forwards.becomes, asks_iff.mpr ⟨forwards.shown, type, key, listed⟩,
      forwards.able⟩ never

end

/-- The cookie that xauth lists for the display of the caller is what xauth adds for this display in
the session of the target user: the stub gives it to this program alone, on one line, and gives no
program anything where none is listed or the display cannot be set up. -/
theorem cookie_forwarded (b : Build) (sys : System) (x : XSession) (PATH : Bytes) (getpid : Int)
    (p : StubProcess) (c : Credentials) (umask : Nat) (environ : List Bytes) (ended : Ended)
    (whole : Whole (around x PATH getpid) p)
    (run : serve b sys (around x PATH getpid) p c umask environ = some ended) :
    (∀ type key, Listed x type key →
      Forwards b sys x (sent (around x PATH getpid) p) c →
        fed ended.stub.started = [(xauthCommand, cookieLine x type key)] ∧
        ((∀ d ∈ x.DISPLAY, isspace d = false) → words isspace (cookieLine x type key) =
          [ascii "add", authDisplay x.DISPLAY, type, key])) ∧
    (¬((∃ type key, Listed x type key) ∧ Forwards b sys x (sent (around x PATH getpid) p) c) →
      fed ended.stub.started = []) :=
  ⟨fun type key listed forwards =>
      ⟨(cookie_added whole run).1 type key listed forwards, words_cookieLine listed⟩,
    (cookie_added whole run).2⟩

def forwarded : XSession where
  DISPLAY := ascii "localhost:10.0"
  WAYLAND_DISPLAY := []
  xauth := some fun _ => ascii "ada/unix:10  MIT-MAGIC-COOKIE-1  00ff\n"

theorem listed_forwarded : Listed forwarded (ascii "MIT-MAGIC-COOKIE-1") (ascii "00ff") :=
  ⟨by decide, _, ascii "ada/unix:10", rfl, by decide +kernel⟩

theorem cookie_forwarded_remote :
    ∃ ended, serve linux obliging (around forwarded (ascii "/bin") 4711) editing ada 0o22 [] =
        some ended ∧
      fed ended.stub.started =
        [(xauthCommand, ascii "add :10.0 MIT-MAGIC-COOKIE-1 00ff\n")] := by
  have whole : Whole (around forwarded (ascii "/bin") 4711) editing :=
    { whole_editing with
      sendable :=
        { whole_editing.sendable with
          display := ⟨by decide +kernel, by decide +kernel, by decide +kernel⟩
          displayAuth := ⟨by decide +kernel, by decide +kernel, by decide +kernel⟩ } }
  obtain ⟨ended, run⟩ : ∃ ended, serve linux obliging (around forwarded (ascii "/bin") 4711)
      editing ada 0o22 [] = some ended := ⟨_, by rw [serve, startup_of_whole whole]; rfl⟩
  have forwards : Forwards linux obliging forwarded
      (sent (around forwarded (ascii "/bin") 4711) editing) ada :=
    ⟨⟨⟨ascii "root", 0, 0, ascii "/root"⟩, rfl, Or.inr ⟨rfl, fun _ => rfl, rfl⟩⟩,
      ⟨rfl, rfl⟩, by decide⟩
  exact ⟨ended, run, ((cookie_forwarded _ _ _ _ _ _ _ _ _ _ whole run).1 _ _ listed_forwarded
    forwards).1⟩

end KDESu.Stub.Cookies
