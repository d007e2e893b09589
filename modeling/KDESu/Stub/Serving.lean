/- KDESu/Stub/Serving
   source: src/kdesu_stub.c, src/stubprocess.cpp, src/ptyprocess.cpp
   digest: From what a StubProcess was told to the command that kdesu_stub starts for it. -/

import KDESu.Process.Preparing
import KDESu.Stub.Variables

set_option autoImplicit false
set_option relaxedAutoImplicit false

namespace KDESu.Stub.Serving

open KDESu.ByteArrays
open KDESu.Library.Environments
open KDESu.Process.Launching
open KDESu.Process.Conversing
open KDESu.Process.Preparing (childEnviron solid OfSession getenv_childEnviron)
open KDESu.Stub.Parameters
open KDESu.Stub.Environment
open KDESu.Stub.Running
open KDESu.Stub.Variables

/-- What `main` has read when it says `end`, of what `converseStub(0)` answers: the parameters,
and the strings for `putenv`. -/
def startup (around : Surroundings) (p : StubProcess) : Option (Params × List Bytes) :=
  (paramLoop around p params .greeting []).bind fun (values, input) =>
    (Params.ofValues values).bind fun v =>
      (answer around p (ascii "environment")).bind fun written =>
        let input := input ++ written.flatten
        (environLoop (input.length + 1) input).map fun (vars, _) => (v, vars)

/-- The whole of `main`, started with these credentials, umask and environment. -/
def serve (b : Build) (sys : System) (around : Surroundings) (p : StubProcess) (c : Credentials)
    (umask : Nat) (environ : List Bytes) : Option Ended :=
  (startup around p).map fun (v, vars) => main b sys v (.begin c umask (putAll equals vars environ))

/-- The values as they stand on their lines: the command is quoted. -/
def sent (around : Surroundings) (p : StubProcess) : Params where
  kdesu_stub := ascii "ok"
  display := around.display
  display_auth := around.displayAuth
  command := p.m_command.flatMap quoteByte
  path := stubPath around p
  xwindows_only := if p.m_XOnly then ascii "no" else ascii "yes"
  user := p.m_user
  priority := setNum p.m_priority
  scheduler := if p.m_scheduler = SchedRealtime then ascii "realtime" else ascii "normal"
  app_startup_id := startupId p.env

/-- What the strings of a process need to reach the stub. -/
structure Whole (around : Surroundings) (p : StubProcess) : Prop where
  kept : PriorityKept p
  sendable : Sendable around p
  carriable : ∀ s ∈ p.env, Carriable s
  solid : [] ∉ p.env

theorem paramLoop_of_fits (around : Surroundings) (p : StubProcess) {names values : List Bytes}
    (answered : List.Forall₂ (fun name value => name ≠ ascii "kdesu_stub" ∧
      answer around p name = some (writeLine value) ∧ Fits (BUFSIZE - 2) value) names values) :
    paramLoop around p names .serving [] = some (values, []) := by
  induction answered with
  | nil => rfl
  | cons first later ih =>
    obtain ⟨other, written, fits⟩ := first
    simp only [paramLoop, hearStub, written, List.nil_append, writeLine_flatten]
    rw [readParam_of_fits fits, Option.bind_some, if_neg fun both => other both.1, ih]
    rfl

theorem length_le_quoted (s : Bytes) : s.length ≤ (s.flatMap quoteByte).length := by
  induction s with
  | nil => exact Nat.zero_le _
  | cons c s ih =>
    have one : 1 ≤ (quoteByte c).length := by
      simp only [quoteByte]
      split_ifs <;> simp
    rw [List.flatMap_cons, List.length_append, List.length_cons]
    omega

theorem startupId_short {env : List Bytes} (carriable : ∀ s ∈ env, Carriable s) :
    (startupId env).length ≤ BUFSIZE - 2 := by
  have size : BUFSIZE = 8192 := rfl
  have folded : ∀ tmp : Bytes, tmp.length ≤ BUFSIZE - 2 →
      (env.foldl (fun tmp var =>
        if ascii "DESKTOP_STARTUP_ID=" <+: var then var.drop 19 else tmp) tmp).length ≤
          BUFSIZE - 2 := by
    induction env with
    | nil => exact fun tmp short => short
    | cons s env ih =>
      intro tmp short
      refine ih (fun t member => carriable t (List.mem_cons_of_mem s member)) _ ?_
      simp only
      split_ifs
      · have fits := (carriable s List.mem_cons_self).fits
        have least := length_le_quoted s
        rw [List.length_drop]
        omega
      · exact short
  simp only [startupId]
  split_ifs
  · exact Nat.le_of_ble_eq_true rfl
  · exact folded [] (Nat.zero_le _)

theorem startup_of_whole {around : Surroundings} {p : StubProcess} (whole : Whole around p) :
    startup around p = some (sent around p, p.env) := by
  have ⟨kept, sendable, carriable, solid⟩ := whole
  have id_fits : Fits (BUFSIZE - 2) (startupId p.env) :=
    ⟨sendable.startupId.noNul, sendable.startupId.noNewline, startupId_short carriable⟩
  have later : paramLoop around p params.tail .serving [] =
      some ([around.display, around.displayAuth, p.m_command.flatMap quoteByte, stubPath around p,
        if p.m_XOnly then ascii "no" else ascii "yes", p.m_user, setNum p.m_priority,
        if p.m_scheduler = SchedRealtime then ascii "realtime" else ascii "normal",
        startupId p.env], []) := by
    apply paramLoop_of_fits
    refine .cons ⟨by decide, rfl, sendable.display⟩ <|
      .cons ⟨by decide, rfl, sendable.displayAuth⟩ <|
      .cons ⟨by decide, rfl, fits_quoted sendable.command.2⟩ <|
      .cons ⟨by decide, rfl, sendable.path⟩ <|
      .cons ⟨by decide, rfl, fits_xwindows p.m_XOnly⟩ <|
      .cons ⟨by decide, rfl, sendable.user⟩ <|
      .cons ⟨by decide, rfl, fits_priority kept⟩ <|
      .cons ⟨by decide, rfl, fits_scheduler p.m_scheduler⟩ <|
      .cons ⟨by decide, rfl, id_fits⟩ .nil
  have header : paramLoop around p params .greeting [] =
      (paramLoop around p params.tail .serving []).map fun (values, input) =>
        (ascii "ok" :: values, input) := rfl
  obtain ⟨written, answered, flat⟩ := answer_environment around p
  have enough : p.env.length < (listing p.env).length + 1 :=
    (length_lt_listing p.env).trans (Nat.lt_succ_self _)
  obtain ⟨left, loop, -⟩ := environLoop_listing carriable enough
  have all : p.env.takeWhile (· ≠ []) = p.env := by
    rw [List.takeWhile_eq_self_iff]
    exact fun s member => decide_eq_true fun empty => solid (empty ▸ member)
  rw [startup, header, later, Option.map_some, Option.bind_some]
  simp only [Params.ofValues, Option.bind_some, answered, List.nil_append, flat, loop, all,
    Option.map_some]
  rfl

theorem dequoteBuf_quoted {s : Bytes} (noNul : (0 : UInt8) ∉ s) :
    dequoteBuf (s.flatMap quoteByte) = s := by
  have plain : (0 : UInt8) ∉ s.flatMap quoteByte := fun member =>
    absurd (quoted_plain s member) (by decide)
  rw [dequoteBuf, (constData_eq_iff _).mpr plain, dequote_quoted]
  exact (constData_eq_iff s).mpr noNul

/-- Where everything can reach the stub, the user can be had and the calls succeed, the stub starts
the command of the process, byte for byte, once and last, with the credentials of its user. -/
theorem command_started {b : Build} {sys : System} {around : Surroundings} {p : StubProcess}
    {c : Credentials} {umask : Nat} {environ : List Bytes} {pw : Passwd}
    (whole : Whole around p) (becomes : Becomes b sys (sent around p) c pw)
    (able : Able sys (sent around p)) :
    ∃ ended others q, serve b sys around p c umask environ = some ended ∧
      ended.stub.started = others ++ [q] ∧ Background others ∧ q.session = true ∧
      q.command = p.m_command ∧ q.input = [] ∧ q.credentials = dropped b pw c ∧
      q.umask = umask := by
  have read := startup_of_whole whole
  obtain ⟨others, q, background, started, command, input, session⟩ :=
    main_command becomes able umask (putAll equals p.env environ)
  have member : q ∈ (main b sys (sent around p)
      (.begin c umask (putAll equals p.env environ))).stub.started := by simp [started]
  obtain ⟨same, other, becomes', credentials⟩ := started_credentials member
  obtain rfl : pw = other := Option.some.inj (becomes.1.symm.trans becomes'.1)
  refine ⟨_, others, q, by rw [serve, read]; rfl, started, background, session, ?_, input,
    credentials, same⟩
  rw [command]
  exact dequoteBuf_quoted whole.sendable.command.1

def editing : StubProcess := (StubProcess.new.setCommand (ascii "vi x")).setEnvironment
  [ascii "EDITOR=vi", ascii "DESKTOP_STARTUP_ID=a1"]

theorem whole_editing : Whole surroundings editing where
  kept := priorityKept_new
  sendable :=
    { display := ⟨by decide +kernel, by decide +kernel, by decide +kernel⟩
      displayAuth := ⟨by decide +kernel, by decide +kernel, by decide +kernel⟩
      command := ⟨by decide +kernel, by decide +kernel⟩
      path := ⟨by decide +kernel, by decide +kernel, by decide +kernel⟩
      user := ⟨by decide +kernel, by decide +kernel, by decide +kernel⟩
      startupId := ⟨by decide +kernel, by decide +kernel, by decide +kernel⟩ }
  carriable := by
    intro s member
    rcases List.mem_cons.mp member with rfl | later
    · exact ⟨by decide +kernel, by decide +kernel⟩
    · obtain rfl := List.mem_singleton.mp later
      exact ⟨by decide +kernel, by decide +kernel⟩
  solid := by decide

def linux : Build := ⟨true, true, false⟩

theorem becomes_root :
    Becomes linux obliging (sent surroundings editing) ada ⟨ascii "root", 0, 0, ascii "/root"⟩ :=
  ⟨rfl, Or.inr ⟨rfl, fun _ => rfl, rfl⟩⟩

theorem able_editing : Able obliging (sent surroundings editing) :=
  ⟨fun _ => rfl, fun _ => rfl, rfl, rfl⟩

example : ∃ ended others q,
    serve linux obliging surroundings editing ada 0o22 [] = some ended ∧
      ended.stub.started = others ++ [q] ∧ Background others ∧ q.session = true ∧
      q.command = editing.m_command ∧ q.input = [] ∧
      q.credentials = dropped linux ⟨ascii "root", 0, 0, ascii "/root"⟩ ada ∧ q.umask = 0o22 :=
  command_started whole_editing becomes_root able_editing

theorem getenv_putAll {name : Bytes} (is_name : IsName equals name) (vars environ : List Bytes) :
    getenv equals name (putAll equals vars environ) =
      (lastBinding equals vars ⟨name, is_name⟩).getD (getenv equals name environ) :=
  lookup_putAll equals vars environ ⟨name, is_name⟩

/-- The variables that the two programs set or take away themselves. -/
def Own (name : Bytes) : Prop :=
  name ∈ ["PATH", "DESKTOP_STARTUP_ID", "LC_ALL", "KDESU_LC_ALL", "XDG_RUNTIME_DIR", "HOME",
    "DISPLAY", "XAUTHORITY"].map ascii ∨ OfSession name

/-- What stands between `exec` and the stub hands a variable over as it is. -/
def HandsOver (su : List Bytes → List Bytes) (environ : List Bytes) (name : Bytes) : Prop :=
  getenv equals name (su environ) = getenv equals name environ

theorem wanted_of_foreign {name : Bytes} (foreign : ¬Own name) (sys : System) (v : Params)
    (pw : Passwd) (environ : List Bytes) :
    wanted sys v pw environ name = getenv equals name environ := by
  obtain ⟨own, session⟩ := not_or.mp foreign
  simp only [List.map_cons, List.map_nil, List.mem_cons, List.not_mem_nil, or_false, not_or]
    at own
  obtain ⟨path, id, locale, -, runtime, home, display, xauthority⟩ := own
  have bus : name ≠ ascii "DBUS_SESSION_BUS_ADDRESS" := fun same => session (Or.inl same)
  simp only [wanted, path, id, locale, runtime, home, display, xauthority, bus, false_and,
    or_self, if_false]

section

variable {b : Build} {sys : System} {around : Surroundings} {p : StubProcess} {c : Credentials}
variable {umask : Nat} {environ : List Bytes} {su : List Bytes → List Bytes} {ended : Ended}
variable {q : Started}

theorem constData_env (whole : Whole around p) : p.env.map constData = p.env := by
  refine (List.map_congr_left fun s member => ?_).trans (List.map_id _)
  exact (constData_eq_iff s).mpr (whole.carriable s member).noNul

theorem foreign_variable (whole : Whole around p)
    (served : serve b sys around p c umask (su (childEnviron p.env environ)) = some ended)
    (started : q ∈ ended.stub.started) {name : Bytes} (is_name : IsName equals name)
    (foreign : ¬Own name) (handed : HandsOver su (childEnviron p.env environ) name) :
    getenv equals name q.environ = getenv equals name (putAll equals p.env environ) := by
  rw [serve, startup_of_whole whole] at served
  cases served
  obtain ⟨pw, -, each⟩ := started_getenv started
  obtain ⟨own, session⟩ := not_or.mp foreign
  have locale : name ≠ ascii "LC_ALL" := by
    rintro rfl
    exact own (by decide)
  have stash : name ≠ ascii "KDESU_LC_ALL" := by
    rintro rfl
    exact own (by decide)
  rw [each name is_name.free, wanted_of_foreign foreign, getenv_putAll is_name, handed,
    getenv_childEnviron is_name.free, constData_env whole, if_neg locale, if_neg stash,
    if_neg session, getenv_putAll is_name]
  cases lastBinding equals p.env ⟨name, is_name⟩ <;> rfl

theorem locale_restored (whole : Whole around p)
    (served : serve b sys around p c umask (su (childEnviron p.env environ)) = some ended)
    (started : q ∈ ended.stub.started)
    (handed : HandsOver su (childEnviron p.env environ) (ascii "KDESU_LC_ALL"))
    (unbound : lastBinding equals p.env ⟨ascii "KDESU_LC_ALL", by decide⟩ = none) :
    getenv equals (ascii "LC_ALL") (childEnviron p.env environ) = some (ascii "C") ∧
      getenv equals (ascii "LC_ALL") q.environ =
        solid (getenv equals (ascii "LC_ALL") (putAll equals p.env environ)) := by
  rw [serve, startup_of_whole whole] at served
  cases served
  obtain ⟨pw, -, each⟩ := started_getenv started
  have plain : equals ∉ ascii "LC_ALL" := by decide
  have stash : IsName equals (ascii "KDESU_LC_ALL") := by decide
  refine ⟨(getenv_childEnviron plain p.env environ).trans (if_pos rfl), ?_⟩
  have restored : wanted sys (sent around p) pw
      (putAll equals p.env (su (childEnviron p.env environ))) (ascii "LC_ALL") =
        getenv equals (ascii "KDESU_LC_ALL")
          (putAll equals p.env (su (childEnviron p.env environ))) := rfl
  rw [each _ plain, restored, getenv_putAll stash, unbound, Option.getD_none, handed,
    getenv_childEnviron stash.free, constData_env whole, if_neg (by decide), if_pos rfl]

end

end KDESu.Stub.Serving
