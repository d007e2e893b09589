/- KDESu/Stub/Scheduling
   source: src/kdesu_stub.c, src/suprocess.cpp, src/stubprocess.cpp
   digest: The scheduling of the command, and the account that su is asked for because of it. -/

import KDESu.Stub.Serving

set_option autoImplicit false
set_option relaxedAutoImplicit false

namespace KDESu.Stub.Scheduling

open KDESu.ByteArrays
open KDESu.Library.Environments
open KDESu.Process.Launching
open KDESu.Process.Conversing
open KDESu.Stub.Parameters
open KDESu.Stub.Running
open KDESu.Stub.Serving
open KDESu.Stub.Variables (obliging ada)

theorem atoi_setNum {n : Int} (least : 0 ≤ n) (most : n < 2 ^ 31) : atoi (setNum n) = n := by
  have digits : setNum n = decimal n.toNat := if_neg (by omega)
  have all := decimal_isdigit n.toNat
  have some_digit := decimal_ne_nil n.toNat
  have value := numeral_decimal n.toNat
  rw [digits]
  generalize decimal n.toNat = s at all some_digit value
  obtain ⟨c, rest, rfl⟩ := List.exists_cons_of_ne_nil some_digit
  have first := all c List.mem_cons_self
  have solid : isspace c = false := by
    by_contra space
    simp only [isspace, Bool.not_eq_false, Bool.or_eq_true, beq_iff_eq, Bool.and_eq_true,
      decide_eq_true_eq, UInt8.le_iff_toNat_le, ← UInt8.toNat_inj] at space
    simp only [isdigit, Bool.and_eq_true, decide_eq_true_eq, UInt8.le_iff_toNat_le] at first
    simp only [UInt8.reduceToNat] at first space
    omega
  have unsigned : c ≠ 45 ∧ c ≠ 43 := by
    constructor <;>
    · rintro rfl
      exact absurd first (by decide)
  have whole : (c :: rest).takeWhile isdigit = c :: rest := List.takeWhile_eq_self_iff.mpr all
  simp only [atoi, List.dropWhile_cons_of_neg (by simp [solid] : ¬isspace c = true)]
  split
  · rename_i same
    exact absurd (List.cons.inj same).1 unsigned.1
  · rename_i same
    exact absurd (List.cons.inj same).1 unsigned.2
  · simp only [Bool.false_eq_true, if_false, whole, value]
    omega

theorem scale_eq {prio range : Int} (least : 0 ≤ prio) (wide : 0 ≤ range) :
    scale prio range = (prio * range + 50) / 100 := by
  have sum : 0 ≤ prio * range + 50 := by positivity
  rw [scale, Int.tdiv_eq_ediv_of_nonneg sum]

theorem scale_bounds {prio range : Int} (least : 0 ≤ prio) (most : prio ≤ 100)
    (wide : 0 ≤ range) : 0 ≤ scale prio range ∧ scale prio range ≤ range := by
  have product : prio * range ≤ 100 * range := Int.mul_le_mul_of_nonneg_right most wide
  have sum : 0 ≤ prio * range := Int.mul_nonneg least wide
  rw [scale_eq least wide]
  omega

def scheduled (b : Build) (sys : System) (v : Params) : Scheduling :=
  (setScheduling b sys v (.begin ⟨0, 0, .inherited⟩ 0 [])).scheduling

theorem started_scheduling {b : Build} {sys : System} {v : Params} {c : Credentials}
    {umask : Nat} {environ : List Bytes} {q : Started}
    (started : q ∈ (main b sys v (.begin c umask environ)).stub.started) :
    q.scheduling = scheduled b sys v := by
  obtain ⟨pw, t, u, -, went, displayed, by_u⟩ := main_started started
  obtain ⟨-, -, -, kept, -⟩ := dropPrivileges_ok went
  rw [by_u.scheduling, (handleDisplay_ok displayed).same.2.2, kept]
  simp only [prepare, setScheduling, scheduled, setVariables, restoreLocale]
  cases getenv equals (ascii "KDESU_LC_ALL")
      (xsetenv (ascii "DESKTOP_STARTUP_ID") v.app_startup_id
        (xsetenv (ascii "PATH") v.path (.begin c umask environ))).environ <;>
    split_ifs <;> rfl

theorem scheduled_nice {b : Build} {sys : System} {v : Params} {n : Int}
    (nice : (scheduled b sys v).nice = some n) :
    v.scheduler ≠ ascii "realtime" ∧ n = 20 - scale (atoi v.priority) 40 := by
  simp only [scheduled, setScheduling] at nice
  split_ifs at nice with realtime
  all_goals cases nice
  exact ⟨realtime, rfl⟩

theorem scheduled_fifo {b : Build} {sys : System} {v : Params} {f : Int}
    (fifo : (scheduled b sys v).fifo = some f) :
    v.scheduler = ascii "realtime" ∧ f = sys.sched_get_priority_min +
      scale (atoi v.priority) (sys.sched_get_priority_max - sys.sched_get_priority_min) := by
  simp only [scheduled, setScheduling] at fifo
  split_ifs at fifo with realtime
  all_goals cases fifo
  exact ⟨realtime, rfl⟩

theorem sent_realtime {around : Surroundings} {p : StubProcess}
    (realtime : (sent around p).scheduler = ascii "realtime") : p.m_scheduler = SchedRealtime := by
  by_contra other
  have normal : (sent around p).scheduler = ascii "normal" := if_neg other
  exact absurd (normal.symm.trans realtime) (by decide)

theorem account_of_elevated {p : SuProcess}
    (elevated : p.stub.m_scheduler = SchedRealtime ∨ p.stub.m_priority > 50) :
    p.account = ascii "root" := by
  refine if_pos (elevated.imp_left fun realtime normal => ?_)
  exact absurd (realtime.symm.trans normal) (by decide)

/-- The nice value and the FIFO priority of all that is started for a SuProcess are in their
ranges, and su was asked for root whenever one of them takes root to set. -/
theorem privileged_scheduling_as_root {b : Build} {sys : System} {around : Surroundings}
    {p : SuProcess} {c : Credentials} {umask : Nat} {environ : List Bytes} {ended : Ended}
    {q : Started} (whole : Whole around p.stub)
    (served : serve b sys around p.stub c umask environ = some ended)
    (started : q ∈ ended.stub.started) :
    (∀ n, q.scheduling.nice = some n → -20 ≤ n ∧ n ≤ 20 ∧ (n < 0 → p.account = ascii "root")) ∧
    (∀ f, q.scheduling.fifo = some f → p.account = ascii "root" ∧
      (sys.sched_get_priority_min ≤ sys.sched_get_priority_max →
        sys.sched_get_priority_min ≤ f ∧ f ≤ sys.sched_get_priority_max)) := by
  obtain ⟨least, most⟩ := whole.kept
  have read : atoi (sent around p.stub).priority = p.stub.m_priority :=
    atoi_setNum least (by omega)
  rw [serve, startup_of_whole whole] at served
  cases served
  rw [started_scheduling started]
  constructor
  · intro n nice
    obtain ⟨-, rfl⟩ := scheduled_nice nice
    rw [read]
    obtain ⟨low, high⟩ := scale_bounds least most (by decide : (0 : Int) ≤ 40)
    refine ⟨by omega, by omega, fun negative => account_of_elevated (Or.inr ?_)⟩
    rw [scale_eq least (by decide)] at negative
    omega
  · intro f fifo
    obtain ⟨realtime, rfl⟩ := scheduled_fifo fifo
    rw [read]
    refine ⟨account_of_elevated (Or.inl (sent_realtime realtime)), fun ordered => ?_⟩
    obtain ⟨low, high⟩ := scale_bounds least most (Int.sub_nonneg.mpr ordered)
    omega

def raised : SuProcess := ⟨(editing.setUser (ascii "bob")).setPriority 80, .su⟩

theorem whole_raised : Whole surroundings raised.stub := by
  obtain ⟨-, ⟨display, displayAuth, command, -, -, startupId⟩, carriable, solid⟩ := whole_editing
  refine ⟨priorityKept_setPriority _ _, ⟨display, displayAuth, command, ?_, ?_, startupId⟩,
    carriable, solid⟩
  · exact ⟨by decide +kernel, by decide +kernel, by decide +kernel⟩
  · exact ⟨by decide +kernel, by decide +kernel, by decide +kernel⟩

theorem privileged_scheduling_as_root_raised : raised.account = ascii "root" := by
  have served : serve linux obliging surroundings raised.stub ada 0o22 [] =
      some (main linux obliging (sent surroundings raised.stub)
        (.begin ada 0o22 (putAll equals raised.stub.env []))) := by
    rw [serve, startup_of_whole whole_raised]
    rfl
  have becomes : Becomes linux obliging (sent surroundings raised.stub) ada
      ⟨ascii "root", 0, 0, ascii "/root"⟩ := ⟨rfl, Or.inr ⟨rfl, fun _ => rfl, rfl⟩⟩
  have able : Able obliging (sent surroundings raised.stub) :=
    ⟨fun _ => rfl, fun _ => rfl, rfl, rfl⟩
  obtain ⟨others, q, -, started, -⟩ := main_command becomes able 0o22
    (putAll equals raised.stub.env [])
  have member := List.mem_append_right others (List.mem_singleton.mpr (rfl : q = q))
  rw [← started] at member
  have nice : q.scheduling.nice = some (-12) := by
    rw [started_scheduling member]
    decide +kernel
  obtain ⟨of_nice, -⟩ := privileged_scheduling_as_root whole_raised served member
  exact (of_nice (-12) nice).2.2 (by decide)

end KDESu.Stub.Scheduling
