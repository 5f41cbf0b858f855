/- module: MdsBlackbox/Server/LedThreads
   source: SERVER/rc_server/rc_server.c, SERVER/rc_server/th_led.c, SERVER/rc_server/led.c
   digest: The main loop and its LED threads, which share the variable `cmd`, in every schedule. -/

import MdsBlackbox.Server.CommandLoop
import MdsBlackbox.Server.Led

set_option autoImplicit false
set_option relaxedAutoImplicit false

namespace MdsBlackbox.Server.LedThreads

open MdsBlackbox.Lib.Transition
open MdsBlackbox.Server.PwmDev
open MdsBlackbox.Server.PwmApp
open MdsBlackbox.Server.CommandLoop
open MdsBlackbox.Server.Led

/-- Where a thread that runs `led_func` is: before its open, between an open that failed and the
`exit(-1)` that answers it, before its load of `cmd`, before the ioctl for the value that it has
loaded, or at its end. -/
inductive LedThread
  | created
  | failed
  | opened
  | loaded (v : Int)
  | returned
  deriving DecidableEq

/-- The process with its `cmd`, whether the main thread is between its switch and its
`pthread_create`, the threads created so far, and the LED driver. -/
structure Threads where
  server : Process
  creating : Bool
  threads : List LedThread
  led : LedDev
  deriving DecidableEq

def Threads.start (d : Motor) (l : LedDev) : Threads := ⟨.start d, false, [], l⟩

inductive ThreadEvent
  | pass (p : Pass)
  | create
  | openLed (i : Nat) (ok : Bool)
  | exitLed (i : Nat)
  | load (i : Nat)
  | ioctl (i : Nat)
  | timer
  deriving DecidableEq

/-- The main thread reads and switches, then creates a thread; every thread opens, loads and does
its ioctl; the blink timer expires. `pthread_create` succeeds, and nothing joins the threads. -/
def threadStep (s : Threads) : ThreadEvent → Option Threads
  | .pass p =>
    if s.creating then none
    else (loopStep s.server p).map fun q => { s with server := q, creating := q.ended.isNone }
  | .create =>
    if s.creating ∧ s.server.ended = none then
      some { s with creating := false, threads := s.threads ++ [.created] }
    else none
  | .openLed i ok =>
    if s.server.ended = none ∧ s.threads[i]? = some .created then
      some { s with threads := s.threads.set i (if ok then .opened else .failed) }
    else none
  | .exitLed i =>
    if s.server.ended = none ∧ s.threads[i]? = some .failed then
      some { s with server := s.server.exit .ledFailed }
    else none
  | .load i =>
    if s.server.ended = none ∧ s.threads[i]? = some .opened then
      some { s with threads := s.threads.set i (.loaded s.server.cmd) }
    else none
  | .ioctl i =>
    match s.threads[i]? with
    | some (.loaded v) =>
      if s.server.ended = none then
        some { s with threads := s.threads.set i .returned, led := s.led.ioctl (ledRequest v) }
      else none
    | _ => none
  | .timer => some { s with led := kerneltimerTimeover s.led }

/-- All LED threads created so far have finished. -/
def AllFinished (s : Threads) : Prop := s.server.ended = none ∧ ∀ t ∈ s.threads, t = .returned

def Selected (s : Threads) : Prop := AllFinished s → s.led.ledFlag = selectedFlag s.server.cmd

/-- As `Selected`, once there has been a thread and while the main thread waits in its read. -/
def SelectedAtRest (s : Threads) : Prop := s.threads ≠ [] → s.creating = false → Selected s

def Busy (s : Threads) : Prop := ∃ t ∈ s.threads, t ≠ .returned

def BusyBeside (s : Threads) (i : Nat) : Prop :=
  ∃ j t, j ≠ i ∧ s.threads[j]? = some t ∧ t ≠ .returned

/-- The last thread to reach its ioctl has loaded a value that selects what the current `cmd`
selects, unless the main thread is about to create another one. -/
def UpToDate (s : Threads) : ThreadEvent → Prop
  | .ioctl i => ∀ v, s.threads[i]? = some (.loaded v) →
      selectedFlag v = selectedFlag s.server.cmd ∨ s.creating = true ∨ BusyBeside s i
  | _ => True

/-- The same without that exception, and no pass selects another flag while all threads have
finished: between its switch and its `pthread_create` no thread stands for the new command. -/
def Steady (s : Threads) : ThreadEvent → Prop
  | .pass p => ∀ q, loopStep s.server p = some q → q.ended = none →
      selectedFlag q.cmd = selectedFlag s.server.cmd ∨ Busy s
  | .ioctl i => ∀ v, s.threads[i]? = some (.loaded v) →
      selectedFlag v = selectedFlag s.server.cmd ∨ BusyBeside s i
  | _ => True

/-! One step. -/

theorem not_allFinished_of_mem {s : Threads} {t : LedThread} (hmem : t ∈ s.threads)
    (hbusy : t ≠ .returned) : ¬ AllFinished s :=
  fun h => hbusy (h.2 t hmem)

theorem mem_set_of_getElem? {l : List LedThread} {i : Nat} {t u : LedThread}
    (h : l[i]? = some t) : u ∈ l.set i u :=
  List.mem_set ((List.getElem?_eq_some_iff.mp h).1) u

theorem all_returned_set_iff {s : Threads} {i : Nat} :
    (∀ t ∈ s.threads.set i .returned, t = .returned) ↔ ¬ BusyBeside s i := by
  constructor
  · rintro h ⟨j, t, hj, ht, hbusy⟩
    have hmem : t ∈ s.threads.set i .returned := by
      refine List.mem_of_getElem? (i := j) ?_
      rw [List.getElem?_set_ne (Ne.symm hj), ht]
    exact hbusy (h t hmem)
  · intro h t ht
    obtain ⟨j, hj⟩ := List.getElem?_of_mem ht
    rw [List.getElem?_set] at hj
    split_ifs at hj with hij hlt
    · exact (Option.some.inj hj).symm
    · by_contra hbusy
      exact h ⟨j, t, Ne.symm hij, hj, hbusy⟩

theorem threadStep_cases {s t : Threads} {e : ThreadEvent} (hstep : threadStep s e = some t) :
    (∃ p q, e = .pass p ∧ loopStep s.server p = some q ∧
      t = { s with server := q, creating := q.ended.isNone }) ∨
    (∃ i v, e = .ioctl i ∧ s.server.ended = none ∧ s.threads[i]? = some (.loaded v) ∧
      t = { s with threads := s.threads.set i .returned, led := s.led.ioctl (ledRequest v) }) ∨
    (e = .timer ∧ t = { s with led := kerneltimerTimeover s.led }) ∨
    (UpToDate s e ∧ Steady s e ∧ ¬ AllFinished t) := by
  cases e with
  | pass p =>
    simp only [threadStep] at hstep
    split_ifs at hstep
    obtain ⟨q, hq, rfl⟩ := Option.map_eq_some_iff.mp hstep
    exact Or.inl ⟨p, q, rfl, hq, rfl⟩
  | create =>
    simp only [threadStep] at hstep
    split_ifs at hstep
    obtain rfl := Option.some.inj hstep
    refine Or.inr (Or.inr (Or.inr ⟨trivial, trivial, ?_⟩))
    exact not_allFinished_of_mem (t := .created) (by simp) (by decide)
  | openLed i ok =>
    simp only [threadStep] at hstep
    obtain ⟨hcond, hstep⟩ := Option.ite_none_right_eq_some.mp hstep
    obtain rfl := Option.some.inj hstep
    refine Or.inr (Or.inr (Or.inr ⟨trivial, trivial, ?_⟩))
    exact not_allFinished_of_mem (mem_set_of_getElem? hcond.2) (by cases ok <;> decide)
  | exitLed i =>
    simp only [threadStep] at hstep
    split_ifs at hstep
    obtain rfl := Option.some.inj hstep
    refine Or.inr (Or.inr (Or.inr ⟨trivial, trivial, fun h => absurd h.1 ?_⟩))
    simp [Process.exit]
  | load i =>
    simp only [threadStep] at hstep
    split_ifs at hstep with hcond
    obtain rfl := Option.some.inj hstep
    refine Or.inr (Or.inr (Or.inr ⟨trivial, trivial, ?_⟩))
    exact not_allFinished_of_mem (mem_set_of_getElem? hcond.2) (by simp)
  | ioctl i =>
    simp only [threadStep] at hstep
    split at hstep
    · rename_i v hv
      split_ifs at hstep with hlive
      exact Or.inr (Or.inl ⟨i, v, rfl, hlive, hv, (Option.some.inj hstep).symm⟩)
    · cases hstep
  | timer =>
    obtain rfl := Option.some.inj hstep
    exact Or.inr (Or.inr (Or.inl ⟨rfl, rfl⟩))

theorem selected_ioctl_iff {s : Threads} {i : Nat} {v : Int} (hlive : s.server.ended = none) :
    Selected { s with threads := s.threads.set i .returned, led := s.led.ioctl (ledRequest v) } ↔
      selectedFlag v = selectedFlag s.server.cmd ∨ BusyBeside s i := by
  unfold Selected AllFinished
  rw [all_returned_set_iff, ioctl_ledFlag]
  constructor
  · intro h
    by_cases hbusy : BusyBeside s i
    · exact Or.inr hbusy
    · exact Or.inl (h ⟨hlive, hbusy⟩)
  · rintro h ⟨_, hidle⟩
    exact h.resolve_right hidle

theorem selected_timer {s : Threads} (hs : Selected s) :
    Selected { s with led := kerneltimerTimeover s.led } := by
  intro h
  rw [kerneltimerTimeover_ledFlag]
  exact hs h

theorem forall_loaded_iff {s : Threads} {i : Nat} {v : Int} {P : Int → Prop}
    (hv : s.threads[i]? = some (.loaded v)) :
    (∀ w, s.threads[i]? = some (.loaded w) → P w) ↔ P v := by
  constructor
  · exact fun h => h v hv
  · intro h w hw
    obtain rfl : v = w := LedThread.loaded.inj (Option.some.inj (hv.symm.trans hw))
    exact h

theorem selected_step_iff {s t : Threads} {e : ThreadEvent} (hs : Selected s)
    (hstep : threadStep s e = some t) : Selected t ↔ Steady s e := by
  rcases threadStep_cases hstep with
    ⟨p, q, rfl, hq, rfl⟩ | ⟨i, v, rfl, hlive, hv, rfl⟩ | ⟨rfl, rfl⟩ | ⟨_, hcond, hbusy⟩
  · have hlive : s.server.ended = none := (loopStep_cases hq).1
    constructor
    · intro h q' hq' hended
      obtain rfl : q = q' := Option.some.inj (hq.symm.trans hq')
      by_cases hidle : ∀ t ∈ s.threads, t = .returned
      · -- all threads have finished before the pass and after it, over the same flag
        left
        have hbefore := hs ⟨hlive, hidle⟩
        have hafter := h ⟨hended, hidle⟩
        exact hafter.symm.trans hbefore
      · right
        push Not at hidle
        exact hidle
    · rintro h ⟨hended, hidle⟩
      rcases h q hq hended with hsel | ⟨t, ht, hbusy⟩
      · exact (hs ⟨hlive, hidle⟩).trans hsel.symm
      · exact absurd (hidle t ht) hbusy
  · have hcond : Steady s (.ioctl i) ↔
        selectedFlag v = selectedFlag s.server.cmd ∨ BusyBeside s i := forall_loaded_iff hv
    rw [selected_ioctl_iff hlive, hcond]
  · exact iff_of_true (selected_timer hs) trivial
  · exact iff_of_true (fun h => absurd h hbusy) hcond

theorem selectedAtRest_step_iff {s t : Threads} {e : ThreadEvent} (hs : SelectedAtRest s)
    (hstep : threadStep s e = some t) : SelectedAtRest t ↔ UpToDate s e := by
  rcases threadStep_cases hstep with
    ⟨p, q, rfl, _, rfl⟩ | ⟨i, v, rfl, hlive, hv, rfl⟩ | ⟨rfl, rfl⟩ | ⟨hcond, _, hbusy⟩
  · -- after a pass the main thread is on its way to `pthread_create`, or the process is gone
    refine iff_of_true (fun _ hcreate h => ?_) trivial
    have hended : q.ended = none := h.1
    simp [hended] at hcreate
  · have hsome : s.threads.set i .returned ≠ [] := by
      intro h
      rw [List.set_eq_nil_iff] at h
      simp [h] at hv
    have hrest : SelectedAtRest
        { s with threads := s.threads.set i .returned, led := s.led.ioctl (ledRequest v) } ↔
          (s.creating = false →
            selectedFlag v = selectedFlag s.server.cmd ∨ BusyBeside s i) := by
      rw [← selected_ioctl_iff hlive]
      exact ⟨fun h => h hsome, fun h _ => h⟩
    have hcond : UpToDate s (.ioctl i) ↔
        selectedFlag v = selectedFlag s.server.cmd ∨ s.creating = true ∨ BusyBeside s i :=
      forall_loaded_iff hv
    rw [hrest, hcond]
    cases s.creating <;> simp
  · exact iff_of_true (fun hsome hcreate => selected_timer (hs hsome hcreate)) trivial
  · exact iff_of_true (fun _ _ h => absurd h hbusy) hcond

/-! Whole runs. -/

/-- In every state of a run without an unfinished thread the driver blinks for the current command
exactly when its flag was 1 at first and every step is steady. Once there has been a thread, and as
seen while the main thread waits, it does so exactly when no thread whose value is outdated is the
last to do its ioctl. -/
theorem selected_throughout_iff {d : Motor} {l : LedDev} {es : List ThreadEvent} {s : Threads}
    (hrun : run threadStep (.start d l) es = some s) :
    (Throughout threadStep Selected (.start d l) es ↔
      l.ledFlag = 1 ∧ EachStep threadStep Steady (.start d l) es) ∧
    (Throughout threadStep SelectedAtRest (.start d l) es ↔
      EachStep threadStep UpToDate (.start d l) es) := by
  have hfinished : AllFinished (.start d l) := ⟨rfl, by simp [Threads.start]⟩
  have hiff : l.ledFlag = 1 → (Throughout threadStep Selected (.start d l) es ↔
      EachStep threadStep Steady (.start d l) es) := fun hflag =>
    throughout_iff_eachStep (J := fun _ => True) trivial (fun _ => hflag)
      (fun _ _ _ _ _ => trivial) (fun _ _ _ _ hs he => selected_step_iff hs he) hrun
  constructor
  · constructor
    · intro h
      have hflag : l.ledFlag = 1 := h [] _ List.nil_prefix rfl hfinished
      exact ⟨hflag, (hiff hflag).mp h⟩
    · rintro ⟨hflag, h⟩
      exact (hiff hflag).mpr h
  · exact throughout_iff_eachStep (J := fun _ => True) trivial
      (fun h => absurd rfl h) (fun _ _ _ _ _ => trivial)
      (fun _ _ _ _ hs he => selectedAtRest_step_iff hs he) hrun

/-- The first thread loads 5 for a turn, and does its ioctl after the thread of a later command. -/
def staleThread : List ThreadEvent :=
  [.pass (received '3'.toUInt8), .create, .openLed 0 true, .load 0,
    .pass (received '1'.toUInt8), .create, .openLed 1 true, .load 1, .ioctl 1, .ioctl 0]

theorem staleThread_outdated :
    ¬ EachStep threadStep UpToDate (.start (pwmInit Pins.low) ledInit) staleThread := by
  intro h
  have hrun : ∃ s, run threadStep (.start (pwmInit Pins.low) ledInit) staleThread = some s :=
    ⟨_, rfl⟩
  obtain ⟨s, hs⟩ := hrun
  have hbad := (selected_throughout_iff hs).2.mpr h staleThread _ (List.prefix_refl _) rfl
    (by decide) rfl ⟨rfl, by decide⟩
  exact absurd hbad (by decide)

theorem selected_by_stale_thread : ¬ ∀ (es : List ThreadEvent) (s : Threads),
    run threadStep (.start (pwmInit Pins.low) { ledInit with ledFlag := 1 }) es = some s →
      s.creating = false → AllFinished s → s.led.ledFlag = selectedFlag s.server.cmd := by
  intro h
  have hbad := h staleThread _ rfl rfl ⟨rfl, by decide⟩
  exact absurd hbad (by decide)

end MdsBlackbox.Server.LedThreads
