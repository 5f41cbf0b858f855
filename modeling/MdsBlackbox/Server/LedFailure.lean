/- module: MdsBlackbox/Server/LedFailure
   source: SERVER/rc_server/rc_server.c, SERVER/rc_server/pwm_app.c, SERVER/rc_server/th_led.c
   digest: The motor path one system call at a time, next to LED threads whose opens may fail. -/

import MdsBlackbox.Server.LedThreads

set_option autoImplicit false
set_option relaxedAutoImplicit false

namespace MdsBlackbox.Server.LedFailure

open MdsBlackbox.Lib.Transition
open MdsBlackbox.Server.PwmDev
open MdsBlackbox.Server.PwmApp
open MdsBlackbox.Server.CommandLoop
open MdsBlackbox.Server.Led
open MdsBlackbox.Server.LedThreads

abbrev MotorCall := UInt32 × Option PwmPulse

/-- Where the main thread is: before its read, in `moter_func` before the open, in it with the
ioctls that are left before the close, before `pthread_create`, or between a read or an open that
failed and the `exit` that answers it. -/
inductive MainThread
  | reading
  | opening (k : Int)
  | driving (calls : List MotorCall)
  | creating
  | exiting (why : Ending)
  deriving DecidableEq

structure Motion where
  main : MainThread
  server : Process
  threads : List LedThread
  led : LedDev
  deriving DecidableEq

def Motion.start (d : Motor) (l : LedDev) : Motion := ⟨.reading, .start d, [], l⟩

inductive MotionEvent
  | read (r : ReadResult)
  | openPwm (o : OpenResult)
  | pwmIoctl
  | closePwm
  | create
  | exitMain
  | openLed (i : Nat)
  | exitLed (i : Nat)
  | load (i : Nat)
  | ledIoctl (i : Nat)
  | timer
  deriving DecidableEq

/-- A step of the main thread or of LED thread `i` while the process lives; the open of thread `i`
fails when `fails i`. A thread whose call has failed goes on to its `exit`, and until it gets there
the other threads go on as well. -/
def processStep (fails : Nat → Bool) (s : Motion) : MotionEvent → Option Motion
  | .read r =>
    if s.main = .reading then
      match r with
      | .closed => some { s with main := .exiting .readFailed }
      | .error => some { s with main := .exiting .readFailed }
      | .data b =>
        match dispatch b with
        | none => some { s with main := .creating }
        | some (cmd, k) =>
          some { s with main := .opening k, server := { s.server with cmd := cmd } }
    else none
  | .openPwm o =>
    match s.main with
    | .opening k =>
      let r := openPwm s.server.dev o
      let p := { s.server with dev := r.1 }
      if r.2 then
        some { s with
          main := .driving (moterIoctls k)
          server := { p with pwmFds := p.pwmFds + 1 } }
      else some { s with main := .exiting .openFailed, server := p }
    | _ => none
  | .pwmIoctl =>
    match s.main with
    | .driving (c :: cs) =>
      some { s with
        main := .driving cs
        server := { s.server with dev := ioctl s.server.dev c.1 c.2 } }
    | _ => none
  | .closePwm =>
    if s.main = .driving [] then
      some { s with
        main := .creating
        server := { s.server with
          dev := pwmRelease s.server.dev
          pwmFds := s.server.pwmFds - 1 } }
    else none
  | .create =>
    if s.main = .creating then
      some { s with main := .reading, threads := s.threads ++ [.created] }
    else none
  | .exitMain =>
    match s.main with
    | .exiting why => some { s with server := s.server.exit why }
    | _ => none
  | .openLed i =>
    if s.threads[i]? = some .created then
      some { s with threads := s.threads.set i (if fails i then .failed else .opened) }
    else none
  | .exitLed i =>
    if s.threads[i]? = some .failed then some { s with server := s.server.exit .ledFailed }
    else none
  | .load i =>
    if s.threads[i]? = some .opened then
      some { s with threads := s.threads.set i (.loaded s.server.cmd) }
    else none
  | .ledIoctl i =>
    match s.threads[i]? with
    | some (.loaded v) =>
      some { s with threads := s.threads.set i .returned, led := s.led.ioctl (ledRequest v) }
    | _ => none
  | .timer => none

/-- The process takes a step, or the blink timer of the driver expires, with or without one. -/
def motionStep (fails : Nat → Bool) (s : Motion) : MotionEvent → Option Motion
  | .timer => some { s with led := kerneltimerTimeover s.led }
  | e => if s.server.ended = none then processStep fails s e else none

/-- The ioctl that the main thread sends to /dev/PWM next. -/
def MainThread.next : MainThread → List MotorCall
  | .driving (c :: _) => [c]
  | _ => []

def record (s : Motion) (e : MotionEvent) (sent : List MotorCall) : List MotorCall :=
  if e = .pwmIoctl then sent ++ s.main.next else sent

/-- All ioctls sent to /dev/PWM when the threads run in this order. -/
def sent (fails : Nat → Bool) (d : Motor) (l : LedDev) (es : List MotionEvent) : List MotorCall :=
  history (motionStep fails) record (.start d l) [] es

/-- The process is gone; only the blink timer of the driver goes on. -/
def Motion.Ended (s : Motion) : Prop := s.server.ended ≠ none

def noFailure : Nat → Bool := fun _ => false

/-- What becomes of a schedule when opens fail: a LED thread whose open has failed takes its next
step as well, but this is its exit and not its load of `cmd`. -/
def turn (fails : Nat → Bool) : MotionEvent → MotionEvent
  | .load i => if fails i then .exitLed i else .load i
  | e => e

/-- The step of a LED thread that has become its exit. -/
def fatal (fails : Nat → Bool) : MotionEvent → Bool
  | .load i => fails i
  | _ => false

/-! What a step can be. -/

inductive ProcessStep (fails : Nat → Bool) (s : Motion) : MotionEvent → Motion → Prop
  | readFailed (r : ReadResult) (hmain : s.main = .reading) (hr : ∀ b, r ≠ .data b) :
      ProcessStep fails s (.read r) { s with main := .exiting .readFailed }
  | readOther (b : UInt8) (hmain : s.main = .reading) (hd : dispatch b = none) :
      ProcessStep fails s (.read (.data b)) { s with main := .creating }
  | readCommand (b : UInt8) (cmd k : Int) (hmain : s.main = .reading)
      (hd : dispatch b = some (cmd, k)) : ProcessStep fails s (.read (.data b))
        { s with main := .opening k, server := { s.server with cmd := cmd } }
  | openGranted (o : OpenResult) (k : Int) (hmain : s.main = .opening k)
      (ho : (openPwm s.server.dev o).2 = true) : ProcessStep fails s (.openPwm o) { s with
        main := .driving (moterIoctls k)
        server := { s.server with
          dev := (openPwm s.server.dev o).1, pwmFds := s.server.pwmFds + 1 } }
  | openRefused (o : OpenResult) (k : Int) (hmain : s.main = .opening k)
      (ho : (openPwm s.server.dev o).2 = false) : ProcessStep fails s (.openPwm o) { s with
        main := .exiting .openFailed
        server := { s.server with dev := (openPwm s.server.dev o).1 } }
  | pwmIoctl (c : MotorCall) (cs : List MotorCall) (hmain : s.main = .driving (c :: cs)) :
      ProcessStep fails s .pwmIoctl { s with
        main := .driving cs
        server := { s.server with dev := ioctl s.server.dev c.1 c.2 } }
  | closePwm (hmain : s.main = .driving []) : ProcessStep fails s .closePwm { s with
        main := .creating
        server := { s.server with
          dev := pwmRelease s.server.dev, pwmFds := s.server.pwmFds - 1 } }
  | create (hmain : s.main = .creating) : ProcessStep fails s .create
      { s with main := .reading, threads := s.threads ++ [.created] }
  | exitMain (why : Ending) (hmain : s.main = .exiting why) :
      ProcessStep fails s .exitMain { s with server := s.server.exit why }
  | ledMissing (i : Nat) (hi : s.threads[i]? = some .created) (hf : fails i = true) :
      ProcessStep fails s (.openLed i) { s with threads := s.threads.set i .failed }
  | openLed (i : Nat) (hi : s.threads[i]? = some .created) (hf : fails i = false) :
      ProcessStep fails s (.openLed i) { s with threads := s.threads.set i .opened }
  | exitLed (i : Nat) (hi : s.threads[i]? = some .failed) :
      ProcessStep fails s (.exitLed i) { s with server := s.server.exit .ledFailed }
  | load (i : Nat) (hi : s.threads[i]? = some .opened) :
      ProcessStep fails s (.load i) { s with threads := s.threads.set i (.loaded s.server.cmd) }
  | ledIoctl (i : Nat) (v : Int) (hi : s.threads[i]? = some (.loaded v)) :
      ProcessStep fails s (.ledIoctl i) { s with
        threads := s.threads.set i .returned, led := s.led.ioctl (ledRequest v) }

theorem processStep_inv {fails : Nat → Bool} {s t : Motion} {e : MotionEvent}
    (hstep : processStep fails s e = some t) : ProcessStep fails s e t := by
  cases e with
  | read r =>
    simp only [processStep] at hstep
    split_ifs at hstep with hmain
    cases r with
    | closed =>
      obtain rfl := Option.some.inj hstep
      exact .readFailed _ hmain (fun _ hdata => by cases hdata)
    | error =>
      obtain rfl := Option.some.inj hstep
      exact .readFailed _ hmain (fun _ hdata => by cases hdata)
    | data b =>
      cases hd : dispatch b with
      | none =>
        simp only [hd, Option.some.injEq] at hstep
        subst hstep
        exact .readOther b hmain hd
      | some ck =>
        obtain ⟨cmd, k⟩ := ck
        simp only [hd, Option.some.injEq] at hstep
        subst hstep
        exact .readCommand b cmd k hmain hd
  | openPwm o =>
    simp only [processStep] at hstep
    split at hstep
    · rename_i k hmain
      split_ifs at hstep with ho <;> obtain rfl := Option.some.inj hstep
      · exact .openGranted o k hmain ho
      · exact .openRefused o k hmain (by simpa using ho)
    · cases hstep
  | pwmIoctl =>
    simp only [processStep] at hstep
    split at hstep
    · rename_i c cs hmain
      obtain rfl := Option.some.inj hstep
      exact .pwmIoctl c cs hmain
    · cases hstep
  | closePwm =>
    simp only [processStep] at hstep
    split_ifs at hstep with hmain
    obtain rfl := Option.some.inj hstep
    exact .closePwm hmain
  | create =>
    simp only [processStep] at hstep
    split_ifs at hstep with hmain
    obtain rfl := Option.some.inj hstep
    exact .create hmain
  | exitMain =>
    simp only [processStep] at hstep
    split at hstep
    · rename_i why hmain
      obtain rfl := Option.some.inj hstep
      exact .exitMain why hmain
    · cases hstep
  | openLed i =>
    simp only [processStep] at hstep
    split_ifs at hstep with hi hf <;> obtain rfl := Option.some.inj hstep
    · exact .ledMissing i hi hf
    · exact .openLed i hi (by simpa using hf)
  | exitLed i =>
    simp only [processStep] at hstep
    split_ifs at hstep with hi
    obtain rfl := Option.some.inj hstep
    exact .exitLed i hi
  | load i =>
    simp only [processStep] at hstep
    split_ifs at hstep with hi
    obtain rfl := Option.some.inj hstep
    exact .load i hi
  | ledIoctl i =>
    simp only [processStep] at hstep
    split at hstep
    · rename_i v hi
      obtain rfl := Option.some.inj hstep
      exact .ledIoctl i v hi
    · cases hstep
  | timer => cases hstep

theorem motionStep_inv {fails : Nat → Bool} {s t : Motion} {e : MotionEvent}
    (hstep : motionStep fails s e = some t) :
    (e = .timer ∧ t = { s with led := kerneltimerTimeover s.led }) ∨
      (s.server.ended = none ∧ ProcessStep fails s e t) := by
  cases e with
  | timer => exact Or.inl ⟨rfl, (Option.some.inj hstep).symm⟩
  | _ =>
    obtain ⟨hlive, hprocess⟩ := Option.ite_none_right_eq_some.mp hstep
    exact Or.inr ⟨hlive, processStep_inv hprocess⟩

/-! The passes of the command loop, when nothing interrupts them. -/

theorem drive_runs (fails : Nat → Bool) {s : Motion} (hlive : s.server.ended = none)
    {calls : List MotorCall} (hmain : s.main = .driving calls) :
    run (motionStep fails) s (List.replicate calls.length .pwmIoctl ++ [.closePwm]) =
      some { s with
        main := .creating
        server := { s.server with
          dev := pwmRelease (ioctls s.server.dev calls)
          pwmFds := s.server.pwmFds - 1 } } := by
  induction calls generalizing s with
  | nil => simp [run, motionStep, processStep, hlive, hmain, ioctls]
  | cons c cs ih =>
    rw [List.length_cons, List.replicate_succ, List.cons_append]
    refine run_cons_eq_some.mpr ⟨{ s with
      main := .driving cs
      server := { s.server with dev := ioctl s.server.dev c.1 c.2 } }, ?_, ?_⟩
    · simp [motionStep, processStep, hlive, hmain]
    · rw [ih (by exact hlive) rfl]
      rfl

theorem moter_runs {fails : Nat → Bool} {s : Motion} (hlive : s.server.ended = none) {k : Int}
    (hmain : s.main = .opening k) (o : OpenResult) :
    ∃ es t, run (motionStep fails) s es = some t ∧
      (if (moterFunc o s.server.dev k).2
        then some { s.server with dev := (moterFunc o s.server.dev k).1 }
        else some ({ s.server with dev := (moterFunc o s.server.dev k).1 }.exit .openFailed)) =
        some t.server ∧
      t.threads = s.threads ∧ t.led = s.led ∧ (t.server.ended = none → t.main = .creating) := by
  cases hopen : (openPwm s.server.dev o).2 with
  | false =>
    refine ⟨[.openPwm o, .exitMain], { s with
        main := .exiting .openFailed
        server := { s.server with dev := (openPwm s.server.dev o).1 }.exit .openFailed },
      ?_, ?_, rfl, rfl, ?_⟩
    · simp [run, motionStep, processStep, hlive, hmain, hopen]
    · simp [moterFunc, hopen]
    · simp [Process.exit]
  | true =>
    let granted : Motion := { s with
      main := .driving (moterIoctls k)
      server := { s.server with
        dev := (openPwm s.server.dev o).1, pwmFds := s.server.pwmFds + 1 } }
    have hgranted : motionStep fails s (.openPwm o) = some granted := by
      simp [motionStep, processStep, hlive, hmain, hopen, granted]
    have hdrive := drive_runs fails (s := granted) hlive rfl
    refine ⟨_, _, run_cons_eq_some.mpr ⟨granted, hgranted, hdrive⟩, ?_, rfl, rfl, fun _ => rfl⟩
    simp [moterFunc, hopen, granted]

theorem exit_runs (fails : Nat → Bool) {s : Motion} (hlive : s.server.ended = none)
    (hmain : s.main = .reading) {r : ReadResult} (hr : ∀ b, r ≠ .data b) :
    ∃ es t, run (motionStep fails) s es = some t ∧ t.server = s.server.exit .readFailed ∧
      t.threads = s.threads ∧ t.led = s.led := by
  refine ⟨[.read r, .exitMain],
    { s with main := .exiting .readFailed, server := s.server.exit .readFailed }, ?_, rfl, rfl, rfl⟩
  cases r with
  | data b => exact absurd rfl (hr b)
  | _ => simp [run, motionStep, processStep, hlive, hmain]

theorem pass_runs {fails : Nat → Bool} {s : Motion} (hmain : s.main = .reading) {p : Pass}
    {q : Process} (hstep : loopStep s.server p = some q) :
    ∃ es t, run (motionStep fails) s es = some t ∧ t.server = q ∧ t.threads = s.threads ∧
      t.led = s.led ∧ (q.ended = none → t.main = .creating) := by
  have hlive : s.server.ended = none := (loopStep_cases hstep).1
  obtain ⟨r, o⟩ := p
  rw [loopStep, if_neg (by simp [hlive])] at hstep
  cases r with
  | closed =>
    obtain rfl := Option.some.inj hstep
    obtain ⟨es, t, hrun, hserver, hthreads, hled⟩ :=
      exit_runs fails (r := .closed) hlive hmain fun _ hdata => by cases hdata
    exact ⟨es, t, hrun, hserver, hthreads, hled, fun hnone => by simp [Process.exit] at hnone⟩
  | error =>
    obtain rfl := Option.some.inj hstep
    obtain ⟨es, t, hrun, hserver, hthreads, hled⟩ :=
      exit_runs fails (r := .error) hlive hmain fun _ hdata => by cases hdata
    exact ⟨es, t, hrun, hserver, hthreads, hled, fun hnone => by simp [Process.exit] at hnone⟩
  | data b =>
    cases hd : dispatch b with
    | none =>
      simp only [hd, Option.some.injEq] at hstep
      subst hstep
      refine ⟨[.read (.data b)], { s with main := .creating }, ?_, rfl, rfl, rfl, fun _ => rfl⟩
      simp [run, motionStep, processStep, hlive, hmain, hd]
    | some ck =>
      obtain ⟨cmd, k⟩ := ck
      let called : Motion :=
        { s with main := .opening k, server := { s.server with cmd := cmd } }
      have hread : motionStep fails s (.read (.data b)) = some called := by
        simp [motionStep, processStep, hlive, hmain, hd, called]
      obtain ⟨es, t, hrun, hserver, hthreads, hled, hnext⟩ :=
        @moter_runs fails called hlive k rfl o
      simp only [hd] at hstep
      obtain rfl := Option.some.inj (hserver.symm.trans hstep)
      exact ⟨_, t, run_cons_eq_some.mpr ⟨called, hread, hrun⟩, rfl, hthreads, hled, hnext⟩

/-! The part of a schedule that a failure leaves. -/

/-- Where LED thread `i` is in the run with failures. -/
def setBack (fails : Nat → Bool) (i : Nat) (t : LedThread) : LedThread :=
  if fails i = true ∧ t = .opened then .failed else t

/-- The two runs up to the first exit of a LED thread. -/
def Beside (fails : Nat → Bool) (s t : Motion) : Prop :=
  t = { s with threads := s.threads.mapIdx (setBack fails) }

theorem setBack_eq_self {fails : Nat → Bool} {i : Nat} {t : LedThread} (h : t ≠ .opened) :
    setBack fails i t = t := if_neg fun hback => h hback.2

theorem getElem?_setBack (fails : Nat → Bool) {ts : List LedThread} {i : Nat} {t : LedThread}
    (hi : ts[i]? = some t) : (ts.mapIdx (setBack fails))[i]? = some (setBack fails i t) := by
  rw [List.getElem?_mapIdx, hi, Option.map_some]

theorem motionStep_live {fails : Nat → Bool} {s : Motion} (hlive : s.server.ended = none)
    {e : MotionEvent} (he : e ≠ .timer) : motionStep fails s e = processStep fails s e := by
  cases e with
  | timer => exact absurd rfl he
  | _ => exact if_pos hlive

theorem turn_ne_timer {fails : Nat → Bool} {e : MotionEvent} (he : e ≠ .timer) :
    turn fails e ≠ .timer := by
  cases e with
  | load i =>
    simp only [turn]
    split_ifs <;> simp
  | _ => exact he

theorem motionStep_agree {fails : Nat → Bool} (s r : Motion) (e : MotionEvent) (t : Motion)
    (hbeside : Beside fails s r) (h : fatal fails e = false)
    (hstep : motionStep noFailure s e = some t) :
    ∃ t', motionStep fails r (turn fails e) = some t' ∧ Beside fails t t' ∧
      ∀ sent, record r (turn fails e) sent = record s e sent := by
  obtain rfl := hbeside
  rcases motionStep_inv hstep with ⟨rfl, rfl⟩ | ⟨hlive, hprocess⟩
  · exact ⟨_, rfl, rfl, fun _ => rfl⟩
  have htimer : e ≠ .timer := by
    rintro rfl
    cases hprocess
  refine ⟨{ t with threads := t.threads.mapIdx (setBack fails) }, ?_, rfl, ?_⟩
  · refine (motionStep_live (by exact hlive) (turn_ne_timer htimer)).trans ?_
    cases hprocess with
    | readFailed r hmain hr =>
      cases r with
      | data b => exact absurd rfl (hr b)
      | _ => simp [turn, processStep, hmain]
    | readOther b hmain hd => simp [turn, processStep, hmain, hd]
    | readCommand b cmd k hmain hd => simp [turn, processStep, hmain, hd]
    | openGranted o k hmain ho => simp [turn, processStep, hmain, ho]
    | openRefused o k hmain ho => simp [turn, processStep, hmain, ho]
    | pwmIoctl c cs hmain => simp [turn, processStep, hmain]
    | closePwm hmain => simp [turn, processStep, hmain]
    | create hmain => simp [turn, processStep, hmain, setBack]
    | exitMain why hmain => simp [turn, processStep, hmain]
    | ledMissing i _ hf => cases hf
    | openLed i hi _ =>
      have hcreated := getElem?_setBack fails hi
      simp only [turn, processStep, hcreated, setBack_eq_self (by decide : LedThread.created ≠ _),
        List.mapIdx_set, if_true]
      simp [setBack]
    | exitLed i hi =>
      have hfailed := getElem?_setBack fails hi
      simp [turn, processStep, hfailed, setBack]
    | load i hi =>
      have hi' : fails i = false := h
      have hopened := getElem?_setBack fails hi
      simp [turn, processStep, hi', hopened, setBack, List.mapIdx_set]
    | ledIoctl i v hi =>
      have hloaded := getElem?_setBack fails hi
      simp [turn, processStep, hloaded, setBack, List.mapIdx_set]
  · intro sent
    cases e with
    | load i =>
      have hi' : fails i = false := h
      simp [turn, hi', record]
    | _ => rfl

theorem motionStep_fatal {fails : Nat → Bool} (s r : Motion) (e : MotionEvent) (t : Motion)
    (hbeside : Beside fails s r) (h : fatal fails e = true)
    (hstep : motionStep noFailure s e = some t) :
    ∃ t', motionStep fails r (turn fails e) = some t' ∧ t'.Ended ∧
      ∀ sent, record r (turn fails e) sent = sent := by
  obtain rfl := hbeside
  cases e with
  | load i =>
    have hi' : fails i = true := h
    rcases motionStep_inv hstep with ⟨hload, _⟩ | ⟨hlive, hprocess⟩
    · cases hload
    cases hprocess with
    | load i hi =>
      have hfailed : (s.threads.mapIdx (setBack fails))[i]? = some .failed := by
        rw [getElem?_setBack fails hi, setBack, if_pos ⟨hi', rfl⟩]
      refine ⟨{ s with
        threads := s.threads.mapIdx (setBack fails)
        server := s.server.exit .ledFailed }, ?_, ?_, fun _ => ?_⟩
      · refine (motionStep_live (by exact hlive) (turn_ne_timer (by simp))).trans ?_
        rw [turn, if_pos hi', processStep, if_pos hfailed]
      · simp [Motion.Ended, Process.exit]
      · simp [turn, hi', record]
  | _ => cases h

theorem motionStep_ended {fails : Nat → Bool} (s : Motion) (e : MotionEvent) (t : Motion)
    (sent : List MotorCall) (h : s.Ended) (hstep : motionStep fails s e = some t) :
    t.Ended ∧ record s e sent = sent := by
  cases e with
  | timer =>
    obtain rfl := Option.some.inj hstep
    exact ⟨h, rfl⟩
  | _ =>
    have hgone : ¬ s.server.ended = none := h
    simp [motionStep, hgone] at hstep

theorem length_sent {fails : Nat → Bool} {s t : Motion} (h : List MotorCall)
    {es : List MotionEvent} (hrun : run (motionStep fails) s es = some t) :
    (history (motionStep fails) record s h es).length = h.length + es.count .pwmIoctl := by
  induction es generalizing s h with
  | nil => rfl
  | cons e es ih =>
    obtain ⟨m, hm, hrest⟩ := run_cons_eq_some.mp hrun
    simp only [history, hm]
    rw [ih _ hrest, List.count_cons]
    rcases motionStep_inv hm with ⟨rfl, _⟩ | ⟨_, hprocess⟩
    · simp [record]
    · cases hprocess with
      | pwmIoctl c cs hmain =>
        simp only [record, hmain, MainThread.next, if_true, List.length_append,
          List.length_singleton, beq_self_eq_true]
        omega
      | _ => simp [record]

theorem sent_prefix {fails : Nat → Bool} (s : Motion) (h : List MotorCall)
    (es : List MotionEvent) : h <+: history (motionStep fails) record s h es := by
  induction es generalizing s h with
  | nil => exact List.prefix_refl h
  | cons e es ih =>
    have hrecord : h <+: record s e h := by
      unfold record
      split_ifs
      · exact List.prefix_append _ _
      · exact List.prefix_refl h
    cases he : motionStep fails s e with
    | none =>
      simp only [history, he]
      exact List.prefix_refl h
    | some t =>
      simp only [history, he]
      exact hrecord.trans (ih t _)

/-- In any schedule, the server sends what it would send without failures before the first exit of
a LED thread whose open has failed, which is all that it would send exactly when no ioctl comes
after that exit. -/
theorem sent_until_led_failure (fails : Nat → Bool) {d : Motor} {l : LedDev}
    {es : List MotionEvent} {s : Motion}
    (hrun : run (motionStep noFailure) (.start d l) es = some s) :
    sent fails d l (es.map (turn fails)) =
        sent noFailure d l (es.takeWhile fun e => !fatal fails e) ∧
      sent fails d l (es.map (turn fails)) <+: sent noFailure d l es ∧
      (sent fails d l (es.map (turn fails)) = sent noFailure d l es ↔
        MotionEvent.pwmIoctl ∉ es.dropWhile fun e => !fatal fails e) := by
  have hcut : sent fails d l (es.map (turn fails)) =
      sent noFailure d l (es.takeWhile fun e => !fatal fails e) :=
    history_fail_stop (R := Beside fails) motionStep_agree motionStep_fatal motionStep_ended rfl []
      hrun
  rw [hcut]
  generalize hpre : (es.takeWhile fun e => !fatal fails e) = pre
  generalize hpost : (es.dropWhile fun e => !fatal fails e) = post
  have hes : es = pre ++ post := by
    rw [← hpre, ← hpost, List.takeWhile_append_dropWhile]
  subst hes
  obtain ⟨m, hm, hrest⟩ := run_append_eq_some.mp hrun
  have hall : sent noFailure d l (pre ++ post) =
      history (motionStep noFailure) record m (sent noFailure d l pre) post := history_append hm
  have hprefix : sent noFailure d l pre <+: sent noFailure d l (pre ++ post) := by
    rw [hall]
    exact sent_prefix m _ post
  have hlength : (sent noFailure d l (pre ++ post)).length =
      (sent noFailure d l pre).length + post.count .pwmIoctl := by
    rw [hall]
    exact length_sent _ hrest
  refine ⟨rfl, hprefix, ?_⟩
  rw [← List.count_eq_zero]
  constructor
  · intro heq
    rw [← heq] at hlength
    omega
  · intro hzero
    exact hprefix.eq_of_length (by omega)

/-- Front, whose LED thread opens its device and goes on, and then stop. -/
def frontThenStop : List MotionEvent :=
  [.read (.data '1'.toUInt8), .openPwm .granted, .pwmIoctl, .pwmIoctl, .pwmIoctl, .closePwm,
    .create, .openLed 0, .load 0, .ledIoctl 0, .read (.data '5'.toUInt8), .openPwm .granted,
    .pwmIoctl, .closePwm, .create]

theorem sent_until_led_failure_stop :
    (sent (fun _ => true) (pwmInit Pins.low) ledInit
      (frontThenStop.map (turn fun _ => true))).map Prod.fst = [LEFTPWM, RIGHTPWM, FRONT] := by
  have hrun : ∃ s, run (motionStep noFailure) (.start (pwmInit Pins.low) ledInit) frontThenStop =
      some s := ⟨_, rfl⟩
  obtain ⟨s, hs⟩ := hrun
  rw [(sent_until_led_failure (fun _ => true) hs).1]
  decide

theorem led_failure_loses_stop : ¬ ∀ (fails : Nat → Bool) (es : List MotionEvent) (s : Motion),
    run (motionStep noFailure) (.start (pwmInit Pins.low) ledInit) es = some s →
      sent fails (pwmInit Pins.low) ledInit (es.map (turn fails)) =
        sent noFailure (pwmInit Pins.low) ledInit es := by
  intro h
  have hsame := h (fun _ => true) frontThenStop _ rfl
  exact absurd hsame (by decide)

end MdsBlackbox.Server.LedFailure
