/- module: MdsBlackbox/Server/BoardSteps
   source: SERVER/rc_server/rc_server.c, SERVER/rc_server/th_ultra.c, SERVER/nfsroot/etc/inittab
   digest: The server process, its restarts, and the drivers that stay loaded meanwhile. -/

import MdsBlackbox.Server.LedFailure
import MdsBlackbox.Server.TriggerTimer

set_option autoImplicit false
set_option relaxedAutoImplicit false

namespace MdsBlackbox.Server.BoardSteps

open MdsBlackbox.Lib.Transition
open MdsBlackbox.Server.PwmDev
open MdsBlackbox.Server.PwmApp
open MdsBlackbox.Server.CommandLoop
open MdsBlackbox.Server.Led
open MdsBlackbox.Server.LedThreads
open MdsBlackbox.Server.LedFailure
open MdsBlackbox.Server.TriggerTimer

/-- What `main` comes to before its loop: a call that fails, each of which it answers with
`exit(1)`, or a client and the thread of the sensor. The result of `listen` is not looked at. -/
inductive StartUp
  | socketFailed
  | bindFailed
  | acceptFailed
  | threadFailed
  | connected
  deriving DecidableEq

inductive Stage
  | starting
  | serving
  | gone
  deriving DecidableEq

/-- `ultra_func`: before its open, between an open that failed and the `exit(-1)` that answers it,
and in its loop, where it holds the device open. -/
inductive UltraThread
  | absent
  | created
  | failed
  | reading
  deriving DecidableEq

structure Board where
  stage : Stage
  motion : Motion
  ultra : UltraThread
  sensor : Timers
  deriving DecidableEq

/-- The drivers have been inserted, and `exec` has started the server. -/
def Board.boot (pins : Pins) (l : LedDev) : Board :=
  ⟨.starting, .start (pwmInit pins) l, .absent, .insmod⟩

inductive BoardEvent
  | startUp (r : StartUp)
  | motion (e : MotionEvent)
  | openSensor (kmalloc irq : Bool)
  | exitSensor
  | brokenPipe
  | expire (b : Nat)
  | respawn
  deriving DecidableEq

/-- The process is gone, and the kernel has closed what it had open of the sensor. The releases of
the drivers run at once: the child that `system` forks for `ffmpeg` is taken to have been forked
while no device was open, so that it holds none of these files. -/
def Board.leave (s : Board) : Board :=
  { s with
    stage := .gone
    ultra := .absent
    sensor := if s.ultra = .reading then
        { ultrasonicRelease s.sensor with opens := s.sensor.opens - 1 }
      else s.sensor }

/-- The process ends in the thread of the sensor: the motor descriptors are closed as well. -/
def Board.ultraExit (s : Board) : Board :=
  { s with motion := { s.motion with server := { s.motion.server with
      dev := pwmRelease^[s.motion.server.pwmFds] s.motion.server.dev
      pwmFds := 0 } } }.leave

/-- The LED threads find their device only where its driver has been inserted. -/
def ledFails (hasLed : Bool) : Nat → Bool := fun _ => !hasLed

def motionEvent (hasLed : Bool) (s : Board) (e : MotionEvent) : Option Board :=
  (motionStep (ledFails hasLed) s.motion e).map fun m =>
    let t := { s with motion := m }
    if m.server.ended.isSome then t.leave else t

/-- One step of the board: the process starts up, one of its threads goes on, a timer of a driver
expires, or `init` starts the server again. -/
def boardStep (hasLed : Bool) (s : Board) : BoardEvent → Option Board
  | .startUp r =>
    if s.stage = .starting then
      match r with
      | .connected => some { s with stage := .serving, ultra := .created }
      | .socketFailed | .bindFailed | .acceptFailed | .threadFailed => some s.leave
    else none
  | .motion .timer =>
    if hasLed then
      some { s with motion := { s.motion with led := Led.kerneltimerTimeover s.motion.led } }
    else none
  | .motion e => if s.stage = .serving then motionEvent hasLed s e else none
  | .openSensor kmalloc irq =>
    if s.stage = .serving ∧ s.ultra = .created then
      (timerStep s.sensor (.openDevice kmalloc irq)).map fun u =>
        if u.faulted then { s with ultra := .absent, sensor := u }
        else if s.sensor.opens < u.opens then { s with ultra := .reading, sensor := u }
        else { s with ultra := .failed, sensor := u }
    else none
  | .exitSensor => if s.stage = .serving ∧ s.ultra = .failed then some s.ultraExit else none
  -- the client is gone, and the signal of the `write` in `ultra_func` ends the process
  | .brokenPipe => if s.stage = .serving ∧ s.ultra = .reading then some s.ultraExit else none
  | .expire b => (timerStep s.sensor (.expire b)).map fun u => { s with sensor := u }
  | .respawn =>
    if s.stage = .gone then
      some { s with stage := .starting, motion := .start s.motion.server.dev s.motion.led }
    else none

/-! What a step can be. -/

inductive BoardStep (hasLed : Bool) (s : Board) : BoardEvent → Board → Prop
  | connect (hstage : s.stage = .starting) :
      BoardStep hasLed s (.startUp .connected) { s with stage := .serving, ultra := .created }
  | refuse (r : StartUp) (hstage : s.stage = .starting) (hr : r ≠ .connected) :
      BoardStep hasLed s (.startUp r) s.leave
  | timer (hled : hasLed = true) : BoardStep hasLed s (.motion .timer)
      { s with motion := { s.motion with led := Led.kerneltimerTimeover s.motion.led } }
  | motion (e : MotionEvent) (m : Motion) (hstage : s.stage = .serving)
      (hm : ProcessStep (ledFails hasLed) s.motion e m) (hlive : m.server.ended = none) :
      BoardStep hasLed s (.motion e) { s with motion := m }
  | exit (e : MotionEvent) (m : Motion) (hstage : s.stage = .serving)
      (hm : ProcessStep (ledFails hasLed) s.motion e m) (hended : m.server.ended ≠ none) :
      BoardStep hasLed s (.motion e) { s with motion := m }.leave
  | openFault (kmalloc irq : Bool) (u : Timers) (hstage : s.stage = .serving)
      (hultra : s.ultra = .created) (hu : timerStep s.sensor (.openDevice kmalloc irq) = some u)
      (hfault : u.faulted = true) :
      BoardStep hasLed s (.openSensor kmalloc irq) { s with ultra := .absent, sensor := u }
  | openSensor (kmalloc irq : Bool) (u : Timers) (hstage : s.stage = .serving)
      (hultra : s.ultra = .created) (hu : timerStep s.sensor (.openDevice kmalloc irq) = some u)
      (hfine : u.faulted = false) (hmore : s.sensor.opens < u.opens) :
      BoardStep hasLed s (.openSensor kmalloc irq) { s with ultra := .reading, sensor := u }
  | openFailed (kmalloc irq : Bool) (u : Timers) (hstage : s.stage = .serving)
      (hultra : s.ultra = .created) (hu : timerStep s.sensor (.openDevice kmalloc irq) = some u)
      (hfine : u.faulted = false) (hsame : ¬ s.sensor.opens < u.opens) :
      BoardStep hasLed s (.openSensor kmalloc irq) { s with ultra := .failed, sensor := u }
  | exitSensor (hstage : s.stage = .serving) (hultra : s.ultra = .failed) :
      BoardStep hasLed s .exitSensor s.ultraExit
  | brokenPipe (hstage : s.stage = .serving) (hultra : s.ultra = .reading) :
      BoardStep hasLed s .brokenPipe s.ultraExit
  | expire (b : Nat) (u : Timers) (hu : timerStep s.sensor (.expire b) = some u) :
      BoardStep hasLed s (.expire b) { s with sensor := u }
  | respawn (hstage : s.stage = .gone) : BoardStep hasLed s .respawn
      { s with stage := .starting, motion := .start s.motion.server.dev s.motion.led }

theorem motionEvent_inv {hasLed : Bool} {s t : Board} {e : MotionEvent}
    (hstage : s.stage = .serving) (htimer : e ≠ .timer) (h : motionEvent hasLed s e = some t) :
    BoardStep hasLed s (.motion e) t := by
  obtain ⟨m, hm, rfl⟩ := Option.map_eq_some_iff.mp h
  rcases motionStep_inv hm with ⟨rfl, _⟩ | ⟨_, hp⟩
  · exact absurd rfl htimer
  · cases hended : m.server.ended with
    | none => simpa [hended] using BoardStep.motion e m hstage hp hended
    | some why =>
      have hne : m.server.ended ≠ none := by simp [hended]
      simpa [hended] using BoardStep.exit e m hstage hp hne

theorem boardStep_inv {hasLed : Bool} {s t : Board} {e : BoardEvent}
    (hstep : boardStep hasLed s e = some t) : BoardStep hasLed s e t := by
  cases e with
  | startUp r =>
    simp only [boardStep] at hstep
    split_ifs at hstep with hstage
    cases r <;> obtain rfl := Option.some.inj hstep
    case connected => exact .connect hstage
    all_goals exact .refuse _ hstage nofun
  | motion e =>
    cases e with
    | timer =>
      simp only [boardStep] at hstep
      split_ifs at hstep with hled
      obtain rfl := Option.some.inj hstep
      exact .timer hled
    | _ =>
      simp only [boardStep] at hstep
      split_ifs at hstep with hstage
      exact motionEvent_inv hstage (by simp) hstep
  | openSensor kmalloc irq =>
    simp only [boardStep] at hstep
    split_ifs at hstep with hcond
    obtain ⟨u, hu, rfl⟩ := Option.map_eq_some_iff.mp hstep
    split_ifs with hfault hmore
    · exact .openFault kmalloc irq u hcond.1 hcond.2 hu hfault
    · exact .openSensor kmalloc irq u hcond.1 hcond.2 hu (by simpa using hfault) hmore
    · exact .openFailed kmalloc irq u hcond.1 hcond.2 hu (by simpa using hfault) hmore
  | exitSensor =>
    simp only [boardStep] at hstep
    split_ifs at hstep with hcond
    obtain rfl := Option.some.inj hstep
    exact .exitSensor hcond.1 hcond.2
  | brokenPipe =>
    simp only [boardStep] at hstep
    split_ifs at hstep with hcond
    obtain rfl := Option.some.inj hstep
    exact .brokenPipe hcond.1 hcond.2
  | expire b =>
    obtain ⟨u, hu, rfl⟩ := Option.map_eq_some_iff.mp hstep
    exact .expire b u hu
  | respawn =>
    simp only [boardStep] at hstep
    split_ifs at hstep with hstage
    obtain rfl := Option.some.inj hstep
    exact .respawn hstage

end MdsBlackbox.Server.BoardSteps
