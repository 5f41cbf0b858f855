/- module: MdsBlackbox/Drivers/Modules
   source: SERVER/rc_server/led.c, SERVER/rc_server/ultrasonic.c, SERVER/rc_server/pwm_dev.c,
     CLIENT/rc_client/buzzer.c
   digest: The four drivers from their init to their exit, and what a life leaves behind. -/

import MdsBlackbox.Drivers.Registration
import MdsBlackbox.Server.Led
import MdsBlackbox.Server.PwmFile
import MdsBlackbox.Server.TriggerTimer

set_option autoImplicit false
set_option relaxedAutoImplicit false

namespace MdsBlackbox.Drivers.Modules

open MdsBlackbox.Lib.Transition
open MdsBlackbox.Drivers.Registration
open MdsBlackbox.Server.PwmDev
open MdsBlackbox.Server.PwmFile
open MdsBlackbox.Server.TriggerTimer
open MdsBlackbox.Server.Led (LedDev ledInit kerneltimerTimeover)

def ledRegisterCdev := registerCdev fun result _ => result
def ultrasonicRegisterCdev := registerCdev fun result _ => result
def buzzerRegisterCdev := registerCdev fun result _ => result
def pwmRegisterCdev := registerCdev fun _ error => error

/-! The turn indicators. -/

structure LedModule where
  led : LedDev
  armed : Bool
  opens : Nat
  deriving DecidableEq

inductive LedCall
  | openDevice
  | ioctl (cmd : UInt32)
  | release
  | expire
  deriving DecidableEq

def kerneltimerRegistertimer (s : LedModule) : LedModule := { s with armed := true }

/-- The blink timer is armed before the registration. Nothing looks at what `kerneltimer_init`
returns, so the null pointer of `kmalloc` goes on to `init_timer`. -/
def ledModuleInit (kmalloc : Bool) : Option LedModule :=
  if kmalloc then some (kerneltimerRegistertimer ⟨ledInit, false, 0⟩) else none

def ledModuleStep (s : LedModule) : LedCall → Option LedModule
  | .openDevice => some { s with opens := s.opens + 1 }
  | .ioctl cmd => if 0 < s.opens then some { s with led := s.led.ioctl cmd } else none
  | .release => if 0 < s.opens then some { s with opens := s.opens - 1 } else none
  | .expire =>
    if s.armed then
      some (kerneltimerRegistertimer { s with led := kerneltimerTimeover s.led, armed := false })
    else none

/-- An open file keeps the module; `led_exit` does not call `kerneltimer_exit`. -/
def ledExit (s : LedModule) : Option LedModule := if s.opens = 0 then some s else none

abbrev ledDriver : Driver where
  State := LedModule
  Event := LedCall
  Setup := Bool
  registerCdev := ledRegisterCdev
  init := ledModuleInit
  step := ledModuleStep
  exit := ledExit
  armed := LedModule.armed

theorem ledModuleStep_armed {s t : LedModule} {e : LedCall} (hs : s.armed = true)
    (hstep : ledModuleStep s e = some t) : t.armed = true := by
  cases e with
  | openDevice =>
    obtain rfl := Option.some.inj hstep
    exact hs
  | ioctl cmd =>
    simp only [ledModuleStep] at hstep
    split_ifs at hstep
    obtain rfl := Option.some.inj hstep
    exact hs
  | release =>
    simp only [ledModuleStep] at hstep
    split_ifs at hstep
    obtain rfl := Option.some.inj hstep
    exact hs
  | expire =>
    simp only [ledModuleStep, hs, if_true] at hstep
    obtain rfl := Option.some.inj hstep
    rfl

/-! The distance sensor. -/

abbrev ultrasonicDriver : Driver where
  State := Timers
  Event := TimerEvent
  Setup := Unit
  registerCdev := ultrasonicRegisterCdev
  init := fun _ => some .insmod
  step := timerStep
  exit := fun s => timerStep s .rmmod
  armed := fun s => !s.armed.isEmpty

/-! The buzzer. -/

abbrev BUZZER_SIG : UInt32 := 6

/-- `bz_pwm` on PWM timer 1, the two fields of `pwm_duty`, and the number of open files. -/
structure BuzzerModule where
  bzPwm : Channel
  pwmDuty : PwmPulse
  opens : Nat
  deriving DecidableEq

inductive BuzzerCall
  | openDevice (granted : Bool)
  | ioctl (cmd : UInt32)
  | release
  deriving DecidableEq

def buzzerOpen (s : BuzzerModule) (granted : Bool) : BuzzerModule × Int :=
  let c := { s.bzPwm with handle := granted, claimed := s.bzPwm.claimed || granted }
  if granted then
    ({ s with bzPwm := { c with enabled := false, config := ⟨150000, 200000⟩ },
              pwmDuty := ⟨150000, 200000⟩ }, 0)
  else ({ s with bzPwm := c }, -1)

def buzzerRelease (s : BuzzerModule) : BuzzerModule :=
  { s with bzPwm := { s.bzPwm with enabled := false, claimed := false } }

/-- The buzzer sounds for the time of a delay, and every command silences it at its end. -/
def buzzerIoctl (s : BuzzerModule) (cmd : UInt32) : BuzzerModule :=
  let c := if cmd = BUZZER_SIG then { s.bzPwm with config := s.pwmDuty, enabled := true }
    else s.bzPwm
  { s with bzPwm := { c with enabled := false } }

def buzzerModuleStep (s : BuzzerModule) : BuzzerCall → Option BuzzerModule
  | .openDevice granted =>
    let r := buzzerOpen s granted
    some (if r.2 = 0 then { r.1 with opens := s.opens + 1 } else r.1)
  | .ioctl cmd => if 0 < s.opens then some (buzzerIoctl s cmd) else none
  | .release => if 0 < s.opens then some { buzzerRelease s with opens := s.opens - 1 } else none

abbrev buzzerDriver : Driver where
  State := BuzzerModule
  Event := BuzzerCall
  Setup := Unit
  registerCdev := buzzerRegisterCdev
  init := fun _ => some ⟨⟨false, false, ⟨0, 0⟩, false⟩, ⟨0, 0⟩, 0⟩
  step := buzzerModuleStep
  exit := fun s => if s.opens = 0 then some s else none
  armed := fun _ => false

/-! The motor. -/

/-- The setup is the levels of the motor pins before. -/
abbrev pwmDriver : Driver where
  State := FileState
  Event := FileEvent
  Setup := Pins
  registerCdev := pwmRegisterCdev
  init := fun pins => some (.insmod pins)
  step := fileStep
  exit := fun s => if s.opens = 0 then some s else none
  armed := fun _ => false

/-! All four. -/

inductive Device
  | led
  | ultrasonic
  | buzzer
  | pwmDev
  deriving DecidableEq

def driver : Device → Driver
  | .led => ledDriver
  | .ultrasonic => ultrasonicDriver
  | .buzzer => buzzerDriver
  | .pwmDev => pwmDriver

/-- For the sensor the armed timers at the exit have to be of the last block. -/
def ReleasedWhen : (dev : Device) → KernelResult → KernelResult → List (driver dev).Event → Prop
  | .led, _, _, _ => False
  | .ultrasonic, region, add, es => region = .ok ∧ add = .ok ∧
      ∀ s, run timerStep .insmod es = some s → ∀ b ∈ s.armed, s.ptrmng = some b
  | .buzzer, region, add, _ => region = .ok ∧ add = .ok
  | .pwmDev, region, add, _ => region ≠ .ok ∨ add = .ok

variable {region add : KernelResult}

theorem led_keeps_timer {kmalloc : Bool} {es : List LedCall}
    (hlife : Lives ledDriver region add kmalloc es) :
    ¬ ReleasesAll ledDriver region add kmalloc es := by
  have hreg : ledDriver.registerCdev = registerCdev fun result _ => result := rfl
  cases kmalloc with
  | false => exact not_releasesAll_of_fault (D := ledDriver) rfl es
  | true =>
    intro h
    obtain ⟨rfl, rfl, hexit⟩ := (releasesAll_result_iff hreg rfl es).mp h
    obtain ⟨t, u, hrun, hstep⟩ := lives_registered hreg rfl hlife
    have harmed : t.armed = true :=
      invariant (I := fun s : LedModule => s.armed = true) rfl
        (fun _ _ _ hs he => ledModuleStep_armed hs he) hrun
    have hkept : u = t := by
      simp only [ledDriver, ledExit] at hstep
      split_ifs at hstep
      exact (Option.some.inj hstep).symm
    have hdisarmed := hexit t u hrun hstep
    rw [hkept] at hdisarmed
    exact absurd (harmed.symm.trans hdisarmed) (by decide)

theorem ultrasonic_released_iff {es : List TimerEvent}
    (hlife : Lives ultrasonicDriver region add () es) :
    ReleasesAll ultrasonicDriver region add () es ↔ ReleasedWhen .ultrasonic region add es := by
  have hreg : ultrasonicDriver.registerCdev = registerCdev fun result _ => result := rfl
  rw [releasesAll_result_iff hreg rfl]
  refine and_congr_right fun hregion => and_congr_right fun hadd => ?_
  subst hregion hadd
  obtain ⟨t, u, hrun, hstep⟩ := lives_registered hreg rfl hlife
  obtain ⟨_, _, rfl⟩ := timerStep_rmmod hstep
  constructor
  · intro h s hs
    obtain rfl := Option.some.inj (hrun.symm.trans hs)
    rw [← exit_disarms_iff, ← List.isEmpty_iff]
    simpa [ultrasonicDriver] using h _ _ hrun hstep
  · intro h s u hs hexit
    obtain ⟨_, _, rfl⟩ := timerStep_rmmod hexit
    have hempty := (exit_disarms_iff s).mpr (h s hs)
    simp [hempty]

theorem buzzer_released_iff {es : List BuzzerCall} :
    ReleasesAll buzzerDriver region add () es ↔ ReleasedWhen .buzzer region add es := by
  rw [releasesAll_result_iff rfl rfl]
  exact ⟨fun h => ⟨h.1, h.2.1⟩, fun h => ⟨h.1, h.2, fun _ _ _ _ => rfl⟩⟩

theorem pwm_released_iff {pins : Pins} {es : List FileEvent} :
    ReleasesAll pwmDriver region add pins es ↔ ReleasedWhen .pwmDev region add es := by
  rw [releasesAll_error_iff rfl rfl]
  cases region with
  | ok => simp [ReleasedWhen]
  | error n => simp [ReleasedWhen]

/-- The motor driver alone reports a refused device number, none reports an error of `cdev_add`,
and only the indicators never stop their timer. -/
theorem releases_all_iff {dev : Device} {setup : (driver dev).Setup}
    {es : List (driver dev).Event} (hlife : Lives (driver dev) region add setup es) :
    ReleasesAll (driver dev) region add setup es ↔ ReleasedWhen dev region add es := by
  cases dev with
  | led => exact iff_of_false (led_keeps_timer hlife) id
  | ultrasonic => exact ultrasonic_released_iff hlife
  | buzzer => exact buzzer_released_iff
  | pwmDev => exact pwm_released_iff

theorem releases_all_sensor :
    ReleasesAll (driver .ultrasonic) .ok .ok () [.openDevice true false] := by
  -- an open that is refused its interrupt line, before the exit
  have hlife : Lives (driver .ultrasonic) .ok .ok () [.openDevice true false] := by
    rintro m ret hload _
    obtain ⟨rfl, rfl⟩ := Prod.mk.inj (Option.some.inj hload)
    exact ⟨_, _, rfl, rfl⟩
  refine (releases_all_iff hlife).mpr ⟨rfl, rfl, fun s hrun => ?_⟩
  obtain rfl := Option.some.inj hrun
  decide

theorem not_all_released : ¬ ∀ (dev : Device) (region add : KernelResult)
    (setup : (driver dev).Setup) (es : List (driver dev).Event),
    Lives (driver dev) region add setup es → ReleasesAll (driver dev) region add setup es := by
  -- the indicators' device number is busy, and their init returns 0
  intro h
  have hlife : Lives (driver .led) (.error 15) .ok true [] := by
    rintro m ret hload _
    obtain ⟨rfl, rfl⟩ := Prod.mk.inj (Option.some.inj hload)
    exact ⟨_, _, rfl, rfl⟩
  obtain ⟨m, ret, hload, hsign, _⟩ := h .led (.error 15) .ok true [] hlife
  obtain ⟨rfl, rfl⟩ := Prod.mk.inj (Option.some.inj hload)
  exact absurd (hsign.mpr (Or.inl nofun)) (by decide)

end MdsBlackbox.Drivers.Modules
