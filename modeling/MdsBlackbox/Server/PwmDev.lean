/- module: MdsBlackbox/Server/PwmDev
   source: SERVER/rc_server/pwm_dev.c, SERVER/rc_server/pwm_dev.h
   digest: The motor driver: open, release, init and ioctl as sequences of kernel calls. -/

import Mathlib.Data.List.Basic

set_option autoImplicit false
set_option relaxedAutoImplicit false

namespace MdsBlackbox.Server.PwmDev

inductive Pin
  | gpg4 | gpg5 | gpg6 | gpg7
  deriving DecidableEq

@[ext] structure Pins where
  gpg4 : Bool
  gpg5 : Bool
  gpg6 : Bool
  gpg7 : Bool
  deriving DecidableEq

def Pins.low : Pins := ⟨false, false, false, false⟩

def Pins.set (p : Pins) : Pin → Bool → Pins
  | .gpg4, v => { p with gpg4 := v }
  | .gpg5, v => { p with gpg5 := v }
  | .gpg6, v => { p with gpg6 := v }
  | .gpg7, v => { p with gpg7 := v }

/-- `struct pwm_pulse`; unsigned long has 32 bits on the target. -/
structure PwmPulse where
  width : UInt32
  period : UInt32
  deriving DecidableEq

/-! The ioctl numbers of pwm_dev.h. -/

abbrev FRONT : UInt32 := 1
abbrev BACK : UInt32 := 8
abbrev LEFTPWM : UInt32 := 3
abbrev RIGHTPWM : UInt32 := 4
abbrev LEFT : UInt32 := 5
abbrev RIGHT : UInt32 := 6
abbrev STOP : UInt32 := 7

/-- The two driver globals `left_pwm` and `right_pwm`, on PWM timers 2 and 3. -/
inductive Side
  | left | right
  deriving DecidableEq

/-- One global and its timer: whether the global is non-NULL, whether the timer is claimed, the
arguments of the last `pwm_config` on it, and whether it is enabled. -/
@[ext] structure Channel where
  handle : Bool
  claimed : Bool
  config : PwmPulse
  enabled : Bool
  deriving DecidableEq

@[ext] structure Motor where
  pins : Pins
  lpwmPulse : PwmPulse
  rpwmPulse : PwmPulse
  leftPwm : Channel
  rightPwm : Channel
  deriving DecidableEq

inductive Call
  | gpioSetValue (pin : Pin) (value : Bool)
  | pwmRequest (side : Side) (granted : Bool)
  | pwmFree (side : Side)
  | pwmConfig (side : Side) (pulse : PwmPulse)
  | pwmEnable (side : Side)
  deriving DecidableEq

def Motor.modify (d : Motor) (f : Channel → Channel) : Side → Motor
  | .left => { d with leftPwm := f d.leftPwm }
  | .right => { d with rightPwm := f d.rightPwm }

/-- What a call does to the timer behind a global that is not NULL; through NULL it is taken to do
nothing. -/
def Channel.through (c : Channel) (f : Channel → Channel) : Channel := if c.handle then f c else c

/-- A refused request leaves NULL in the global and the claim as it was. -/
def Motor.apply (d : Motor) : Call → Motor
  | .gpioSetValue pin v => { d with pins := d.pins.set pin v }
  | .pwmRequest s granted =>
    d.modify (fun c => { c with handle := granted, claimed := c.claimed || granted }) s
  | .pwmFree s => d.modify (fun c => c.through fun c => { c with claimed := false }) s
  | .pwmConfig s pulse => d.modify (fun c => c.through fun c => { c with config := pulse }) s
  | .pwmEnable s => d.modify (fun c => c.through fun c => { c with enabled := true }) s

def Motor.exec (d : Motor) (calls : List Call) : Motor := calls.foldl Motor.apply d

/-- The calls of `pwm_ioctl`, in order. The copies from user space are commented out in the
source, so the argument is not looked at and the two pulses are the driver's own. -/
def pwmIoctl (d : Motor) (cmd : UInt32) (_arg : Option PwmPulse) : List Call :=
  if cmd = FRONT then
    [.gpioSetValue .gpg4 false, .gpioSetValue .gpg7 false, .gpioSetValue .gpg5 true,
      .gpioSetValue .gpg6 false, .pwmEnable .left, .pwmEnable .right]
  else if cmd = BACK then
    [.gpioSetValue .gpg4 false, .gpioSetValue .gpg7 false, .gpioSetValue .gpg5 false,
      .gpioSetValue .gpg6 true, .pwmEnable .left, .pwmEnable .right]
  else if cmd = LEFT then
    [.gpioSetValue .gpg4 true, .gpioSetValue .gpg7 false, .pwmEnable .left, .pwmEnable .right]
  else if cmd = RIGHT then
    [.gpioSetValue .gpg4 false, .gpioSetValue .gpg7 true, .pwmEnable .left, .pwmEnable .right]
  else if cmd = STOP then
    [.gpioSetValue .gpg4 false, .gpioSetValue .gpg7 false, .gpioSetValue .gpg5 false,
      .gpioSetValue .gpg6 false, .pwmEnable .left, .pwmEnable .right]
  else if cmd = LEFTPWM then [.pwmConfig .left d.lpwmPulse]
  else if cmd = RIGHTPWM then [.pwmConfig .right d.rpwmPulse]
  else []

def ioctl (d : Motor) (cmd : UInt32) (arg : Option PwmPulse) : Motor :=
  d.exec (pwmIoctl d cmd arg)

/-- `pwm_open` with the outcomes of its two requests; the result is its return value. -/
def pwmOpen (d : Motor) (left right : Bool) : Motor × Int :=
  let d := d.exec [.pwmRequest .left left, .pwmRequest .right right]
  if d.leftPwm.handle = false ∨ d.rightPwm.handle = false then (d, -1)
  else (d.exec [.pwmConfig .left ⟨0, 0⟩, .pwmConfig .right ⟨0, 0⟩], 0)

def pwmRelease (d : Motor) : Motor := d.exec [.pwmFree .left, .pwmFree .right]

/-- The globals before the module is loaded, over pins left in any state. -/
def unloaded (pins : Pins) : Motor :=
  ⟨pins, ⟨0, 0⟩, ⟨0, 0⟩, ⟨false, false, ⟨0, 0⟩, false⟩, ⟨false, false, ⟨0, 0⟩, false⟩⟩

def pwmInit (pins : Pins) : Motor :=
  (unloaded pins).exec [.gpioSetValue .gpg4 false, .gpioSetValue .gpg7 false,
    .gpioSetValue .gpg5 false, .gpioSetValue .gpg6 false]

/-! What the calls do to the pins. -/

@[simp] theorem exec_nil (d : Motor) : d.exec [] = d := rfl

@[simp] theorem exec_cons (d : Motor) (c : Call) (cs : List Call) :
    d.exec (c :: cs) = (d.apply c).exec cs := rfl

theorem exec_append (d : Motor) (cs ds : List Call) :
    d.exec (cs ++ ds) = (d.exec cs).exec ds :=
  List.foldl_append

@[simp] theorem modify_pins (d : Motor) (f : Channel → Channel) (s : Side) :
    (d.modify f s).pins = d.pins := by
  cases s <;> rfl

def Call.onPins (p : Pins) : Call → Pins
  | .gpioSetValue pin v => p.set pin v
  | _ => p

@[simp] theorem apply_pins (d : Motor) (c : Call) : (d.apply c).pins = c.onPins d.pins := by
  cases c <;> simp [Motor.apply, Call.onPins]

def ioctlPins (p : Pins) (cmd : UInt32) : Pins :=
  if cmd = FRONT then ⟨false, true, false, false⟩
  else if cmd = BACK then ⟨false, false, true, false⟩
  else if cmd = LEFT then { p with gpg4 := true, gpg7 := false }
  else if cmd = RIGHT then { p with gpg4 := false, gpg7 := true }
  else if cmd = STOP then Pins.low
  else p

theorem ioctl_pins (d : Motor) (cmd : UInt32) (arg : Option PwmPulse) :
    (ioctl d cmd arg).pins = ioctlPins d.pins cmd := by
  unfold ioctl pwmIoctl ioctlPins
  repeat' split
  all_goals simp [Call.onPins, Pins.set, Pins.low]

theorem pwmRelease_pins (d : Motor) : (pwmRelease d).pins = d.pins := by
  simp [pwmRelease, Call.onPins]

theorem pwmOpen_pins (d : Motor) (left right : Bool) : (pwmOpen d left right).1.pins = d.pins := by
  unfold pwmOpen
  simp only
  split <;> simp [Call.onPins]

theorem pwmOpen_granted (d : Motor) : (pwmOpen d true true).2 = 0 := by
  simp [pwmOpen, Motor.apply, Motor.modify]

theorem pwmInit_pins (pins : Pins) : (pwmInit pins).pins = Pins.low := by
  simp [pwmInit, Call.onPins, Pins.set, Pins.low]

end MdsBlackbox.Server.PwmDev
