/- module: MdsBlackbox/Server/Led
   source: SERVER/rc_server/led.c, SERVER/rc_server/th_led.c
   digest: The turn indicator driver, its blink timer, and what a LED thread asks of it. -/

import MdsBlackbox.Server.PwmDev

set_option autoImplicit false
set_option relaxedAutoImplicit false

namespace MdsBlackbox.Server.Led

open MdsBlackbox.Server.PwmDev (LEFT RIGHT)

inductive LedPin
  | gpg11 | gpg12
  deriving DecidableEq

structure LedDev where
  ledFlag : Int
  ledHighLow : Int
  gpg11 : Bool
  gpg12 : Bool
  deriving DecidableEq

def ledInit : LedDev := ⟨0, 0, false, false⟩

inductive LedStmt
  | setFlag (v : Int)
  | gpioSetValue (pin : LedPin) (level : Bool)
  deriving DecidableEq

def LedDev.exec (d : LedDev) : LedStmt → LedDev
  | .setFlag v => { d with ledFlag := v }
  | .gpioSetValue .gpg11 level => { d with gpg11 := level }
  | .gpioSetValue .gpg12 level => { d with gpg12 := level }

def LedDev.level (d : LedDev) : LedPin → Bool
  | .gpg11 => d.gpg11
  | .gpg12 => d.gpg12

/-- The value of `led_flag` under which the callback blinks the pin. -/
def LedPin.flag : LedPin → Int
  | .gpg11 => 6
  | .gpg12 => 5

def LedPin.other : LedPin → LedPin
  | .gpg11 => .gpg12
  | .gpg12 => .gpg11

/-- The statements that `led_ioctl` runs for a command number. -/
def ledIoctl (cmd : UInt32) : List LedStmt :=
  if cmd = LEFT then [.setFlag 5, .gpioSetValue .gpg11 false]
  else if cmd = RIGHT then [.setFlag 6, .gpioSetValue .gpg12 false]
  else [.setFlag 1, .gpioSetValue .gpg11 false, .gpioSetValue .gpg12 false]

def LedDev.ioctl (d : LedDev) (cmd : UInt32) : LedDev := (ledIoctl cmd).foldl LedDev.exec d

/-- The timer callback blinks the pin of the flag; it rearms itself at its end. -/
def kerneltimerTimeover (d : LedDev) : LedDev :=
  if d.ledFlag = 5 then
    if d.ledHighLow = 0 then { d with gpg12 := true, ledHighLow := 1 }
    else { d with gpg12 := false, ledHighLow := 0 }
  else if d.ledFlag = 6 then
    if d.ledHighLow = 0 then { d with gpg11 := true, ledHighLow := 1 }
    else { d with gpg11 := false, ledHighLow := 0 }
  else d

/-- The switch of `led_func` on the value that it has loaded from `cmd`: `case LEFT`, which is 5,
`case RIGHT`, which is 6, and the default. -/
def ledRequest (cmd : Int) : UInt32 := if cmd = 5 then LEFT else if cmd = 6 then RIGHT else 1

/-- The flag that a value of `cmd` is meant to select. -/
def selectedFlag (cmd : Int) : Int := if cmd = 5 then 5 else if cmd = 6 then 6 else 1

theorem ioctl_ledFlag (d : LedDev) (cmd : Int) :
    (d.ioctl (ledRequest cmd)).ledFlag = selectedFlag cmd := by
  unfold ledRequest selectedFlag
  split_ifs <;> rfl

@[simp] theorem kerneltimerTimeover_ledFlag (d : LedDev) :
    (kerneltimerTimeover d).ledFlag = d.ledFlag := by
  unfold kerneltimerTimeover
  split_ifs <;> rfl

/-! The pin that the callback blinks. -/

theorem timeover_level {d : LedDev} {pin : LedPin} (h : d.ledFlag = pin.flag) :
    (kerneltimerTimeover d).level pin = decide (d.ledHighLow = 0) := by
  cases pin <;> simp only [LedPin.flag] at h <;> by_cases hphase : d.ledHighLow = 0 <;>
    simp [kerneltimerTimeover, LedDev.level, h, hphase]

theorem timeover_highLow {d : LedDev} {pin : LedPin} (h : d.ledFlag = pin.flag) :
    (kerneltimerTimeover d).ledHighLow = if d.ledHighLow = 0 then 1 else 0 := by
  cases pin <;> simp only [LedPin.flag] at h <;> by_cases hphase : d.ledHighLow = 0 <;>
    simp [kerneltimerTimeover, h, hphase]

theorem timeover_level_of_ne {d : LedDev} {pin : LedPin} (h : d.ledFlag ≠ pin.flag) :
    (kerneltimerTimeover d).level pin = d.level pin := by
  unfold kerneltimerTimeover
  cases pin <;> simp only [LedPin.flag] at h <;> split_ifs <;> first | rfl | contradiction

theorem exec_highLow (d : LedDev) (c : LedStmt) : (d.exec c).ledHighLow = d.ledHighLow := by
  cases c with
  | setFlag v => rfl
  | gpioSetValue pin level => cases pin <;> rfl

end MdsBlackbox.Server.Led
