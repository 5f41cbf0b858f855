/- module: MdsBlackbox/Server/PwmApp
   source: SERVER/rc_server/pwm_app.c
   digest: moter_func as an open, a list of ioctls and a close of the motor device. -/

import MdsBlackbox.Server.PwmDev

set_option autoImplicit false
set_option relaxedAutoImplicit false

namespace MdsBlackbox.Server.PwmApp

open MdsBlackbox.Server.PwmDev

abbrev MS : UInt32 := 1000000

/-- How `open("/dev/PWM", O_RDWR)` can go: no device behind the name, or `pwm_open` runs with
these outcomes of its two requests. -/
inductive OpenResult
  | noDevice
  | requests (left right : Bool)
  deriving DecidableEq

def OpenResult.granted : OpenResult := .requests true true

/-- The driver after the open, and whether the caller got a descriptor. -/
def openPwm (d : Motor) : OpenResult → Motor × Bool
  | .noDevice => (d, false)
  | .requests left right =>
    let r := pwmOpen d left right
    (r.1, decide (r.2 = 0))

/-- The two pulses and the command that FRONT, BACK, LEFT and RIGHT all send. -/
def pulsesThen (cmd : UInt32) : List (UInt32 × Option PwmPulse) :=
  [(LEFTPWM, some ⟨10 * MS, 1 * MS⟩), (RIGHTPWM, some ⟨1 * MS, 10 * MS⟩), (cmd, none)]

def moterIoctls (cmd : Int) : List (UInt32 × Option PwmPulse) :=
  if cmd = 1 then pulsesThen FRONT
  else if cmd = 8 then pulsesThen BACK
  else if cmd = 5 then pulsesThen LEFT
  else if cmd = 6 then pulsesThen RIGHT
  else if cmd = 7 then [(STOP, none)]
  else []

def ioctls (d : Motor) (calls : List (UInt32 × Option PwmPulse)) : Motor :=
  calls.foldl (fun d c => ioctl d c.1 c.2) d

/-- The driver after `moter_func`; the flag is `false` when the process exits in it. -/
def moterFunc (o : OpenResult) (d : Motor) (cmd : Int) : Motor × Bool :=
  let r := openPwm d o
  if r.2 then (pwmRelease (ioctls r.1 (moterIoctls cmd)), true) else (r.1, false)

theorem openPwm_pins (d : Motor) (o : OpenResult) : (openPwm d o).1.pins = d.pins := by
  cases o with
  | noDevice => rfl
  | requests left right => exact pwmOpen_pins d left right

theorem openPwm_granted (d : Motor) : (openPwm d .granted).2 = true := by
  simp [openPwm, OpenResult.granted, pwmOpen_granted]

theorem ioctls_pins (d : Motor) (calls : List (UInt32 × Option PwmPulse)) :
    (ioctls d calls).pins = calls.foldl (fun p c => ioctlPins p c.1) d.pins := by
  induction calls generalizing d with
  | nil => rfl
  | cons c cs ih =>
    have h := ih (ioctl d c.1 c.2)
    rw [ioctl_pins] at h
    exact h

def moterPins (p : Pins) (cmd : Int) : Pins :=
  (moterIoctls cmd).foldl (fun p c => ioctlPins p c.1) p

/-! The pins after each of the five codes. -/

@[simp] theorem moterPins_front (p : Pins) : moterPins p 1 = ⟨false, true, false, false⟩ := rfl

@[simp] theorem moterPins_back (p : Pins) : moterPins p 8 = ⟨false, false, true, false⟩ := rfl

@[simp] theorem moterPins_left (p : Pins) :
    moterPins p 5 = { p with gpg4 := true, gpg7 := false } := rfl

@[simp] theorem moterPins_right (p : Pins) :
    moterPins p 6 = { p with gpg4 := false, gpg7 := true } := rfl

@[simp] theorem moterPins_stop (p : Pins) : moterPins p 7 = Pins.low := rfl

theorem moterFunc_returned {o : OpenResult} {d : Motor} {cmd : Int}
    (h : (moterFunc o d cmd).2 = true) : (moterFunc o d cmd).1.pins = moterPins d.pins cmd := by
  unfold moterFunc at h ⊢
  simp only at h ⊢
  split at h
  · rename_i hopen
    rw [if_pos hopen, pwmRelease_pins, ioctls_pins, openPwm_pins]
    rfl
  · cases h

theorem moterFunc_exited {o : OpenResult} {d : Motor} {cmd : Int}
    (h : (moterFunc o d cmd).2 = false) : (moterFunc o d cmd).1.pins = d.pins := by
  unfold moterFunc at h ⊢
  simp only at h ⊢
  split at h
  · cases h
  · rename_i hopen
    rw [if_neg hopen, openPwm_pins]

theorem moterFunc_granted (d : Motor) (cmd : Int) : (moterFunc .granted d cmd).2 = true := by
  simp [moterFunc, openPwm_granted]

end MdsBlackbox.Server.PwmApp
