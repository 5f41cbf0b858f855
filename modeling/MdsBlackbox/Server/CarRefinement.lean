/- module: MdsBlackbox/Server/CarRefinement
   source: SERVER/rc_server/rc_server.c, SERVER/rc_server/pwm_app.c, SERVER/rc_server/pwm_dev.c
   digest: The abstract car that the command loop and the motor driver implement together. -/

import MdsBlackbox.Server.CommandLoop

set_option autoImplicit false
set_option relaxedAutoImplicit false

namespace MdsBlackbox.Server.CarRefinement

open MdsBlackbox.Lib.Transition
open MdsBlackbox.Server.PwmDev
open MdsBlackbox.Server.PwmApp
open MdsBlackbox.Server.CommandLoop

inductive Drive
  | stopped | forward | backward
  deriving DecidableEq

inductive Steering
  | straight | sideA | sideB
  deriving DecidableEq

/-- What the remote control is for: a drive and a steering state. -/
@[ext] structure Car where
  drive : Drive
  steering : Steering
  deriving DecidableEq

def parked : Car := ⟨.stopped, .straight⟩

/-- The meaning of a command byte; every other byte means nothing. -/
def act (c : Car) (b : UInt8) : Car :=
  if b = '1'.toUInt8 then ⟨.forward, .straight⟩
  else if b = '2'.toUInt8 then ⟨.backward, .straight⟩
  else if b = '3'.toUInt8 then { c with steering := .sideA }
  else if b = '4'.toUInt8 then { c with steering := .sideB }
  else if b = '5'.toUInt8 then parked
  else c

/-- GPG5 and GPG6 carry the drive, GPG4 and GPG7 the steering. -/
def encode (c : Car) : Pins where
  gpg4 := decide (c.steering = .sideA)
  gpg5 := decide (c.drive = .forward)
  gpg6 := decide (c.drive = .backward)
  gpg7 := decide (c.steering = .sideB)

theorem moterPins_encode (c : Car) {b : UInt8} {cmd k : Int} (h : dispatch b = some (cmd, k)) :
    moterPins (encode c) k = encode (act c b) := by
  unfold dispatch at h
  split_ifs at h with h1 h2 h3 h4 h5 <;>
    obtain ⟨rfl, rfl⟩ := Prod.mk.inj (Option.some.inj h) <;> subst b <;> rfl

theorem act_silent (c : Car) {b : UInt8} (h : dispatch b = none) : act c b = c := by
  unfold dispatch at h
  unfold act
  split_ifs at h ⊢
  rfl

def Shows (s : Process) (c : Car) : Prop := s.ended = none ∧ s.dev.pins = encode c

theorem shows_step {s : Process} {c : Car} (h : Shows s c) (b : UInt8) :
    ∃ t, loopStep s (received b) = some t ∧ Shows t (act c b) := by
  obtain ⟨hlive, hpins⟩ := h
  have hrun : s.ended.isSome = false := by simp [hlive]
  cases hd : dispatch b with
  | none =>
    refine ⟨s, ?_, hlive, ?_⟩
    · simp [loopStep, received, hrun, hd]
    · rw [act_silent c hd]
      exact hpins
  | some ck =>
    obtain ⟨cmd, k⟩ := ck
    have hret := moterFunc_granted s.dev k
    refine ⟨{ s with cmd := cmd, dev := (moterFunc .granted s.dev k).1 }, ?_, hlive, ?_⟩
    · simp [loopStep, received, hrun, hd, hret]
    · show (moterFunc .granted s.dev k).1.pins = encode (act c b)
      rw [moterFunc_returned hret, hpins]
      exact moterPins_encode c hd

/-- After every sequence of reads, whatever their first bytes, the pins spell the car that the
same bytes make of a parked one. -/
theorem loop_refines_car (pins : Pins) (bs : List UInt8) :
    ∃ s, run loopStep (Process.start (pwmInit pins)) (bs.map received) = some s ∧
      s.dev.pins = encode (bs.foldl act parked) := by
  have hstart : Shows (Process.start (pwmInit pins)) parked := ⟨rfl, pwmInit_pins pins⟩
  obtain ⟨s, hrun, hshow⟩ :=
    run_refines (R := Shows) (fun _ _ b h => shows_step h b) hstart bs
  exact ⟨s, hrun, hshow.2⟩

end MdsBlackbox.Server.CarRefinement
