/- module: MdsBlackbox/Server/Disconnect
   source: SERVER/rc_server/rc_server.c, SERVER/rc_server/pwm_dev.c
   digest: The motor pins that a server process leaves behind when its client is gone. -/

import MdsBlackbox.Server.CommandLoop

set_option autoImplicit false
set_option relaxedAutoImplicit false

namespace MdsBlackbox.Server.Disconnect

open MdsBlackbox.Lib.Transition
open MdsBlackbox.Server.PwmDev
open MdsBlackbox.Server.PwmApp
open MdsBlackbox.Server.CommandLoop

theorem moterPins_low_iff (p : Pins) {k : Int} (hk : k = 1 ∨ k = 8 ∨ k = 5 ∨ k = 6 ∨ k = 7) :
    moterPins p k = Pins.low ↔ k = 7 := by
  rcases hk with rfl | rfl | rfl | rfl | rfl <;> simp [Pins.low]

/-- The pins are low after a list of commands when the last of them stopped the car, or when there
was none and they were low before. -/
def Stopped (before : Pins) (ks : List Int) : Prop :=
  match ks.getLast? with
  | none => before = Pins.low
  | some k => k = 7

theorem fold_low_iff (p : Pins) {ks : List Int}
    (hks : ∀ k ∈ ks, k = 1 ∨ k = 8 ∨ k = 5 ∨ k = 6 ∨ k = 7) :
    ks.foldl moterPins p = Pins.low ↔ Stopped p ks := by
  induction ks using List.reverseRecOn with
  | nil => simp [Stopped]
  | append_singleton ks k _ =>
    rw [List.foldl_append, Stopped, List.getLast?_concat]
    exact moterPins_low_iff _ (hks k (by simp))

/-- When the loop ends because the client is gone, the exit leaves the pins as the executed
commands made them: they are all low exactly when the last command was the stop, or when there was
no command and they were low before the process started. -/
theorem pins_after_disconnect {d : Motor} {ps : List Pass} {s : Process}
    (hrun : run loopStep (Process.start d) ps = some s) (hend : s.ended = some .readFailed) :
    s.dev.pins = (executed ps).foldl moterPins d.pins ∧
      (s.dev.pins = Pins.low ↔ Stopped d.pins (executed ps)) := by
  have hpins := run_pins hrun (by simp [hend])
  refine ⟨hpins, ?_⟩
  rw [hpins]
  exact fold_low_iff _ fun k hk => executed_code hk

theorem pins_after_stop_and_disconnect :
    ∃ s, run loopStep (Process.start (pwmInit Pins.low))
        [received '2'.toUInt8, received '5'.toUInt8, ⟨.closed, .noDevice⟩] = some s ∧
      s.dev.pins = Pins.low := by
  refine ⟨_, rfl, ?_⟩
  have hrun : run loopStep (Process.start (pwmInit Pins.low))
      [received '2'.toUInt8, received '5'.toUInt8, ⟨.closed, .noDevice⟩] = some _ := rfl
  exact (pins_after_disconnect hrun rfl).2.mpr rfl

theorem disconnect_does_not_stop : ¬ ∀ (ps : List Pass) (s : Process),
    run loopStep (Process.start (pwmInit Pins.low)) ps = some s →
      s.ended = some .readFailed → s.dev.pins = Pins.low := by
  -- a car that drives when the client goes keeps driving
  intro h
  have hbad := h [received '1'.toUInt8, ⟨.closed, .noDevice⟩] _ rfl rfl
  exact absurd (congrArg Pins.gpg5 hbad) (by decide)

end MdsBlackbox.Server.Disconnect
