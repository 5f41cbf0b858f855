/- module: MdsBlackbox/Server/Interlock
   source: SERVER/rc_server/pwm_dev.c
   digest: Opposite direction pins between the single pin writes of an ioctl sequence. -/

import MdsBlackbox.Lib.Transition
import MdsBlackbox.Server.PwmDev

set_option autoImplicit false
set_option relaxedAutoImplicit false

namespace MdsBlackbox.Server.Interlock

open MdsBlackbox.Lib.Transition
open MdsBlackbox.Server.PwmDev

/-- Neither the drive pins nor the steering pins are high together. -/
def Interlocked (d : Motor) : Prop :=
  ¬ (d.pins.gpg5 = true ∧ d.pins.gpg6 = true) ∧ ¬ (d.pins.gpg4 = true ∧ d.pins.gpg7 = true)

instance (d : Motor) : Decidable (Interlocked d) := inferInstanceAs (Decidable (_ ∧ _))

/-- One kernel call of the driver as a transition, so that a run stops between any two calls. -/
def callStep (d : Motor) (c : Call) : Option Motor := some (d.apply c)

abbrev Ioctl := UInt32 × Option PwmPulse

def callsOf (d : Motor) : List Ioctl → List Call
  | [] => []
  | c :: cs => pwmIoctl d c.1 c.2 ++ callsOf (ioctl d c.1 c.2) cs

def ioctlRun (d : Motor) (cs : List Ioctl) : Motor := cs.foldl (fun d c => ioctl d c.1 c.2) d

def lastOf (codes : List UInt32) (cs : List Ioctl) : Option UInt32 :=
  ((cs.map Prod.fst).filter fun c => c ∈ codes).getLast?

/-- The last drive command: the one that wrote GPG5 and GPG6. -/
def lastDrive (cs : List Ioctl) : Option UInt32 := lastOf [FRONT, BACK, STOP] cs

/-- The last direction command: the one that wrote GPG4 and GPG7. -/
def lastSteer (cs : List Ioctl) : Option UInt32 := lastOf [FRONT, BACK, LEFT, RIGHT, STOP] cs

theorem lastOf_concat (codes : List UInt32) (cs : List Ioctl) (c : Ioctl) :
    lastOf codes (cs ++ [c]) = if c.1 ∈ codes then some c.1 else lastOf codes cs := by
  by_cases h : c.1 ∈ codes
  · simp only [lastOf, List.map_append, List.filter_append, List.map_cons, List.map_nil]
    simp [h]
  · simp [lastOf, List.filter_append, h]

theorem run_calls (d : Motor) (cs : List Call) : run callStep d cs = some (d.exec cs) := by
  induction cs generalizing d with
  | nil => rfl
  | cons c cs ih => exact ih (d.apply c)

private theorem throughout_call {P : Motor → Prop} {d : Motor} {c : Call} {cs : List Call} :
    Throughout callStep P d (c :: cs) ↔ P d ∧ Throughout callStep P (d.apply c) cs :=
  throughout_cons rfl

theorem callsOf_concat (d : Motor) (cs : List Ioctl) (c : Ioctl) :
    callsOf d (cs ++ [c]) = callsOf d cs ++ pwmIoctl (ioctlRun d cs) c.1 c.2 := by
  induction cs generalizing d with
  | nil => simp [callsOf, ioctlRun]
  | cons b cs ih =>
    simp only [List.cons_append, callsOf, ih, List.append_assoc]
    rfl

theorem exec_callsOf (d : Motor) (cs : List Ioctl) : d.exec (callsOf d cs) = ioctlRun d cs := by
  induction cs generalizing d with
  | nil => rfl
  | cons c cs ih =>
    rw [callsOf, exec_append]
    exact ih (ioctl d c.1 c.2)

theorem ioctlRun_concat (d : Motor) (cs : List Ioctl) (c : Ioctl) :
    ioctlRun d (cs ++ [c]) = ioctl (ioctlRun d cs) c.1 c.2 := by
  simp [ioctlRun]

theorem ioctl_instants {d : Motor} (h : Interlocked d) (cmd : UInt32) (arg : Option PwmPulse) :
    Throughout callStep Interlocked d (pwmIoctl d cmd arg) ↔
      (cmd = FRONT → d.pins.gpg6 = false) ∧ (cmd = LEFT → d.pins.gpg7 = false) := by
  have hFL : FRONT ≠ LEFT := by decide
  have hBL : BACK ≠ LEFT := by decide
  unfold pwmIoctl
  split_ifs with hF hB hL hR hS <;>
    simp only [throughout_call, throughout_nil, Interlocked, apply_pins, Call.onPins,
      Pins.set] at h ⊢ <;>
    simp_all

private theorem pins_of_drive (p : Pins) (cmd : UInt32) :
    (ioctlPins p cmd).gpg6 = true ↔
      if cmd ∈ [FRONT, BACK, STOP] then cmd = BACK else p.gpg6 = true := by
  unfold ioctlPins
  split_ifs <;> simp_all [Pins.low, FRONT, BACK, LEFT, RIGHT, STOP]

private theorem pins_of_steer (p : Pins) (cmd : UInt32) :
    (ioctlPins p cmd).gpg7 = true ↔
      if cmd ∈ [FRONT, BACK, LEFT, RIGHT, STOP] then cmd = RIGHT else p.gpg7 = true := by
  unfold ioctlPins
  split_ifs <;> simp_all [Pins.low, FRONT, BACK, LEFT, RIGHT, STOP]

theorem gpg6_iff (pins : Pins) (cs : List Ioctl) :
    (ioctlRun (pwmInit pins) cs).pins.gpg6 = true ↔ lastDrive cs = some BACK := by
  induction cs using List.reverseRecOn with
  | nil => simp [ioctlRun, pwmInit_pins, Pins.low, lastDrive, lastOf]
  | append_singleton cs c ih =>
    rw [ioctlRun_concat, ioctl_pins, pins_of_drive, lastDrive, lastOf_concat]
    split_ifs
    · exact Option.some_inj.symm
    · exact ih

theorem gpg7_iff (pins : Pins) (cs : List Ioctl) :
    (ioctlRun (pwmInit pins) cs).pins.gpg7 = true ↔ lastSteer cs = some RIGHT := by
  induction cs using List.reverseRecOn with
  | nil => simp [ioctlRun, pwmInit_pins, Pins.low, lastSteer, lastOf]
  | append_singleton cs c ih =>
    rw [ioctlRun_concat, ioctl_pins, pins_of_steer, lastSteer, lastOf_concat]
    split_ifs
    · exact Option.some_inj.symm
    · exact ih

theorem interlocked_between (pins : Pins) (cs : List Ioctl) :
    Interlocked (ioctlRun (pwmInit pins) cs) := by
  induction cs using List.reverseRecOn with
  | nil => simp [ioctlRun, Interlocked, pwmInit_pins, Pins.low]
  | append_singleton cs c ih =>
    rw [ioctlRun_concat]
    unfold Interlocked at ih ⊢
    rw [ioctl_pins]
    unfold ioctlPins
    split_ifs <;> simp_all [Pins.low]

/-- The ioctls that turn a motor round without a stop in between: FRONT while the last drive
command was BACK, LEFT while the last direction command was RIGHT. -/
def Reverses (before : List Ioctl) (cmd : UInt32) : Prop :=
  (cmd = FRONT ∧ lastDrive before = some BACK) ∨ (cmd = LEFT ∧ lastSteer before = some RIGHT)

/-- The interlock holds after every single pin write exactly when no ioctl reverses. -/
theorem interlocked_throughout_iff (pins : Pins) (cs : List Ioctl) :
    Throughout callStep Interlocked (pwmInit pins) (callsOf (pwmInit pins) cs) ↔
      ∀ before c, before ++ [c] <+: cs → ¬ Reverses before c.1 := by
  induction cs using List.reverseRecOn with
  | nil =>
    have hstart : Interlocked (pwmInit pins) := interlocked_between pins []
    simp [callsOf, throughout_nil, hstart]
  | append_singleton cs c ih =>
    have hrun := run_calls (pwmInit pins) (callsOf (pwmInit pins) cs)
    rw [exec_callsOf] at hrun
    rw [callsOf_concat, throughout_append hrun, ih,
      ioctl_instants (interlocked_between pins cs), ← Bool.not_eq_true, ← Bool.not_eq_true,
      gpg6_iff, gpg7_iff]
    have hlast : ((c.1 = FRONT → ¬ lastDrive cs = some BACK) ∧
        (c.1 = LEFT → ¬ lastSteer cs = some RIGHT)) ↔ ¬ Reverses cs c.1 := by
      unfold Reverses
      tauto
    rw [hlast]
    constructor
    · rintro ⟨hinit, hc⟩ before b hb
      rcases List.prefix_concat_iff.mp hb with he | hb
      · obtain ⟨rfl, rfl⟩ := List.append_singleton_inj.mp he
        exact hc
      · exact hinit before b hb
    · intro h
      exact ⟨fun before b hb => h before b (hb.trans (List.prefix_append _ _)),
        h cs c (List.prefix_refl _)⟩

theorem interlock_broken : ¬ ∀ (pins : Pins) (cs : List Ioctl),
    Throughout callStep Interlocked (pwmInit pins) (callsOf (pwmInit pins) cs) := by
  -- BACK and then FRONT puts both drive pins high for the length of one call
  intro h
  have hbad := h Pins.low [(BACK, none), (FRONT, none)]
    (callsOf (pwmInit Pins.low) [(BACK, none), (FRONT, none)] |>.take 9) _
    (List.take_prefix _ _) (run_calls _ _)
  revert hbad
  decide

end MdsBlackbox.Server.Interlock
