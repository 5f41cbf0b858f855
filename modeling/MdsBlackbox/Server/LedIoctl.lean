/- module: MdsBlackbox/Server/LedIoctl
   source: SERVER/rc_server/led.c
   digest: Concurrent ioctls of the turn indicator driver under its blink timer. -/

import Mathlib.Logic.Function.Iterate
import MdsBlackbox.Lib.Statements
import MdsBlackbox.Server.Led

set_option autoImplicit false
set_option relaxedAutoImplicit false

namespace MdsBlackbox.Server.LedIoctl

open MdsBlackbox.Lib.Transition
open MdsBlackbox.Lib.Statements
open MdsBlackbox.Server.PwmDev (LEFT RIGHT)
open MdsBlackbox.Server.Led

/-- Any number of `led_ioctl` calls, one statement at a time, and timer callbacks in between. -/
def ledStep : Calls LedDev LedStmt → CallEvent UInt32 → Option (Calls LedDev LedStmt) :=
  callStep ledIoctl LedDev.exec kerneltimerTimeover

/-- The pin is on only under its own flag. -/
def Owned (pin : LedPin) (d : LedDev) : Prop := d.level pin = true → d.ledFlag = pin.flag

/-! Indicators at rest. -/

theorem owned_clear (pin : LedPin) (d : LedDev) : Owned pin (d.exec (.gpioSetValue pin false)) := by
  intro h
  cases pin <;> cases h

theorem owned_clear_of_owned {pin : LedPin} (pin' : LedPin) {d : LedDev} (h : Owned pin d) :
    Owned pin (d.exec (.gpioSetValue pin' false)) := by
  cases pin <;> cases pin' <;> first | exact owned_clear _ d | exact h

theorem ledIoctl_cleansUp (pin : LedPin) (cmd : UInt32) :
    CleansUp LedDev.exec (Owned pin) (ledIoctl cmd) := by
  have hclear : ∀ (pin' : LedPin) (d : LedDev), Owned pin d →
      Owned pin (d.exec (.gpioSetValue pin' false)) := fun pin' _ h => owned_clear_of_owned pin' h
  have hown : ∀ (d : LedDev), Owned pin d → Owned pin (d.exec (.setFlag pin.flag)) :=
    fun _ _ _ => rfl
  unfold ledIoctl
  split_ifs
  · refine ⟨?_, Or.inl (hclear _), trivial⟩
    cases pin with
    | gpg11 => exact Or.inr ⟨_, List.mem_singleton.mpr rfl, owned_clear .gpg11⟩
    | gpg12 => exact Or.inl hown
  · refine ⟨?_, Or.inl (hclear _), trivial⟩
    cases pin with
    | gpg11 => exact Or.inl hown
    | gpg12 => exact Or.inr ⟨_, List.mem_singleton.mpr rfl, owned_clear .gpg12⟩
  · refine ⟨Or.inr ⟨.gpioSetValue pin false, ?_, owned_clear pin⟩, Or.inl (hclear _),
      Or.inl (hclear _), trivial⟩
    cases pin <;> simp

theorem owned_timeover {pin : LedPin} {d : LedDev} (h : Owned pin d) :
    Owned pin (kerneltimerTimeover d) := by
  intro hon
  rw [kerneltimerTimeover_ledFlag]
  by_contra hflag
  rw [timeover_level_of_ne hflag] at hon
  exact hflag (h hon)

/-- In every interleaving, whenever no ioctl is in progress, an indicator is on only under its own
flag, so never both. -/
theorem indicators_at_rest {es : List (CallEvent UInt32)} {s : Calls LedDev LedStmt}
    (hrun : run ledStep (.start ledInit) es = some s) (hrest : s.AtRest) :
    (s.shared.gpg12 = true → s.shared.ledFlag = 5) ∧
      (s.shared.gpg11 = true → s.shared.ledFlag = 6) ∧
      ¬ (s.shared.gpg11 = true ∧ s.shared.gpg12 = true) := by
  have howned : ∀ pin, Owned pin s.shared := by
    intro pin
    refine holds_at_rest (ledIoctl_cleansUp pin) (fun _ => owned_timeover) ?_ hrun hrest
    cases pin <;> simp [Owned, ledInit, LedDev.level]
  have hleft : s.shared.gpg12 = true → s.shared.ledFlag = 5 := howned .gpg12
  have hright : s.shared.gpg11 = true → s.shared.ledFlag = 6 := howned .gpg11
  refine ⟨hleft, hright, ?_⟩
  rintro ⟨h11, h12⟩
  have h5 := hleft h12
  have h6 := hright h11
  omega

/-- Two ioctls overlap, and both indicators are on while they do; blinking goes on after them. -/
def overlap : List (CallEvent UInt32) :=
  [.call LEFT, .stmt 0, .interrupt, .call RIGHT, .stmt 1, .interrupt, .interrupt, .stmt 1, .stmt 0,
    .interrupt, .interrupt]

theorem indicators_at_rest_overlap : ∃ s, run ledStep (.start ledInit) overlap = some s ∧
    s.shared.gpg11 = true ∧ s.shared.ledFlag = 6 := by
  have hrun : ∃ s, run ledStep (.start ledInit) overlap = some s ∧ s.AtRest ∧
      s.shared.gpg11 = true := ⟨_, rfl, by decide, by decide⟩
  obtain ⟨s, hs, hrest, hon⟩ := hrun
  exact ⟨s, hs, hon, (indicators_at_rest hs hrest).2.1 hon⟩

/-! Restarting an indicator. -/

/-- What runs of ioctls and callbacks lead to, finished or not. -/
def Reachable (d : LedDev) : Prop :=
  ∃ es s, run ledStep (.start ledInit) es = some s ∧ s.shared = d

def Dark (d : LedDev) : Prop := d.gpg11 = false ∧ d.gpg12 = false

/-- A whole ioctl and then `n` callbacks. -/
def blink (d : LedDev) (cmd : UInt32) (n : Nat) : LedDev :=
  kerneltimerTimeover^[n] (d.ioctl cmd)

theorem highLow_cases {d : LedDev} (h : Reachable d) : d.ledHighLow = 0 ∨ d.ledHighLow = 1 := by
  obtain ⟨es, s, hrun, rfl⟩ := h
  refine shared_invariant (I := fun d => d.ledHighLow = 0 ∨ d.ledHighLow = 1) ?_ ?_ (Or.inl rfl)
    hrun
  · intro d c hd
    rwa [exec_highLow]
  · intro d hd
    unfold kerneltimerTimeover
    split_ifs <;> simp [hd]

theorem timeover_iterate {d : LedDev} {pin : LedPin} (hflag : d.ledFlag = pin.flag)
    (hphase : d.ledHighLow = 0 ∨ d.ledHighLow = 1) (n : Nat) :
    (kerneltimerTimeover^[n] d).ledFlag = pin.flag ∧
      (kerneltimerTimeover^[n] d).ledHighLow = (d.ledHighLow + n) % 2 ∧
      (kerneltimerTimeover^[n] d).level pin.other = d.level pin.other ∧
      (1 ≤ n → (kerneltimerTimeover^[n] d).level pin = decide ((d.ledHighLow + n) % 2 = 1)) := by
  induction n with
  | zero =>
    refine ⟨hflag, ?_, rfl, fun h => absurd h (by omega)⟩
    show d.ledHighLow = (d.ledHighLow + ((0 : Nat) : Int)) % 2
    omega
  | succ n ih =>
    obtain ⟨hf, hp, hother, _⟩ := ih
    have hne : (kerneltimerTimeover^[n] d).ledFlag ≠ pin.other.flag := by
      rw [hf]
      cases pin <;> decide
    rw [Function.iterate_succ_apply']
    refine ⟨by rw [kerneltimerTimeover_ledFlag, hf], ?_, ?_, fun _ => ?_⟩
    · rw [timeover_highLow hf, hp]
      push_cast
      split_ifs <;> omega
    · rw [timeover_level_of_ne hne, hother]
    · rw [timeover_level hf, hp]
      push_cast
      apply decide_eq_decide.mpr
      omega

/-- The pin that a turn command blinks. -/
def Blinks (cmd : UInt32) (pin : LedPin) : Prop :=
  cmd = LEFT ∧ pin = .gpg12 ∨ cmd = RIGHT ∧ pin = .gpg11

theorem ioctl_turn {cmd : UInt32} {pin : LedPin} (hcmd : Blinks cmd pin) (d : LedDev) :
    (d.ioctl cmd).ledFlag = pin.flag ∧ (d.ioctl cmd).ledHighLow = d.ledHighLow ∧
      (d.ioctl cmd).level pin.other = false := by
  rcases hcmd with ⟨rfl, rfl⟩ | ⟨rfl, rfl⟩ <;> exact ⟨rfl, rfl, rfl⟩

theorem blink_pins {d : LedDev} (hphase : d.ledHighLow = 0 ∨ d.ledHighLow = 1) {cmd : UInt32}
    {pin : LedPin} (hcmd : Blinks cmd pin) {n : Nat} (hn : 1 ≤ n) :
    (blink d cmd n).level pin = decide ((d.ledHighLow + n) % 2 = 1) ∧
      (blink d cmd n).level pin.other = false := by
  obtain ⟨hflag, hkept, hoff⟩ := ioctl_turn hcmd d
  obtain ⟨_, _, hother, hpin⟩ := timeover_iterate hflag (by rw [hkept]; exact hphase) n
  rw [hkept] at hpin
  exact ⟨hpin hn, hother.trans hoff⟩

theorem same_pins_iff (d e : LedDev) (pin : LedPin) :
    (d.gpg11 = e.gpg11 ∧ d.gpg12 = e.gpg12) ↔
      d.level pin = e.level pin ∧ d.level pin.other = e.level pin.other := by
  cases pin with
  | gpg11 => rfl
  | gpg12 => exact and_comm

/-- Two drivers, dark or not, blink alike after a turn command exactly when their phases agree. -/
theorem restart_alike_iff {d e : LedDev} (hd : Reachable d) (he : Reachable e) {cmd : UInt32}
    (hcmd : cmd = LEFT ∨ cmd = RIGHT) {n : Nat} (hn : 1 ≤ n) :
    ((blink d cmd n).gpg11 = (blink e cmd n).gpg11 ∧
        (blink d cmd n).gpg12 = (blink e cmd n).gpg12) ↔
      d.ledHighLow = e.ledHighLow := by
  have hpin : ∃ pin, Blinks cmd pin := by
    rcases hcmd with rfl | rfl
    · exact ⟨.gpg12, Or.inl ⟨rfl, rfl⟩⟩
    · exact ⟨.gpg11, Or.inr ⟨rfl, rfl⟩⟩
  obtain ⟨pin, hpin⟩ := hpin
  have hdp := highLow_cases hd
  have hep := highLow_cases he
  obtain ⟨hdon, hdoff⟩ := blink_pins hdp hpin hn
  obtain ⟨heon, heoff⟩ := blink_pins hep hpin hn
  rw [same_pins_iff _ _ pin, hdon, heon, hdoff, heoff, and_iff_left rfl, decide_eq_decide]
  omega

/-- An indicator that is cut off while it is lit. -/
def cutOff : List (CallEvent UInt32) :=
  [.call LEFT, .stmt 0, .stmt 0, .interrupt, .call 1, .stmt 1, .stmt 1, .stmt 1]

theorem reachable_start : Reachable ledInit := ⟨[], .start ledInit, rfl, rfl⟩

theorem reachable_cutOff : Reachable ⟨1, 1, false, false⟩ := ⟨cutOff, _, rfl, rfl⟩

theorem restart_alike_cutOff :
    (blink ledInit LEFT 1).gpg12 ≠ (blink ⟨1, 1, false, false⟩ LEFT 1).gpg12 := by
  intro h
  have hphase := (restart_alike_iff reachable_start reachable_cutOff (Or.inl rfl)
    (Nat.le_refl 1)).mp ⟨by decide, h⟩
  exact absurd hphase (by decide)

theorem restart_depends_on_history : ¬ ∀ d e : LedDev, Reachable d → Reachable e →
    Dark d → Dark e → ∀ n, 1 ≤ n → (blink d LEFT n).gpg11 = (blink e LEFT n).gpg11 ∧
      (blink d LEFT n).gpg12 = (blink e LEFT n).gpg12 := by
  intro h
  have hbad := h _ _ reachable_start reachable_cutOff ⟨rfl, rfl⟩ ⟨rfl, rfl⟩ 1 (Nat.le_refl 1)
  exact absurd hbad.2 (by decide)

end MdsBlackbox.Server.LedIoctl
