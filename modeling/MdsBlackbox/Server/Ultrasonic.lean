/- module: MdsBlackbox/Server/Ultrasonic
   source: SERVER/rc_server/ultrasonic.c, SERVER/rc_server/ultrasonic.h
   digest: The echo interrupt handler of the distance sensor, and the read that reports. -/

import Mathlib.Logic.Function.Iterate
import MdsBlackbox.Lib.CInt
import MdsBlackbox.Lib.Streak

set_option autoImplicit false
set_option relaxedAutoImplicit false

namespace MdsBlackbox.Server.Ultrasonic

open MdsBlackbox.Lib.CInt
open MdsBlackbox.Lib.Streak

abbrev ULTRA_SIG : UInt8 := 6

/-- `struct timeval` with the 32-bit `long` of the target. -/
structure Timeval where
  sec : Int32
  usec : Int32
  deriving DecidableEq

/-- Microseconds since the epoch. -/
def Timeval.micros (t : Timeval) : Int := t.sec.toInt * 1000000 + t.usec.toInt

def Timeval.Normalised (t : Timeval) : Prop := 0 ≤ t.usec.toInt ∧ t.usec.toInt < 1000000

instance (t : Timeval) : Decidable t.Normalised :=
  inferInstanceAs (Decidable (0 ≤ t.usec.toInt ∧ t.usec.toInt < 1000000))

structure Echo where
  before : Timeval
  after : Timeval
  distanceCm : Int32
  ultraCnt : Int32
  deriving DecidableEq

def Echo.loaded : Echo := ⟨⟨0, 0⟩, ⟨0, 0⟩, 0, 0⟩

/-- One call of the handler, which finds the echo pin at `level` and the clock at `now`. -/
def ultraEchoRising (e : Echo) (level : Bool) (now : Timeval) : Echo :=
  if level then { e with before := now }
  else
    let distanceCm :=
      ((now.sec - e.before.sec) * 1000000 + (now.usec - e.before.usec)) / 58
    { before := ⟨0, 0⟩
      after := ⟨0, 0⟩
      distanceCm := distanceCm
      ultraCnt := if distanceCm < 15 then e.ultraCnt + 1 else 0 }

def distanceFlag (e : Echo) : UInt8 := if 5 < e.ultraCnt then ULTRA_SIG else 0

/-- The read stores its flag `count` times, always into the first byte, and returns 0. -/
def ultrasonicRead (e : Echo) (buf : List UInt8) (count : Nat) : List UInt8 × Int32 :=
  ((fun b => b.set 0 (distanceFlag e))^[count] buf, 0)

@[simp] theorem ultraEchoRising_rising (e : Echo) (now : Timeval) :
    (ultraEchoRising e true now).ultraCnt = e.ultraCnt := rfl

@[simp] theorem ultraEchoRising_falling (e : Echo) (now : Timeval) :
    (ultraEchoRising e false now).ultraCnt =
      if (ultraEchoRising e false now).distanceCm < 15 then e.ultraCnt + 1 else 0 := rfl

theorem distanceCm_lt_iff (e : Echo) (now : Timeval) :
    (ultraEchoRising e false now).distanceCm < 15 ↔
      (now.micros - e.before.micros).bmod (2 ^ 32) < 870 := by
  have htime : (now.sec.toInt - e.before.sec.toInt) * 1000000 +
      (now.usec.toInt - e.before.usec.toInt) = now.micros - e.before.micros := by
    unfold Timeval.micros
    omega
  show ((now.sec - e.before.sec) * 1000000 + (now.usec - e.before.usec)) / 58 < 15 ↔ _
  rw [div_lt_iff (by decide) (by decide), toInt_scaled_sub_add_sub]
  exact iff_of_eq (congrArg (fun w : Int => w.bmod (2 ^ 32) < 870) htime)

/-! The counter against the measurements. -/

/-- How many of the latest measurements, the most recent first, were nearer than 15 in a row. -/
def nearRun (ds : List Int32) : Nat := (ds.takeWhile (· < 15)).length

theorem nearRun_cons (d : Int32) (ds : List Int32) :
    nearRun (d :: ds) = if d < 15 then nearRun ds + 1 else 0 := by
  by_cases h : d < 15 <;> simp [nearRun, h]

theorem counts_falling {e : Echo} {ds : List Int32} (h : e.ultraCnt = Int32.ofNat (nearRun ds))
    (now : Timeval) :
    (ultraEchoRising e false now).ultraCnt =
      Int32.ofNat (nearRun ((ultraEchoRising e false now).distanceCm :: ds)) := by
  rw [ultraEchoRising_falling, nearRun_cons, h]
  split_ifs
  · rw [Int32.ofNat_add]
    rfl
  · rfl

theorem near_take_six {ds : List Int32} (h : 5 < nearRun ds) :
    (ds.take 6).length = 6 ∧ ∀ d ∈ ds.take 6, d < 15 := by
  obtain ⟨hlen, hnear⟩ := (le_length_takeWhile_iff (fun d : Int32 => decide (d < 15))).mp h
  refine ⟨by rw [List.length_take]; omega, fun d hd => ?_⟩
  simpa using hnear d hd

theorem near_of_counter {e : Echo} {ds : List Int32} (h : e.ultraCnt = Int32.ofNat (nearRun ds))
    (hcnt : 5 < e.ultraCnt) : (ds.take 6).length = 6 ∧ ∀ d ∈ ds.take 6, d < 15 := by
  rw [h] at hcnt
  exact near_take_six (lt_of_ofNat_lt (k := 5) (by decide) hcnt)

end MdsBlackbox.Server.Ultrasonic
