/- module: MdsBlackbox/Client/Remote
   source: CLIENT/rc_client/rc_client.c
   digest: The touch areas of the remote control and the frame that each of them sends. -/

import Mathlib.Data.List.Basic

set_option autoImplicit false
set_option relaxedAutoImplicit false

namespace MdsBlackbox.Client.Remote

abbrev MAXLINE : Nat := 30

inductive Button
  | up | down | right | left | stop
  deriving DecidableEq

/-- The chain of tests on a mouse-down event; a touch beside the buttons does nothing. -/
def touched (x y : Nat) : Option Button :=
  if 280 ≤ x ∧ x ≤ 355 ∧ 25 ≤ y ∧ y ≤ 100 then some .up
  else if 280 ≤ x ∧ x ≤ 355 ∧ 185 ≤ y ∧ y ≤ 260 then some .down
  else if 360 ≤ x ∧ x ≤ 435 ∧ 105 ≤ y ∧ y ≤ 180 then some .right
  else if 200 ≤ x ∧ x ≤ 270 ∧ 105 ≤ y ∧ y ≤ 175 then some .left
  else if 280 ≤ x ∧ x ≤ 355 ∧ 105 ≤ y ∧ y ≤ 180 then some .stop
  else none

def Button.text : Button → UInt8
  | .up => '1'.toUInt8
  | .down => '2'.toUInt8
  | .right => '3'.toUInt8
  | .left => '4'.toUInt8
  | .stop => '5'.toUInt8

/-- The bytes given to `write`: the text, its NUL, and the zeros of `memset`. -/
def frame (k : Button) : List UInt8 := k.text :: List.replicate (MAXLINE - 1) 0

theorem length_frame (k : Button) : (frame k).length = MAXLINE := by
  simp [frame]

theorem frame_padding (k : Button) {j : Nat} {b : UInt8} (hj : 0 < j)
    (hb : (frame k)[j]? = some b) : b = 0 := by
  obtain ⟨i, rfl⟩ := Nat.exists_eq_succ_of_ne_zero (Nat.pos_iff_ne_zero.mp hj)
  rw [frame, List.getElem?_cons_succ] at hb
  exact List.eq_of_mem_replicate (List.mem_of_getElem? hb)

end MdsBlackbox.Client.Remote
