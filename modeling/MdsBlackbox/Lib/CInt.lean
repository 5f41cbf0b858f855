/- module: MdsBlackbox/Lib/CInt
   layer: library
   digest: Counting and measuring with the 32-bit signed integers of C. -/

import Mathlib.Algebra.Order.Ring.Int

set_option autoImplicit false
set_option relaxedAutoImplicit false

namespace MdsBlackbox.Lib.CInt

theorem lt_of_ofNat_lt {k n : Nat} (hk : k < 2 ^ 31) (h : Int32.ofNat k < Int32.ofNat n) :
    k < n := by
  rw [Int32.lt_iff_toInt_lt, Int32.toInt_ofNat_of_lt hk] at h
  by_contra hn
  rw [Int32.toInt_ofNat_of_lt (by omega)] at h
  omega

theorem toInt_succ {c : Int32} (h : c.toInt < 2 ^ 31 - 1) : (c + 1).toInt = c.toInt + 1 := by
  have hlow := c.le_toInt
  rw [Int32.toInt_add, Int32.toInt_one, Int.bmod_eq_of_le (by omega) (by omega)]

theorem toInt_scaled_sub_add_sub (a b k c d : Int32) :
    ((a - b) * k + (c - d)).toInt =
      ((a.toInt - b.toInt) * k.toInt + (c.toInt - d.toInt)).bmod (2 ^ 32) := by
  rw [Int32.toInt_add, Int32.toInt_mul, Int32.toInt_sub, Int32.toInt_sub, Int.bmod_mul_bmod,
    Int.bmod_add_bmod, Int.add_bmod_bmod]

theorem div_lt_iff {x d n : Int32} (hd : 0 < d.toInt) (hn : 0 < n.toInt) :
    x / d < n ↔ x.toInt < n.toInt * d.toInt := by
  have hne : d ≠ -1 := by
    rintro rfl
    exact absurd hd (by decide)
  rw [Int32.lt_iff_toInt_lt, Int32.toInt_div_of_ne_right x d hne]
  constructor
  · intro h
    exact Int.lt_mul_of_tdiv_lt hd h
  · intro h
    rcases Int.lt_or_le x.toInt 0 with hneg | hpos
    · have hquot : x.toInt.tdiv d.toInt ≤ Int.tdiv 0 d.toInt :=
        Int.tdiv_le_tdiv hd (Int.le_of_lt hneg)
      rw [Int.zero_tdiv] at hquot
      omega
    · rw [Int.tdiv_eq_ediv_of_nonneg hpos]
      exact (Int.ediv_lt_iff_lt_mul hd).mpr h

end MdsBlackbox.Lib.CInt
