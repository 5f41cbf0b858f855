/- module: MdsBlackbox/Lib/Numeral
   layer: library
   digest: The digits of a number by long division, the leading one first. -/

import Mathlib.Data.Nat.Digits.Lemmas

set_option autoImplicit false
set_option relaxedAutoImplicit false

namespace MdsBlackbox.Lib.Numeral

/-- The `k` digits that dividing by falling powers of the base leaves. -/
def longDivision (b : Nat) : Nat → Nat → List Nat
  | 0, _ => []
  | k + 1, n => n / b ^ k :: longDivision b k (n % b ^ k)

variable {b k n : Nat}

@[simp] theorem length_longDivision (b k n : Nat) : (longDivision b k n).length = k := by
  induction k generalizing n with
  | zero => rfl
  | succ k ih => rw [longDivision, List.length_cons, ih]

theorem longDivision_lt (hb : 0 < b) (h : n < b ^ k) : ∀ d ∈ longDivision b k n, d < b := by
  induction k generalizing n with
  | zero => simp [longDivision]
  | succ k ih =>
    have hpos : 0 < b ^ k := Nat.pow_pos hb
    intro d hd
    rcases List.mem_cons.mp hd with rfl | hd
    · rw [Nat.div_lt_iff_lt_mul hpos, Nat.mul_comm, ← Nat.pow_succ]
      exact h
    · exact ih (Nat.mod_lt n hpos) d hd

theorem ofDigits_longDivision (hb : 0 < b) (h : n < b ^ k) :
    Nat.ofDigits b (longDivision b k n).reverse = n := by
  induction k generalizing n with
  | zero =>
    rw [Nat.pow_zero, Nat.lt_one_iff] at h
    exact h.symm
  | succ k ih =>
    rw [longDivision, Nat.ofDigits_reverse_cons, ih (Nat.mod_lt n (Nat.pow_pos hb)),
      length_longDivision]
    exact Nat.mod_add_div n (b ^ k)

theorem longDivision_eq_digits (hb : 1 < b) (hlow : b ^ k ≤ n) (hhigh : n < b ^ (k + 1)) :
    longDivision b (k + 1) n = (Nat.digits b n).reverse := by
  have hpos : 0 < b := by omega
  have hall : ∀ d ∈ (longDivision b (k + 1) n).reverse, d < b := by
    intro d hd
    exact longDivision_lt hpos hhigh d (List.mem_reverse.mp hd)
  have hleading : ∀ hne : (longDivision b (k + 1) n).reverse ≠ [],
      (longDivision b (k + 1) n).reverse.getLast hne ≠ 0 := by
    intro hne
    rw [List.getLast_reverse]
    exact (Nat.div_pos hlow (Nat.pow_pos hpos)).ne'
  have hdigits := Nat.digits_ofDigits b hb _ hall hleading
  rw [ofDigits_longDivision hpos hhigh] at hdigits
  rw [hdigits, List.reverse_reverse]

end MdsBlackbox.Lib.Numeral
