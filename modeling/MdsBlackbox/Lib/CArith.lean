/- module: MdsBlackbox/Lib/CArith
   layer: library
   digest: The operators of the C type int, with overflow that wraps or that faults. -/

import Mathlib.Algebra.Order.Ring.Int
import MdsBlackbox.Lib.Loop

set_option autoImplicit false
set_option relaxedAutoImplicit false

namespace MdsBlackbox.Lib.CArith

open MdsBlackbox.Lib.Loop

inductive Fault
  | divideByZero
  | overflow
  deriving DecidableEq

/-- What becomes of a result that does not fit: its low 32 bits are kept, as machines do, or it is
a fault, as the language has it. -/
inductive Overflow
  | wraps
  | faults
  deriving DecidableEq

def InRange (x : Int) : Prop := -2 ^ 31 ≤ x ∧ x < 2 ^ 31

instance (x : Int) : Decidable (InRange x) := inferInstanceAs (Decidable (_ ∧ _))

def fit (m : Overflow) (x : Int) : Outcome Fault Int32 :=
  if m = .faults ∧ ¬ InRange x then .fault .overflow else .done (Int32.ofInt x)

def add (m : Overflow) (a b : Int32) : Outcome Fault Int32 := fit m (a.toInt + b.toInt)

def sub (m : Overflow) (a b : Int32) : Outcome Fault Int32 := fit m (a.toInt - b.toInt)

def mul (m : Overflow) (a b : Int32) : Outcome Fault Int32 := fit m (a.toInt * b.toInt)

/-- Division truncates. -/
def div (m : Overflow) (a b : Int32) : Outcome Fault Int32 :=
  if b = 0 then .fault .divideByZero else fit m (a.toInt.tdiv b.toInt)

variable {m : Overflow}

theorem fit_of_inRange {x : Int} (h : InRange x) : fit m x = .done (Int32.ofInt x) :=
  if_neg fun hover => hover.2 h

theorem fit_wraps (x : Int) : fit .wraps x = .done (Int32.ofInt x) :=
  if_neg fun hover => nomatch hover.1

theorem div_zero (a : Int32) : div m a 0 = .fault .divideByZero := if_pos rfl

theorem div_wraps (a : Int32) {b : Int32} (h : b ≠ 0) :
    div .wraps a b = .done (Int32.ofInt (a.toInt.tdiv b.toInt)) := by
  rw [div, if_neg h, fit_wraps]

/-! The operators on natural numbers below `2 ^ 31`. -/

section
variable {a b : Nat}

theorem toInt_ofNat (ha : a < 2 ^ 31) : (Int32.ofNat a).toInt = a := Int32.toInt_ofNat_of_lt ha

theorem ofNat_ne_zero (hpos : 0 < a) (ha : a < 2 ^ 31) : Int32.ofNat a ≠ 0 := by
  intro h
  have hint : (Int32.ofNat a).toInt = 0 := by rw [h]; rfl
  rw [toInt_ofNat ha] at hint
  omega

theorem ofNat_lt_ofNat (ha : a < 2 ^ 31) (hb : b < 2 ^ 31) :
    Int32.ofNat a < Int32.ofNat b ↔ a < b := by
  rw [Int32.lt_iff_toInt_lt, toInt_ofNat ha, toInt_ofNat hb]
  exact Int.ofNat_lt

theorem exists_eq_ofNat {x : Int32} (h : 0 ≤ x) : ∃ n < 2 ^ 31, x = Int32.ofNat n := by
  have hlow : 0 ≤ x.toInt := Int32.le_iff_toInt_le.mp h
  have hhigh : x.toInt < 2 ^ 31 := x.toInt_lt
  refine ⟨x.toInt.toNat, by omega, Int32.toInt_inj.mp ?_⟩
  rw [toInt_ofNat (by omega)]
  omega

theorem fit_natCast (ha : a < 2 ^ 31) : fit m a = .done (Int32.ofNat a) :=
  fit_of_inRange ⟨by omega, by omega⟩

theorem add_ofNat (h : a + b < 2 ^ 31) :
    add m (Int32.ofNat a) (Int32.ofNat b) = .done (Int32.ofNat (a + b)) := by
  rw [add, toInt_ofNat (by omega), toInt_ofNat (by omega), ← fit_natCast (m := m) h]
  push_cast
  rfl

theorem sub_ofNat (hb : b ≤ a) (ha : a < 2 ^ 31) :
    sub m (Int32.ofNat a) (Int32.ofNat b) = .done (Int32.ofNat (a - b)) := by
  rw [sub, toInt_ofNat ha, toInt_ofNat (by omega), ← Int.ofNat_sub hb]
  exact fit_natCast (by omega)

theorem mul_ofNat (ha : a < 2 ^ 31) (hb : b < 2 ^ 31) (h : a * b < 2 ^ 31) :
    mul m (Int32.ofNat a) (Int32.ofNat b) = .done (Int32.ofNat (a * b)) := by
  rw [mul, toInt_ofNat ha, toInt_ofNat hb, ← Int.natCast_mul]
  exact fit_natCast h

theorem div_ofNat (ha : a < 2 ^ 31) (hpos : 0 < b) (hb : b < 2 ^ 31) :
    div m (Int32.ofNat a) (Int32.ofNat b) = .done (Int32.ofNat (a / b)) := by
  have hle : a / b ≤ a := Nat.div_le_self a b
  rw [div, if_neg (ofNat_ne_zero hpos hb), toInt_ofNat ha, toInt_ofNat hb, ← Int.ofNat_tdiv]
  exact fit_natCast (by omega)

end

end MdsBlackbox.Lib.CArith
