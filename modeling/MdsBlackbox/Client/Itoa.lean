/- module: MdsBlackbox/Client/Itoa
   source: CLIENT/rc_client/rc_client.c
   digest: The conversion of a number to decimal text, and the numbers that it can convert. -/

import Mathlib.Logic.Function.Iterate
import Mathlib.Tactic.NormNum
import Mathlib.Tactic.NormNum.DivMod
import MdsBlackbox.Lib.CArith
import MdsBlackbox.Lib.Numeral

set_option autoImplicit false
set_option relaxedAutoImplicit false

namespace MdsBlackbox.Client.Itoa

open MdsBlackbox.Lib.Loop
open MdsBlackbox.Lib.CArith
open MdsBlackbox.Lib.Numeral

/-- An assignment `*(str+i) = c`. -/
abbrev Store := Int32 × UInt8

def toChar (c : Int32) : UInt8 := c.toUInt32.toUInt8

structure Scale where
  deg : Int32
  cnt : Int32
  deriving DecidableEq

/-- A turn of `while(1)`. -/
def countTurn (m : Overflow) (num : Int32) (s : Scale) : Outcome Fault (Turn Scale Scale) := do
  let q ← div m num s.deg
  if 0 < q then
    let cnt ← add m s.cnt 1
    let deg ← mul m s.deg 10
    return .next ⟨deg, cnt⟩
  else return .leave s

structure Digits where
  i : Int32
  num : Int32
  deg : Int32
  str : List Store
  deriving DecidableEq

/-- A turn of `for(i=0; i<cnt; i++)`. -/
def digitTurn (m : Overflow) (cnt : Int32) (s : Digits) :
    Outcome Fault (Turn Digits Digits) := do
  if s.i < cnt then
    let c ← add m (← div m s.num s.deg) 48
    let p ← mul m (← div m s.num s.deg) s.deg
    let num ← sub m s.num p
    let deg ← div m s.deg 10
    let i ← add m s.i 1
    return .next ⟨i, num, deg, s.str ++ [(s.i, toChar c)]⟩
  else return .leave s

/-- The assignments to `str` in their order. -/
def itoa (m : Overflow) (turns : Nat) (num : Int32) : Outcome Fault (List Store) := do
  let s ← loop (countTurn m num) turns ⟨1, 0⟩
  let deg ← div m s.deg 10
  let t ← loop (digitTurn m s.cnt) turns ⟨0, num, deg, []⟩
  return t.str ++ [(t.i, 0)]

/-- The characters from `str + i` on. -/
def storesFrom : Nat → List UInt8 → List Store
  | _, [] => []
  | i, c :: cs => (Int32.ofNat i, c) :: storesFrom (i + 1) cs

def digitChar (d : Nat) : UInt8 := UInt8.ofNat (48 + d)

def charDigit (c : UInt8) : Nat := c.toNat - 48

theorem storesFrom_concat (i : Nat) (cs : List UInt8) (c : UInt8) :
    storesFrom i (cs ++ [c]) = storesFrom i cs ++ [(Int32.ofNat (i + cs.length), c)] := by
  induction cs generalizing i with
  | nil => rfl
  | cons d cs ih =>
    have hlen : i + 1 + cs.length = i + (cs.length + 1) := by omega
    rw [List.cons_append, storesFrom, ih, storesFrom, List.cons_append, List.length_cons, hlen]

theorem toChar_digit {d : Nat} (h : d < 10) : toChar (Int32.ofNat (d + 48)) = digitChar d := by
  revert d
  decide

theorem charDigit_digitChar {d : Nat} (h : d < 10) : charDigit (digitChar d) = d := by
  revert d
  decide

theorem map_charDigit {ds : List Nat} (h : ∀ d ∈ ds, d < 10) :
    (ds.map digitChar).map charDigit = ds := by
  rw [List.map_map]
  calc ds.map (charDigit ∘ digitChar) = ds.map id :=
        List.map_congr_left fun d hd => charDigit_digitChar (h d hd)
    _ = ds := List.map_id ds

theorem itoa_mono (m : Overflow) (num : Int32) {n k : Nat} (h : n ≤ k) :
    (itoa m n num).Le (itoa m k num) := by
  refine bind_mono (loop_mono h _) fun s => bind_mono (Outcome.Le.refl _) fun deg => ?_
  exact bind_mono (loop_mono h _) fun t => Outcome.Le.refl _

/-! The digit count. -/

section
variable {m : Overflow} {n k : Nat}

theorem countTurn_next (hle : 10 ^ k ≤ n) (hn : n < 2 ^ 31) (hk : 10 ^ (k + 1) < 2 ^ 31) :
    countTurn m (Int32.ofNat n) ⟨Int32.ofNat (10 ^ k), Int32.ofNat k⟩ =
      .done (.next ⟨Int32.ofNat (10 ^ (k + 1)), Int32.ofNat (k + 1)⟩) := by
  have hpos : 0 < 10 ^ k := Nat.pow_pos (by decide)
  have hkn : k < 10 ^ k := Nat.lt_pow_self (by decide)
  have hq : (0 : Int32) < Int32.ofNat (n / 10 ^ k) := by
    have hle' : n / 10 ^ k ≤ n := Nat.div_le_self _ _
    exact (ofNat_lt_ofNat (a := 0) (by decide) (by omega)).mpr (Nat.div_pos hle hpos)
  have hcnt : add m (Int32.ofNat k) 1 = .done (Int32.ofNat (k + 1)) :=
    add_ofNat (b := 1) (by omega)
  have hdeg : mul m (Int32.ofNat (10 ^ k)) 10 = .done (Int32.ofNat (10 ^ (k + 1))) :=
    mul_ofNat (b := 10) (by omega) (by decide) hk
  rw [countTurn, div_ofNat hn hpos (by omega)]
  simp [hq, hcnt, hdeg]

theorem countTurn_leave (hlt : n < 10 ^ k) (hn : n < 2 ^ 31) (hk : 10 ^ k < 2 ^ 31) :
    countTurn m (Int32.ofNat n) ⟨Int32.ofNat (10 ^ k), Int32.ofNat k⟩ =
      .done (.leave ⟨Int32.ofNat (10 ^ k), Int32.ofNat k⟩) := by
  have hpos : 0 < 10 ^ k := Nat.pow_pos (by decide)
  have hq : ¬ (0 : Int32) < Int32.ofNat (n / 10 ^ k) := by
    rw [Nat.div_eq_of_lt hlt]
    decide
  rw [countTurn, div_ofNat hn hpos hk]
  simp [hq]

theorem count_reaches (hn : n < 2 ^ 31) (hk : 10 ^ k < 2 ^ 31) (hle : ∀ j < k, 10 ^ j ≤ n)
    (turns : Nat) : loop (countTurn m (Int32.ofNat n)) (turns + k) ⟨1, 0⟩ =
      loop (countTurn m (Int32.ofNat n)) turns ⟨Int32.ofNat (10 ^ k), Int32.ofNat k⟩ := by
  induction k generalizing turns with
  | zero => rfl
  | succ k ih =>
    have hk' : 10 ^ k < 2 ^ 31 := by
      rw [Nat.pow_succ] at hk
      omega
    have hturn := countTurn_next (m := m) (hle k (Nat.lt_succ_self k)) hn hk
    rw [← Nat.add_assoc, Nat.add_right_comm, ih hk' (fun j hj => hle j (by omega))]
    exact loop_next hturn turns

theorem count_ends {b : Nat} (hn : n < 10 ^ b) (hb : 10 ^ b < 2 ^ 31) :
    ∃ k ≤ b, n < 10 ^ k ∧ (∀ j < k, 10 ^ j ≤ n) ∧ ∀ turns, b < turns →
      loop (countTurn m (Int32.ofNat n)) turns ⟨1, 0⟩ =
        .done ⟨Int32.ofNat (10 ^ k), Int32.ofNat k⟩ := by
  have hex : ∃ k, n < 10 ^ k := ⟨b, hn⟩
  have hle : Nat.find hex ≤ b := Nat.find_min' hex hn
  have hbelow : ∀ j < Nat.find hex, 10 ^ j ≤ n := fun j hj => Nat.not_lt.mp (Nat.find_min hex hj)
  have hfit : 10 ^ Nat.find hex < 2 ^ 31 :=
    Nat.lt_of_le_of_lt (Nat.pow_le_pow_right (by decide) hle) hb
  refine ⟨Nat.find hex, hle, Nat.find_spec hex, hbelow, fun turns hturns => ?_⟩
  have hn31 : n < 2 ^ 31 := Nat.lt_trans hn hb
  obtain ⟨t, rfl⟩ : ∃ t, turns = t + 1 + Nat.find hex := ⟨turns - 1 - Nat.find hex, by omega⟩
  rw [count_reaches hn31 hfit hbelow]
  exact loop_leave (countTurn_leave (Nat.find_spec hex) hn31 hfit) t

/-! The digits. -/

theorem digitTurn_next {r i c : Nat} {w : List Store} (hn : n < 10 ^ (r + 1))
    (hr : 10 ^ (r + 1) < 2 ^ 31) (hi : i < c) (hc : c < 2 ^ 31) :
    digitTurn m (Int32.ofNat c) ⟨Int32.ofNat i, Int32.ofNat n, Int32.ofNat (10 ^ r), w⟩ =
      .done (.next ⟨Int32.ofNat (i + 1), Int32.ofNat (n % 10 ^ r), Int32.ofNat (10 ^ r / 10),
        w ++ [(Int32.ofNat i, digitChar (n / 10 ^ r))]⟩) := by
  have hpos : 0 < 10 ^ r := Nat.pow_pos (by decide)
  have hpow : 10 ^ (r + 1) = 10 ^ r * 10 := Nat.pow_succ ..
  have hn31 : n < 2 ^ 31 := by omega
  have hr31 : 10 ^ r < 2 ^ 31 := by omega
  have hdigit : n / 10 ^ r < 10 := by
    rw [Nat.div_lt_iff_lt_mul hpos, Nat.mul_comm, ← hpow]
    exact hn
  have hprod : n / 10 ^ r * 10 ^ r ≤ n := Nat.div_mul_le_self _ _
  have hrest : n - n / 10 ^ r * 10 ^ r = n % 10 ^ r := by
    rw [Nat.mod_eq_sub, Nat.mul_comm]
  have hq : div m (Int32.ofNat n) (Int32.ofNat (10 ^ r)) = .done (Int32.ofNat (n / 10 ^ r)) :=
    div_ofNat hn31 hpos hr31
  have hchar : add m (Int32.ofNat (n / 10 ^ r)) 48 = .done (Int32.ofNat (n / 10 ^ r + 48)) :=
    add_ofNat (b := 48) (by omega)
  have hmul : mul m (Int32.ofNat (n / 10 ^ r)) (Int32.ofNat (10 ^ r)) =
      .done (Int32.ofNat (n / 10 ^ r * 10 ^ r)) := mul_ofNat (by omega) hr31 (by omega)
  have hsub : sub m (Int32.ofNat n) (Int32.ofNat (n / 10 ^ r * 10 ^ r)) =
      .done (Int32.ofNat (n % 10 ^ r)) := by
    rw [sub_ofNat hprod hn31, hrest]
  have hdeg : div m (Int32.ofNat (10 ^ r)) 10 = .done (Int32.ofNat (10 ^ r / 10)) :=
    div_ofNat (b := 10) hr31 (by decide) (by decide)
  have hnext : add m (Int32.ofNat i) 1 = .done (Int32.ofNat (i + 1)) :=
    add_ofNat (b := 1) (by omega)
  rw [digitTurn, if_pos ((ofNat_lt_ofNat (by omega) hc).mpr hi)]
  simp only [hq, done_bind, hchar, hmul, hsub, hdeg, hnext, pure_eq, toChar_digit hdigit]

theorem digits_written {r i c : Nat} {w : List Store} (hn : n < 10 ^ r) (hr : 10 ^ r < 2 ^ 31)
    (hi : i + r = c) (hc : c < 2 ^ 31) {turns : Nat} (hturns : r < turns) :
    ∃ t, loop (digitTurn m (Int32.ofNat c)) turns
        ⟨Int32.ofNat i, Int32.ofNat n, Int32.ofNat (10 ^ r / 10), w⟩ = .done t ∧
      t.i = Int32.ofNat c ∧ t.str = w ++ storesFrom i ((longDivision 10 r n).map digitChar) := by
  obtain ⟨turns, rfl⟩ : ∃ t, turns = t + 1 := Nat.exists_eq_succ_of_ne_zero (by omega)
  induction r generalizing i n w turns with
  | zero =>
    obtain rfl : i = c := hi
    refine ⟨⟨Int32.ofNat i, Int32.ofNat n, Int32.ofNat (10 ^ 0 / 10), w⟩, loop_leave ?_ turns, rfl,
      (List.append_nil w).symm⟩
    have hend : ¬ Int32.ofNat i < Int32.ofNat i := by
      rw [ofNat_lt_ofNat hc hc]
      exact Nat.lt_irrefl i
    rw [digitTurn, if_neg hend]
    rfl
  | succ r ih =>
    have hpow : 10 ^ (r + 1) / 10 = 10 ^ r := by
      rw [Nat.pow_succ]
      exact Nat.mul_div_cancel _ (by decide)
    have hr' : 10 ^ r < 2 ^ 31 := by
      rw [Nat.pow_succ] at hr
      omega
    obtain ⟨turns, rfl⟩ : ∃ t, turns = t + 1 := Nat.exists_eq_succ_of_ne_zero (by omega)
    obtain ⟨t, ht, hti, htstr⟩ := ih (n := n % 10 ^ r) (i := i + 1)
      (w := w ++ [(Int32.ofNat i, digitChar (n / 10 ^ r))])
      (Nat.mod_lt _ (Nat.pow_pos (by decide))) hr' (by omega) turns (by omega)
    refine ⟨t, ?_, hti, ?_⟩
    · rw [hpow, loop_next (digitTurn_next hn hr (by omega) hc)]
      exact ht
    · rw [htstr, List.append_assoc]
      rfl

theorem itoa_writes (hn : n < 10 ^ 9) :
    ∃ k ≤ 9, n < 10 ^ k ∧ (∀ j < k, 10 ^ j ≤ n) ∧ ∀ turns, 9 < turns →
      itoa m turns (Int32.ofNat n) =
        .done (storesFrom 0 ((longDivision 10 k n).map digitChar ++ [0])) := by
  obtain ⟨k, hk, hlt, hle, hcount⟩ := count_ends (m := m) hn (by decide)
  have hfit : 10 ^ k < 2 ^ 31 :=
    Nat.lt_of_le_of_lt (Nat.pow_le_pow_right (by decide) hk) (by decide : 10 ^ 9 < 2 ^ 31)
  refine ⟨k, hk, hlt, hle, fun turns hturns => ?_⟩
  have hdeg : div m (Int32.ofNat (10 ^ k)) 10 = .done (Int32.ofNat (10 ^ k / 10)) :=
    div_ofNat (b := 10) hfit (by decide) (by decide)
  obtain ⟨t, ht, hti, htstr⟩ := digits_written (m := m) (i := 0) (c := k) (w := []) hlt hfit
    (Nat.zero_add k) (by omega) (Nat.lt_of_le_of_lt hk hturns)
  have hdigits : loop (digitTurn m (Int32.ofNat k)) turns
      ⟨0, Int32.ofNat n, Int32.ofNat (10 ^ k / 10), []⟩ = .done t := ht
  rw [itoa, hcount turns hturns, done_bind, hdeg, done_bind, hdigits, done_bind, hti, htstr,
    storesFrom_concat, List.length_map, length_longDivision, Nat.zero_add]
  rfl

end

/-- From 1 to 999999999, whatever overflow does: the digits without a leading zero, and one NUL. -/
theorem itoa_decimal (m : Overflow) {num : Int32} (hlow : 1 ≤ num) (hhigh : num < 1000000000) :
    ∃ text : List UInt8,
      (∃ turns, itoa m turns num = .done (storesFrom 0 (text ++ [0]))) ∧
      text = (Nat.digits 10 num.toInt.toNat).reverse.map digitChar ∧
      text.head? ≠ some (digitChar 0) ∧ (text ++ [0]).length ≤ 10 ∧
      Nat.ofDigits 10 (text.reverse.map charDigit) = num.toInt.toNat := by
  have hnonneg : (0 : Int32) ≤ num := Int32.le_trans (by decide) hlow
  obtain ⟨n, hn31, rfl⟩ := exists_eq_ofNat hnonneg
  have hpos : 1 ≤ n := by
    by_contra hzero
    obtain rfl : n = 0 := by omega
    exact absurd hlow (by decide)
  have hn : n < 10 ^ 9 := (ofNat_lt_ofNat (b := 1000000000) hn31 (by decide)).mp hhigh
  rw [toInt_ofNat hn31, Int.toNat_natCast]
  obtain ⟨k, hk, hlt, hle, hwrites⟩ := itoa_writes (m := m) hn
  obtain ⟨k, rfl⟩ : ∃ j, k = j + 1 := by
    refine Nat.exists_eq_succ_of_ne_zero ?_
    rintro rfl
    omega
  have hall : ∀ d ∈ longDivision 10 (k + 1) n, d < 10 := longDivision_lt (by decide) hlt
  refine ⟨(longDivision 10 (k + 1) n).map digitChar, ⟨10, hwrites 10 (by decide)⟩, ?_, ?_, ?_, ?_⟩
  · rw [longDivision_eq_digits (by decide) (hle k (Nat.lt_succ_self k)) hlt]
  · -- the leading digit is `n / 10 ^ k`
    have hlead : 0 < n / 10 ^ k :=
      Nat.div_pos (hle k (Nat.lt_succ_self k)) (Nat.pow_pos (by decide))
    have hten : n / 10 ^ k < 10 := hall _ List.mem_cons_self
    intro hzero
    have hchar : digitChar (n / 10 ^ k) = digitChar 0 := Option.some.inj hzero
    have hdigit := congrArg charDigit hchar
    rw [charDigit_digitChar hten, charDigit_digitChar (by decide)] at hdigit
    omega
  · rw [List.length_append, List.length_map, length_longDivision]
    exact Nat.succ_le_succ hk
  · rw [List.map_reverse, map_charDigit hall]
    exact ofDigits_longDivision (by decide) hlt

theorem itoa_decimal_zeros : ∃ text : List UInt8,
    (∃ turns, itoa .faults turns 102030 = .done (storesFrom 0 (text ++ [0]))) ∧
      text = [49, 48, 50, 48, 51, 48] := by
  have hlow : (1 : Int32) ≤ 102030 := by decide
  have hhigh : (102030 : Int32) < 1000000000 := by decide
  obtain ⟨text, hturns, htext, _⟩ := itoa_decimal .faults hlow hhigh
  refine ⟨text, hturns, htext.trans ?_⟩
  have hnum : (102030 : Int32).toInt.toNat = 102030 := by decide
  have hdigits : Nat.digits 10 102030 = [0, 3, 0, 2, 0, 1] := by norm_num
  rw [hnum, hdigits]
  rfl

/-! Numbers that do not fit, on a machine that wraps. -/

/-- The value of `deg` after a further turn of the second loop. -/
def lower (deg : Int32) : Int32 := Int32.ofInt (deg.toInt.tdiv 10)

theorem digitTurn_wraps {cnt i deg : Int32} (num : Int32) (w : List Store) (hi : i < cnt)
    (hdeg : deg ≠ 0) : ∃ num' w', digitTurn .wraps cnt ⟨i, num, deg, w⟩ =
      .done (.next ⟨Int32.ofInt (i.toInt + 1), num', lower deg, w'⟩) := by
  have hten : (10 : Int32) ≠ 0 := by decide
  rw [digitTurn, if_pos hi]
  simp only [div_wraps _ hdeg, div_wraps _ hten, add, sub, mul, fit_wraps, done_bind, pure_eq]
  exact ⟨_, _, rfl⟩

theorem digitTurn_divideByZero {m : Overflow} {cnt i num : Int32} {w : List Store} (hi : i < cnt) :
    digitTurn m cnt ⟨i, num, 0, w⟩ = .fault .divideByZero := by
  rw [digitTurn, if_pos hi, div_zero]
  rfl

theorem digits_divideByZero {cnt i num deg : Int32} {w : List Store} (j : Nat)
    (hdeg : lower^[j] deg = 0) (hi : i.toInt + j < cnt.toInt) {turns : Nat} (hturns : j < turns) :
    loop (digitTurn .wraps cnt) turns ⟨i, num, deg, w⟩ = .fault .divideByZero := by
  induction j generalizing i num deg w turns with
  | zero =>
    obtain ⟨turns, rfl⟩ : ∃ t, turns = t + 1 := Nat.exists_eq_succ_of_ne_zero (by omega)
    have hlt : i < cnt := Int32.lt_iff_toInt_lt.mpr (by omega)
    obtain rfl : deg = 0 := hdeg
    exact loop_fault (digitTurn_divideByZero hlt) turns
  | succ j ih =>
    obtain ⟨turns, rfl⟩ : ∃ t, turns = t + 1 := Nat.exists_eq_succ_of_ne_zero (by omega)
    have hlt : i < cnt := Int32.lt_iff_toInt_lt.mpr (by omega)
    by_cases hzero : deg = 0
    · subst hzero
      exact loop_fault (digitTurn_divideByZero hlt) turns
    · obtain ⟨num', w', hturn⟩ := digitTurn_wraps num w hlt hzero
      have hcnt : cnt.toInt < 2 ^ 31 := cnt.toInt_lt
      have hlow : -2 ^ 31 ≤ i.toInt := i.le_toInt
      have hnext : (Int32.ofInt (i.toInt + 1)).toInt = i.toInt + 1 :=
        Int32.toInt_ofInt_of_le (by omega) (by omega)
      rw [Function.iterate_succ_apply] at hdeg
      rw [loop_next hturn]
      exact ih hdeg (by omega) (by omega)

theorem countTurn_wraps {n d : Nat} (hn : n < 2 ^ 31) (hpos : 0 < d) (hd : d < 2 ^ 31)
    (cnt : Int32) : countTurn .wraps (Int32.ofNat n) ⟨Int32.ofNat d, cnt⟩ =
      if d ≤ n then .done (.next ⟨Int32.ofInt (d * 10), Int32.ofInt (cnt.toInt + 1)⟩)
      else .done (.leave ⟨Int32.ofNat d, cnt⟩) := by
  have hle : n / d ≤ n := Nat.div_le_self n d
  have hq : (0 : Int32) < Int32.ofNat (n / d) ↔ d ≤ n := by
    calc (0 : Int32) < Int32.ofNat (n / d) ↔ 0 < n / d :=
          ofNat_lt_ofNat (a := 0) (by decide) (by omega)
      _ ↔ 0 < d ∧ d ≤ n := Nat.div_pos_iff
      _ ↔ d ≤ n := and_iff_right hpos
  have hten : (10 : Int32).toInt = 10 := rfl
  have hone : (1 : Int32).toInt = 1 := rfl
  rw [countTurn, div_ofNat hn hpos hd]
  simp only [done_bind, hq, add, mul, fit_wraps, toInt_ofNat hd, hten, hone, pure_eq]

theorem countTurn_negative {n : Nat} (hn : n < 2 ^ 31) {cnt : Int32} :
    countTurn .wraps (Int32.ofNat n) ⟨-727379968, cnt⟩ = .done (.leave ⟨-727379968, cnt⟩) := by
  -- the last product is negative, and so is the quotient
  have hne : (-727379968 : Int32) ≠ 0 := by decide
  have hdeg : (-727379968 : Int32).toInt = -727379968 := rfl
  have hquot : (n : Int).tdiv (-727379968) = -((n / 727379968 : Nat) : Int) := by
    rw [Int.tdiv_neg]
    rfl
  have hq : ¬ (0 : Int32) < Int32.ofInt ((n : Int).tdiv (-727379968)) := by
    have hzero : (0 : Int32).toInt = 0 := rfl
    rw [hquot, Int32.lt_iff_toInt_lt, Int32.toInt_ofInt_of_le (by omega) (by omega), hzero]
    omega
  rw [countTurn, div_wraps _ hne, toInt_ofNat hn, hdeg, done_bind, if_neg hq, pure_eq]

theorem count_wraps {n : Nat} (hlow : 10 ^ 9 ≤ n) (hn : n < 2 ^ 31) {turns : Nat}
    (hturns : 12 < turns) :
    loop (countTurn .wraps (Int32.ofNat n)) turns ⟨1, 0⟩ =
      if n < 1410065408 then .done ⟨1410065408, 10⟩ else .done ⟨-727379968, 12⟩ := by
  -- past a billion, `deg` is a multiple of a power of ten less some multiples of `2 ^ 32`
  obtain ⟨t, rfl⟩ : ∃ t, turns = t + 1 + 1 + 1 + 1 + 9 := ⟨turns - 13, by omega⟩
  have hpows : ∀ j < 9, 10 ^ j ≤ n := fun j hj =>
    (Nat.pow_le_pow_right (by decide) (Nat.le_of_lt hj)).trans hlow
  have h9 : countTurn .wraps (Int32.ofNat n) ⟨Int32.ofNat (10 ^ 9), Int32.ofNat 9⟩ =
      .done (.next ⟨Int32.ofNat 1410065408, 10⟩) := by
    rw [countTurn_wraps hn (by decide) (by decide), if_pos hlow]
    rfl
  rw [count_reaches hn (by decide) hpows, loop_next h9]
  have h10 := countTurn_wraps (d := 1410065408) hn (by decide) (by decide) 10
  split_ifs with hlt
  · rw [if_neg (by omega)] at h10
    exact loop_leave h10 _
  · have h11 : countTurn .wraps (Int32.ofNat n) ⟨Int32.ofNat 1215752192, 11⟩ =
        .done (.next ⟨-727379968, 12⟩) := by
      rw [countTurn_wraps hn (by decide) (by decide), if_pos (by omega)]
      rfl
    have h12 : countTurn .wraps (Int32.ofNat n) ⟨-727379968, 12⟩ =
        .done (.leave ⟨-727379968, 12⟩) := countTurn_negative hn
    rw [if_pos (by omega)] at h10
    rw [loop_next h10]
    exact (loop_next h11 _).trans (loop_leave h12 _)

theorem itoa_divideByZero {n : Nat} (hlow : 10 ^ 9 ≤ n) (hn : n < 2 ^ 31) {turns : Nat}
    (hturns : 12 < turns) : itoa .wraps turns (Int32.ofNat n) = .fault .divideByZero := by
  rw [itoa, count_wraps hlow hn hturns]
  split_ifs with hlt
  · have hdeg : div .wraps 1410065408 10 = .done 141006540 := by decide
    have hlower : lower^[9] 141006540 = 0 := by decide
    have hlast : (0 : Int32).toInt + (9 : Nat) < (10 : Int32).toInt := by decide
    have hdigits : loop (digitTurn .wraps 10) turns ⟨0, Int32.ofNat n, 141006540, []⟩ =
        .fault .divideByZero :=
      digits_divideByZero 9 hlower hlast (by omega)
    rw [done_bind, hdeg, done_bind, hdigits, fault_bind]
  · have hdeg : div .wraps (-727379968) 10 = .done (-72737996) := by decide
    have hlower : lower^[8] (-72737996) = 0 := by decide
    have hlast : (0 : Int32).toInt + (8 : Nat) < (12 : Int32).toInt := by decide
    have hdigits : loop (digitTurn .wraps 12) turns ⟨0, Int32.ofNat n, -72737996, []⟩ =
        .fault .divideByZero :=
      digits_divideByZero 8 hlower hlast (by omega)
    rw [done_bind, hdeg, done_bind, hdigits, fault_bind]

theorem mem_storesFrom {i : Nat} {cs : List UInt8} {w : Store} (h : w ∈ storesFrom i cs) :
    ∃ j < cs.length, w.1 = Int32.ofNat (i + j) := by
  induction cs generalizing i with
  | nil => cases h
  | cons c cs ih =>
    rcases List.mem_cons.mp h with rfl | h
    · exact ⟨0, Nat.succ_pos _, rfl⟩
    · obtain ⟨j, hj, hw⟩ := ih h
      refine ⟨j + 1, Nat.succ_lt_succ hj, ?_⟩
      rw [hw, Nat.add_right_comm, Nat.add_assoc]

/-- The conversion ends, on a machine that wraps, without a division by zero and within the ten
bytes of the `str` that `main` passes. -/
def Converts (num : Int32) : Prop :=
  ∃ turns out, itoa .wraps turns num = .done out ∧ ∀ w ∈ out, 0 ≤ w.1 ∧ w.1 < 10

theorem not_converts {n : Nat} (hlow : 10 ^ 9 ≤ n) (hn : n < 2 ^ 31) :
    ¬ Converts (Int32.ofNat n) := by
  rintro ⟨turns, out, hout, _⟩
  have hfault := itoa_divideByZero hlow hn (Nat.lt_succ_self 12)
  have hsame := outcome_unique (fun _ _ hle => itoa_mono .wraps (Int32.ofNat n) hle) hout hfault
    (by simp) (by simp)
  cases hsame

theorem converts_of_lt {n : Nat} (hn : n < 10 ^ 9) : Converts (Int32.ofNat n) := by
  obtain ⟨k, hk, _, _, hwrites⟩ := itoa_writes (m := .wraps) hn
  refine ⟨10, _, hwrites 10 (by decide), fun w hw => ?_⟩
  obtain ⟨j, hj, hw⟩ := mem_storesFrom hw
  rw [List.length_append, List.length_map, length_longDivision] at hj
  have hj10 : j < 10 := Nat.lt_of_lt_of_le hj (Nat.succ_le_succ hk)
  rw [hw, Nat.zero_add]
  constructor
  · rw [Int32.le_iff_toInt_le, toInt_ofNat (by omega)]
    exact Int.natCast_nonneg j
  · exact (ofNat_lt_ofNat (b := 10) (by omega) (by decide)).mpr hj10

theorem converts_ofNat_iff {n : Nat} (hn : n < 2 ^ 31) : Converts (Int32.ofNat n) ↔ n < 10 ^ 9 := by
  constructor
  · intro h
    by_contra hbig
    exact not_converts (Nat.not_lt.mp hbig) hn h
  · exact converts_of_lt

/-- A number that is not negative is converted as it should be exactly when it is below a
billion. -/
theorem itoa_fits_iff {num : Int32} (h : 0 ≤ num) : Converts num ↔ num < 1000000000 := by
  obtain ⟨n, hn31, rfl⟩ := exists_eq_ofNat h
  calc Converts (Int32.ofNat n) ↔ n < 10 ^ 9 := converts_ofNat_iff hn31
    _ ↔ Int32.ofNat n < 1000000000 := (ofNat_lt_ofNat (b := 1000000000) hn31 (by decide)).symm

theorem itoa_fits_nines : Converts 999999999 := (itoa_fits_iff (by decide)).mpr (by decide)

theorem itoa_fails_at_billion : ¬ ∀ num : Int32, 0 ≤ num → Converts num := by
  intro h
  exact not_converts (n := 10 ^ 9) (Nat.le_refl _) (by decide) (h 1000000000 (by decide))

/-! The calls of `main`. -/

/-- What `main` converts: the ticks at the start, and then one more at each click. -/
def converted (ticks : Int32) (clicks : Nat) : List Int32 :=
  (List.range (clicks + 1)).map fun k => ticks + Int32.ofNat k

theorem converted_iff {ticks clicks : Nat} (h : ticks + clicks < 2 ^ 31) :
    (∀ num ∈ converted (Int32.ofNat ticks) clicks, Converts num) ↔ ticks + clicks < 10 ^ 9 := by
  have hmem : ∀ num, num ∈ converted (Int32.ofNat ticks) clicks ↔
      ∃ k ≤ clicks, Int32.ofNat (ticks + k) = num := by
    intro num
    simp only [converted, List.mem_map, List.mem_range, Nat.lt_succ_iff, Int32.ofNat_add]
  constructor
  · intro hall
    have hlast := hall _ ((hmem _).mpr ⟨clicks, Nat.le_refl _, rfl⟩)
    exact (converts_ofNat_iff h).mp hlast
  · intro hlt num hnum
    obtain ⟨k, hk, rfl⟩ := (hmem num).mp hnum
    exact converts_of_lt (by omega)

end MdsBlackbox.Client.Itoa
