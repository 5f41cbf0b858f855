/- module: MdsBlackbox/Client/TcpRead
   source: CLIENT/rc_client/rc_client.c
   digest: The signal counter of the client's reading thread. -/

import Mathlib.Data.List.Basic
import MdsBlackbox.Client.Remote
import MdsBlackbox.Lib.CInt

set_option autoImplicit false
set_option relaxedAutoImplicit false

namespace MdsBlackbox.Client.TcpRead

open MdsBlackbox.Lib.CInt
open MdsBlackbox.Client.Remote

/-- One pass of the loop of `tcp_read_thread` on the bytes that its read has returned, none of them
after an error or at the end of file: the new `cnt`, and whether the pass entered the branch
`cnt >= 50`. -/
def tcpRead (cnt : Int32) (buf : List UInt8) : Int32 × Bool :=
  match buf with
  | [] => (cnt, false)
  | first :: _ =>
    if first = 6 then
      if 50 ≤ cnt + 1 then (0, true) else (cnt + 1, false)
    else (cnt, false)

def activations (cnt : Int32) : List (List UInt8) → Nat
  | [] => 0
  | buf :: bufs => (tcpRead cnt buf).2.toNat + activations (tcpRead cnt buf).1 bufs

theorem tcpRead_signal (cnt : Int32) {buf : List UInt8} (h : buf[0]? = some 6) :
    tcpRead cnt buf = if 50 ≤ cnt + 1 then (0, true) else (cnt + 1, false) := by
  cases buf with
  | nil => cases h
  | cons first rest =>
    obtain rfl : first = 6 := by simpa using h
    simp [tcpRead]

/-! The grouping of signals into reads. -/

/-- A division of a byte stream into the buffers of successive reads. -/
structure Split (stream : List UInt8) where
  bufs : List (List UInt8)
  bounds : ∀ buf ∈ bufs, 1 ≤ buf.length ∧ buf.length ≤ MAXLINE
  joined : bufs.flatten = stream

/-- `n` signals, as `ultra_func` writes them. -/
def signals (n : Nat) : List UInt8 := List.replicate n 6

theorem Split.signal {n : Nat} (p : Split (signals n)) {buf : List UInt8} (h : buf ∈ p.bufs) :
    buf[0]? = some 6 := by
  obtain ⟨hpos, _⟩ := p.bounds buf h
  have hmem : buf[0] ∈ signals n := by
    rw [← p.joined]
    exact List.mem_flatten_of_mem h (List.getElem_mem hpos)
  rw [List.getElem?_eq_getElem hpos, List.eq_of_mem_replicate hmem]

/-- The number of activations that `reads` signal reads make from `cnt`: the first one comes when
the incremented counter, wrapped if need be, reaches 50, and then every fiftieth read makes one. -/
def alarms (cnt : Int32) (reads : Nat) : Nat :=
  ((reads + min ((cnt + 1).toInt - 1) 49) / 50).toNat

theorem alarms_zero (cnt : Int32) : alarms cnt 0 = 0 := by
  unfold alarms
  omega

theorem alarms_succ_of_le {cnt : Int32} (h : 50 ≤ cnt + 1) (reads : Nat) :
    alarms cnt (reads + 1) = 1 + alarms 0 reads := by
  have hle : 50 ≤ (cnt + 1).toInt := by simpa [Int32.le_iff_toInt_le] using h
  have hone : ((0 : Int32) + 1).toInt = 1 := rfl
  unfold alarms
  rw [hone]
  push_cast
  omega

theorem alarms_succ_of_lt {cnt : Int32} (h : ¬ 50 ≤ cnt + 1) (reads : Nat) :
    alarms cnt (reads + 1) = alarms (cnt + 1) reads := by
  have hlt : (cnt + 1).toInt < 50 := by simpa [Int32.le_iff_toInt_le] using h
  have hsucc : (cnt + 1 + 1).toInt = (cnt + 1).toInt + 1 := toInt_succ (by omega)
  unfold alarms
  rw [hsucc]
  push_cast
  omega

theorem activations_eq (cnt : Int32) {bufs : List (List UInt8)}
    (h : ∀ buf ∈ bufs, buf[0]? = some 6) : activations cnt bufs = alarms cnt bufs.length := by
  induction bufs generalizing cnt with
  | nil => exact (alarms_zero cnt).symm
  | cons buf bufs ih =>
    have hrest : ∀ buf ∈ bufs, buf[0]? = some 6 := fun b hb => h b (List.mem_cons_of_mem _ hb)
    rw [activations, tcpRead_signal cnt (h buf List.mem_cons_self), List.length_cons]
    by_cases hfifty : 50 ≤ cnt + 1
    · rw [alarms_succ_of_le hfifty, if_pos hfifty, ih _ hrest]
      rfl
    · rw [alarms_succ_of_lt hfifty, if_neg hfifty, ih _ hrest]
      exact Nat.zero_add _

/-- Two groupings of the same signals give the same number of activations exactly when their
numbers of reads do. -/
theorem activations_split_iff (cnt : Int32) {n : Nat} (p q : Split (signals n)) :
    activations cnt p.bufs = activations cnt q.bufs ↔
      alarms cnt p.bufs.length = alarms cnt q.bufs.length := by
  rw [activations_eq cnt fun _ h => p.signal h, activations_eq cnt fun _ h => q.signal h]

theorem activations_depend_on_split : ¬ ∀ (cnt : Int32) (n : Nat) (p q : Split (signals n)),
    activations cnt p.bufs = activations cnt q.bufs := by
  intro h
  let single : Split (signals 50) := ⟨List.replicate 50 [6], by decide, by decide⟩
  let halves : Split (signals 50) := ⟨[signals 25, signals 25], by decide, by decide⟩
  exact absurd (h 0 50 single halves) (by decide)

/-! The signals received by each activation. -/

def startsWithSignal (buf : List UInt8) : Bool := decide (buf[0]? = some 6)

/-- For every activation, in order, how many reads that start with 6 have been received by then;
`n` of them came before. -/
def signalsAt (cnt : Int32) (n : Nat) : List (List UInt8) → List Nat
  | [] => []
  | buf :: bufs =>
    let received := n + (startsWithSignal buf).toNat
    let rest := signalsAt (tcpRead cnt buf).1 received bufs
    if (tcpRead cnt buf).2 then received :: rest else rest

/-- The signal read at which a thread that finds this `cnt` has its first activation. -/
def firstAlarm (cnt : Int32) : Nat := (max 1 (51 - (cnt + 1).toInt)).toNat

theorem tcpRead_of_not_signal (cnt : Int32) {buf : List UInt8} (h : buf[0]? ≠ some 6) :
    tcpRead cnt buf = (cnt, false) := by
  cases buf with
  | nil => rfl
  | cons first rest =>
    have hfirst : first ≠ 6 := by simpa using h
    simp [tcpRead, hfirst]

theorem firstAlarm_of_le {cnt : Int32} (h : 50 ≤ cnt + 1) : firstAlarm cnt = 1 := by
  have hle : 50 ≤ (cnt + 1).toInt := by simpa [Int32.le_iff_toInt_le] using h
  unfold firstAlarm
  omega

theorem firstAlarm_of_lt {cnt : Int32} (h : ¬ 50 ≤ cnt + 1) :
    firstAlarm cnt = firstAlarm (cnt + 1) + 1 := by
  have hlt : (cnt + 1).toInt < 50 := by simpa [Int32.le_iff_toInt_le] using h
  have hsucc : (cnt + 1 + 1).toInt = (cnt + 1).toInt + 1 := toInt_succ (by omega)
  unfold firstAlarm
  rw [hsucc]
  omega

theorem firstAlarm_eq_fifty_iff {cnt : Int32} : firstAlarm cnt = 50 ↔ cnt = 0 := by
  constructor
  · intro h
    have hone : (cnt + 1).toInt = (1 : Int32).toInt := by
      show (cnt + 1).toInt = 1
      unfold firstAlarm at h
      omega
    have hsum : cnt + 1 = 1 := Int32.toInt_inj.mp hone
    calc cnt = cnt + 1 - 1 := (Int32.add_sub_cancel cnt 1).symm
      _ = 0 := by rw [hsum]; rfl
  · rintro rfl
    rfl

theorem signalsAt_getElem? (cnt : Int32) (n k : Nat) (bufs : List (List UInt8)) :
    (signalsAt cnt n bufs)[k]? = if firstAlarm cnt + 50 * k ≤ bufs.countP startsWithSignal
      then some (n + firstAlarm cnt + 50 * k) else none := by
  induction bufs generalizing cnt n k with
  | nil =>
    have hpos : 1 ≤ firstAlarm cnt := by
      unfold firstAlarm
      omega
    rw [if_neg (by rw [List.countP_nil]; omega)]
    rfl
  | cons buf bufs ih =>
    rw [List.countP_cons]
    by_cases hsig : buf[0]? = some 6
    · have hstart : startsWithSignal buf = true := decide_eq_true hsig
      simp only [signalsAt, tcpRead_signal cnt hsig, hstart, Bool.toNat_true, if_true]
      by_cases hfifty : 50 ≤ cnt + 1
      · rw [if_pos hfifty, firstAlarm_of_le hfifty]
        have hzero : firstAlarm 0 = 50 := rfl
        cases k with
        | zero => simp
        | succ k =>
          simp only [if_true, List.getElem?_cons_succ, ih, hzero]
          split_ifs <;> first | rfl | omega | (congr 1; omega)
      · rw [if_neg hfifty, firstAlarm_of_lt hfifty]
        simp only [Bool.false_eq_true, if_false, ih]
        split_ifs <;> first | rfl | omega | (congr 1; omega)
    · have hstart : startsWithSignal buf = false := decide_eq_false hsig
      simp only [signalsAt, tcpRead_of_not_signal cnt hsig, hstart, Bool.toNat_false, Nat.add_zero,
        Bool.false_eq_true, if_false, ih]

/-- Every activation comes after fifty signal reads for itself and for each earlier one exactly when
`cnt` was 0 at the start, or no activation comes at all. -/
theorem fifty_each_iff (cnt : Int32) (bufs : List (List UInt8)) :
    (∀ k m, (signalsAt cnt 0 bufs)[k]? = some m → m = 50 * (k + 1)) ↔
      cnt = 0 ∨ bufs.countP startsWithSignal < firstAlarm cnt := by
  simp only [signalsAt_getElem?]
  constructor
  · intro h
    by_cases hfew : bufs.countP startsWithSignal < firstAlarm cnt
    · exact Or.inr hfew
    · have hfirst := h 0 (firstAlarm cnt) (by rw [if_pos (by omega)]; congr 1; omega)
      exact Or.inl (firstAlarm_eq_fifty_iff.mp (by omega))
  · intro h k m hm
    split_ifs at hm with hle
    have hm : 0 + firstAlarm cnt + 50 * k = m := Option.some.inj hm
    rcases h with hzero | hfew
    · have hfirst := firstAlarm_eq_fifty_iff.mpr hzero
      omega
    · omega

theorem fifty_each_fails : ¬ ∀ (cnt : Int32) (bufs : List (List UInt8)) (k m : Nat),
    (signalsAt cnt 0 bufs)[k]? = some m → m = 50 * (k + 1) := by
  -- the stack slot of `cnt` holds 1
  intro h
  have hbad := h 1 (List.replicate 49 [6]) 0 49 (by decide)
  exact absurd hbad (by decide)

end MdsBlackbox.Client.TcpRead
