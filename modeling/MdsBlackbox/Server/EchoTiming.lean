/- module: MdsBlackbox/Server/EchoTiming
   source: SERVER/rc_server/ultrasonic.c
   digest: What the obstacle counter says about the pulses of a whole history of echo interrupts. -/

import MdsBlackbox.Lib.Streak
import MdsBlackbox.Server.Ultrasonic

set_option autoImplicit false
set_option relaxedAutoImplicit false

namespace MdsBlackbox.Server.EchoTiming

open MdsBlackbox.Lib.Streak
open MdsBlackbox.Server.Ultrasonic

/-- A call of the handler: the level it finds at the echo pin, and the clock it reads. -/
structure Interrupt where
  level : Bool
  now : Timeval
  deriving DecidableEq

def handle (e : Echo) (i : Interrupt) : Echo := ultraEchoRising e i.level i.now

/-- The driver after its load and these interrupts. -/
def echoAfter (is : List Interrupt) : Echo := is.foldl handle .loaded

theorem echoAfter_concat (is : List Interrupt) (i : Interrupt) :
    echoAfter (is ++ [i]) = handle (echoAfter is) i := by
  simp only [echoAfter, List.foldl_append, List.foldl_cons, List.foldl_nil]

/-! Whole pulses. -/

def Alternates : Bool → List Interrupt → Prop
  | _, [] => True
  | level, i :: is => i.level = level ∧ Alternates (!level) is

instance decidableAlternates : (level : Bool) → (is : List Interrupt) →
    Decidable (Alternates level is)
  | _, [] => isTrue trivial
  | level, i :: is =>
    have : Decidable (Alternates (!level) is) := decidableAlternates (!level) is
    inferInstanceAs (Decidable (i.level = level ∧ Alternates (!level) is))

/-- The widths of the completed pulses in microseconds, the earliest first. -/
def widths : List Interrupt → List Int
  | rise :: fall :: is => (fall.now.micros - rise.now.micros) :: widths is
  | _ => []

/-- Pulses that a sensor and a steady clock produce. -/
structure WellTimed (is : List Interrupt) : Prop where
  alternates : Alternates true is
  normalised : ∀ i ∈ is, i.now.Normalised
  ordered : is.Pairwise fun i j => i.now.micros ≤ j.now.micros
  short : ∀ w ∈ widths is, w < 2 ^ 31
  few : (widths is).length < 2 ^ 31

/-- The pulses at the end of the history that were all shorter than 870 microseconds. -/
def nearPulses (ws : List Int) : Nat := (ws.rtakeWhile (· < 870)).length

theorem nearPulses_concat (ws : List Int) (w : Int) :
    nearPulses (ws ++ [w]) = if w < 870 then nearPulses ws + 1 else 0 := by
  have hconcat := length_rtakeWhile_concat (fun w : Int => decide (w < 870)) ws w
  simp only [decide_eq_true_eq] at hconcat
  exact hconcat

theorem pulse_ultraCnt {e : Echo} {ws : List Int} (hcnt : e.ultraCnt = Int32.ofNat (nearPulses ws))
    {rise fall : Interrupt} (hrise : rise.level = true) (hfall : fall.level = false)
    (hpos : rise.now.micros ≤ fall.now.micros)
    (hshort : fall.now.micros - rise.now.micros < 2 ^ 31) :
    (handle (handle e rise) fall).ultraCnt =
      Int32.ofNat (nearPulses (ws ++ [fall.now.micros - rise.now.micros])) := by
  have hbefore : (handle e rise).before = rise.now := by
    simp [handle, hrise, ultraEchoRising]
  have hkept : (handle e rise).ultraCnt = e.ultraCnt := by
    simp [handle, hrise]
  have hexact : (fall.now.micros - rise.now.micros).bmod (2 ^ 32) =
      fall.now.micros - rise.now.micros := by
    apply Int.bmod_eq_of_le <;> omega
  have hnear : (ultraEchoRising (handle e rise) false fall.now).distanceCm < 15 ↔
      fall.now.micros - rise.now.micros < 870 := by
    rw [distanceCm_lt_iff, hbefore, hexact]
  show (ultraEchoRising (handle e rise) fall.level fall.now).ultraCnt = _
  rw [hfall, ultraEchoRising_falling, nearPulses_concat, hkept, hcnt]
  simp only [hnear]
  split_ifs
  · rw [Int32.ofNat_add]
    rfl
  · rfl

theorem foldl_ultraCnt {is : List Interrupt} (halt : Alternates true is)
    (hord : is.Pairwise fun i j => i.now.micros ≤ j.now.micros)
    (hshort : ∀ w ∈ widths is, w < 2 ^ 31) {e : Echo} {ws : List Int}
    (hcnt : e.ultraCnt = Int32.ofNat (nearPulses ws)) :
    (is.foldl handle e).ultraCnt = Int32.ofNat (nearPulses (ws ++ widths is)) := by
  induction is using widths.induct generalizing e ws with
  | case1 rise fall is ih =>
    obtain ⟨hrise, hfall, halt⟩ := halt
    obtain ⟨hfirst, hord⟩ := List.pairwise_cons.mp hord
    obtain ⟨_, hord⟩ := List.pairwise_cons.mp hord
    obtain ⟨hwidth, hshort⟩ := List.forall_mem_cons.mp hshort
    have hpulse := pulse_ultraCnt hcnt hrise hfall (hfirst fall List.mem_cons_self) hwidth
    have hrest := ih halt hord hshort hpulse
    rw [List.append_assoc] at hrest
    exact hrest
  | case2 is hne =>
    -- at most the rising edge of a pulse that has not ended
    match is, halt, hne with
    | [], _, _ => simpa [widths] using hcnt
    | [i], halt, _ => simpa [widths, handle, halt.1] using hcnt
    | rise :: fall :: is, _, hne => exact absurd rfl (hne rise fall is)

theorem ultrasonicRead_buf (e : Echo) (buf : List UInt8) {count : Nat} (hcount : 1 ≤ count) :
    (ultrasonicRead e buf count).1 = buf.set 0 (distanceFlag e) := by
  obtain ⟨n, rfl⟩ := Nat.exists_eq_add_of_le' hcount
  show (fun b : List UInt8 => b.set 0 (distanceFlag e))^[n + 1] buf = _
  induction n with
  | zero => rfl
  | succ n ih =>
    rw [Function.iterate_succ_apply', ih (Nat.le_add_left 1 n)]
    exact List.set_set ..

/-- The counter is the number of near pulses at the end of the history, and the device reports an
obstacle exactly when there were six pulses of which the last six were near. -/
theorem obstacle_reported_iff {is : List Interrupt} (h : WellTimed is) :
    (echoAfter is).ultraCnt.toInt = ((widths is).rtakeWhile (· < 870)).length ∧
      ∀ (buf : List UInt8) (count : Nat), 1 ≤ count →
        (ultrasonicRead (echoAfter is) buf count).1 =
          buf.set 0 (if 6 ≤ (widths is).length ∧ ∀ w ∈ (widths is).rtake 6, w < 870
            then ULTRA_SIG else 0) := by
  have hloaded : Echo.loaded.ultraCnt = Int32.ofNat (nearPulses []) := rfl
  have hcnt : (echoAfter is).ultraCnt = Int32.ofNat (nearPulses (widths is)) :=
    foldl_ultraCnt h.alternates h.ordered h.short hloaded
  have hle : nearPulses (widths is) ≤ (widths is).length := length_rtakeWhile_le _ _
  have hint : (echoAfter is).ultraCnt.toInt = nearPulses (widths is) := by
    rw [hcnt]
    exact Int32.toInt_ofNat_of_lt (Nat.lt_of_le_of_lt hle h.few)
  refine ⟨hint, fun buf count hcount => ?_⟩
  have hsix : 5 < (echoAfter is).ultraCnt ↔
      6 ≤ (widths is).length ∧ ∀ w ∈ (widths is).rtake 6, w < 870 := by
    have hstreak := le_length_rtakeWhile_iff (fun w : Int => decide (w < 870)) (n := 6)
      (l := widths is)
    simp only [decide_eq_true_eq] at hstreak
    rw [← hstreak, Int32.lt_iff_toInt_lt, hint]
    show (5 : Int) < nearPulses (widths is) ↔ 6 ≤ nearPulses (widths is)
    omega
  rw [ultrasonicRead_buf _ _ hcount]
  simp only [distanceFlag, hsix]

/-- Six pulses of 580 microseconds, each across the end of a second. -/
def sixNear : List Interrupt :=
  (List.range 6).flatMap fun k =>
    [⟨true, ⟨Int32.ofNat k, 999900⟩⟩, ⟨false, ⟨Int32.ofNat k + 1, 480⟩⟩]

theorem obstacle_reported_sixNear :
    (ultrasonicRead (echoAfter sixNear) (List.replicate 20 0) 1).1[0]? = some ULTRA_SIG := by
  have h : WellTimed sixNear := ⟨by decide, by decide, by decide, by decide, by decide⟩
  rw [(obstacle_reported_iff h).2 _ 1 (by decide)]
  decide

/-! Edges and clocks in any order. -/

/-- The call takes the branch with `ultra_cnt++`. -/
def Increments (e : Echo) (i : Interrupt) : Prop :=
  i.level = false ∧ (handle e i).distanceCm < 15

instance (e : Echo) (i : Interrupt) : Decidable (Increments e i) :=
  inferInstanceAs (Decidable (i.level = false ∧ (handle e i).distanceCm < 15))

theorem handle_ultraCnt (e : Echo) (i : Interrupt) : (handle e i).ultraCnt =
    if i.level = true then e.ultraCnt else if Increments e i then e.ultraCnt + 1 else 0 := by
  obtain ⟨level, now⟩ := i
  cases level with
  | true => rfl
  | false =>
    have hinc : Increments e ⟨false, now⟩ ↔ (ultraEchoRising e false now).distanceCm < 15 :=
      and_iff_right rfl
    simp only [hinc, Bool.false_eq_true, if_false]
    exact ultraEchoRising_falling e now

/-- The reading of the latest rising edge, unless a falling-edge call has come after it. -/
def pendingRise (is : List Interrupt) : Option Timeval :=
  is.foldl (fun _ i => if i.level then some i.now else none) none

theorem pendingRise_concat (is : List Interrupt) (i : Interrupt) :
    pendingRise (is ++ [i]) = if i.level then some i.now else none := by
  simp only [pendingRise, List.foldl_append, List.foldl_cons, List.foldl_nil]

theorem before_eq (is : List Interrupt) :
    (echoAfter is).before = (pendingRise is).getD ⟨0, 0⟩ := by
  induction is using List.reverseRecOn with
  | nil => rfl
  | append_singleton is i _ =>
    rw [echoAfter_concat, pendingRise_concat]
    cases hlevel : i.level <;> simp [handle, ultraEchoRising, hlevel]

/-- The call ends a pulse whose width is at least 0 and below 870 microseconds. -/
def Genuine (is : List Interrupt) (i : Interrupt) : Prop :=
  ∃ rise ∈ pendingRise is, 0 ≤ i.now.micros - rise.micros ∧ i.now.micros - rise.micros < 870

instance (is : List Interrupt) (i : Interrupt) : Decidable (Genuine is i) :=
  inferInstanceAs (Decidable (∃ rise ∈ pendingRise is,
    0 ≤ i.now.micros - rise.micros ∧ i.now.micros - rise.micros < 870))

/-- A falling edge ends such a pulse, or the 32 bits of the time since the rising edge, or without
one since the epoch, make a number from 870 on. -/
def Measured (is : List Interrupt) (i : Interrupt) : Prop :=
  i.level = true ∨
    match pendingRise is with
    | some rise =>
      0 ≤ i.now.micros - rise.micros ∧ i.now.micros - rise.micros < 870 ∨
        870 ≤ (i.now.micros - rise.micros).bmod (2 ^ 32)
    | none => 870 ≤ i.now.micros.bmod (2 ^ 32)

theorem increments_iff (is : List Interrupt) (i : Interrupt) :
    Increments (echoAfter is) i ↔ i.level = false ∧
      (i.now.micros - ((pendingRise is).getD ⟨0, 0⟩).micros).bmod (2 ^ 32) < 870 := by
  unfold Increments handle
  constructor
  · rintro ⟨hlevel, hnear⟩
    rw [hlevel, distanceCm_lt_iff, before_eq] at hnear
    exact ⟨hlevel, hnear⟩
  · rintro ⟨hlevel, hnear⟩
    rw [hlevel, distanceCm_lt_iff, before_eq]
    exact ⟨rfl, hnear⟩

theorem genuine_iff_measured (is : List Interrupt) (i : Interrupt) :
    (Increments (echoAfter is) i → Genuine is i) ↔ Measured is i := by
  rw [increments_iff]
  unfold Genuine Measured
  cases hlevel : i.level with
  | true => simp
  | false =>
    cases hrise : pendingRise is with
    | none =>
      have hepoch : (⟨0, 0⟩ : Timeval).micros = 0 := rfl
      simp [hepoch]
    | some rise =>
      simp only [Option.getD_some, true_and, Option.mem_some_iff, exists_eq_left',
        Bool.false_eq_true, false_or]
      constructor
      · intro h
        rcases Int.lt_or_le ((i.now.micros - rise.micros).bmod (2 ^ 32)) 870 with hlt | hle
        · exact Or.inl (h hlt)
        · exact Or.inr hle
      · rintro (hwidth | hle) hlt
        · exact hwidth
        · omega

/-- In a history of calls with any levels and readings, every increment comes from a pulse of 0 to
869 microseconds exactly when every falling edge is measured as it should be. -/
theorem increments_genuine_iff (is : List Interrupt) :
    (∀ pre i, (pre ++ [i]) <+: is → Increments (echoAfter pre) i → Genuine pre i) ↔
      ∀ pre i, (pre ++ [i]) <+: is → Measured pre i := by
  constructor
  · intro h pre i hp
    exact (genuine_iff_measured pre i).mp (h pre i hp)
  · intro h pre i hp
    exact (genuine_iff_measured pre i).mpr (h pre i hp)

theorem increments_after_setback : ¬ ∀ is : List Interrupt, (∀ i ∈ is, i.now.Normalised) →
    ∀ pre i, (pre ++ [i]) <+: is → Increments (echoAfter pre) i → Genuine pre i := by
  -- between the two edges of the pulse the clock is set back by a second
  intro h
  have hbad := h [⟨true, ⟨1400000000, 0⟩⟩, ⟨false, ⟨1399999999, 0⟩⟩] (by decide)
    [⟨true, ⟨1400000000, 0⟩⟩] ⟨false, ⟨1399999999, 0⟩⟩ (List.prefix_refl _) (by decide)
  exact absurd hbad (by decide)

end MdsBlackbox.Server.EchoTiming
