/- module: MdsBlackbox/Lib/Streak
   layer: library
   digest: The elements at an end of a list that satisfy a test without interruption. -/

import Mathlib.Data.List.DropRight
import Mathlib.Data.List.TakeWhile

set_option autoImplicit false
set_option relaxedAutoImplicit false

namespace MdsBlackbox.Lib.Streak

universe u

variable {α : Type u} (p : α → Bool)

theorem le_length_takeWhile_iff {n : Nat} {l : List α} :
    n ≤ (l.takeWhile p).length ↔ n ≤ l.length ∧ ∀ x ∈ l.take n, p x := by
  induction l generalizing n with
  | nil => simp
  | cons a l ih =>
    cases n with
    | zero => simp
    | succ n =>
      by_cases ha : p a
      · have hcons : (List.takeWhile p (a :: l)).length = (l.takeWhile p).length + 1 := by
          rw [List.takeWhile_cons_of_pos ha, List.length_cons]
        rw [hcons, Nat.succ_le_succ_iff, ih, List.length_cons, Nat.succ_le_succ_iff,
          List.take_succ_cons]
        simp [ha]
      · simp [ha]

theorem le_length_rtakeWhile_iff {n : Nat} {l : List α} :
    n ≤ (l.rtakeWhile p).length ↔ n ≤ l.length ∧ ∀ x ∈ l.rtake n, p x := by
  have hlen : (l.rtakeWhile p).length = (l.reverse.takeWhile p).length := by
    simp [List.rtakeWhile]
  rw [hlen, le_length_takeWhile_iff, List.length_reverse, List.rtake_eq_reverse_take_reverse]
  simp only [List.mem_reverse]

theorem length_rtakeWhile_concat (l : List α) (a : α) :
    ((l ++ [a]).rtakeWhile p).length = if p a then (l.rtakeWhile p).length + 1 else 0 := by
  rw [List.rtakeWhile_concat]
  split_ifs
  · exact List.length_append
  · rfl

theorem length_rtakeWhile_le (l : List α) : (l.rtakeWhile p).length ≤ l.length :=
  (List.rtakeWhile_suffix p l).length_le

end MdsBlackbox.Lib.Streak
