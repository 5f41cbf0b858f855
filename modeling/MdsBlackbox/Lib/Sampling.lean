/- module: MdsBlackbox/Lib/Sampling
   layer: library
   digest: A reader that looks at the first symbol of each read of a stream of equal frames. -/

import Mathlib.Data.List.Flatten
import Mathlib.Data.List.Infix
import MdsBlackbox.Lib.Transition

set_option autoImplicit false
set_option relaxedAutoImplicit false

namespace MdsBlackbox.Lib.Sampling

open MdsBlackbox.Lib.Transition

universe u v w

/-! Positional selection. -/

section Pick

variable {α : Type u} (p q : Nat → Prop) [DecidablePred p] [DecidablePred q]

/-- The entries of `l` at the positions satisfying `p`, in order. -/
def pick (l : List α) : List α :=
  (l.zipIdx.filter fun x => p x.2).map Prod.fst

theorem pick_concat (l : List α) (a : α) :
    pick p (l ++ [a]) = pick p l ++ if p l.length then [a] else [] := by
  by_cases h : p l.length <;> simp [pick, List.zipIdx_append, h]

theorem pick_length_le (l : List α) : (pick p l).length ≤ l.length := by
  have h := List.length_filter_le (fun x : α × Nat => decide (p x.2)) l.zipIdx
  simpa [pick] using h

theorem pick_sublist (l : List α) : (pick p l).Sublist l := by
  have h := (List.filter_sublist (p := fun x : α × Nat => decide (p x.2)) (l := l.zipIdx)).map
    Prod.fst
  rwa [List.zipIdx_map_fst] at h

variable {p q}

theorem pick_congr {l : List α} (h : ∀ i < l.length, p i ↔ q i) : pick p l = pick q l := by
  induction l using List.reverseRecOn with
  | nil => rfl
  | append_singleton l a ih =>
    have hinit : ∀ i < l.length, p i ↔ q i := fun i hi => h i (by simp; omega)
    rw [pick_concat, pick_concat, ih hinit]
    simp only [h l.length (by simp)]

theorem pick_insert {l : List α} {i : Nat} (hi : i < l.length) (later : ∀ j, p j → j < i)
    (hq : ∀ j, q j ↔ p j ∨ j = i) : pick q l = pick p l ++ [l[i]] := by
  induction l using List.reverseRecOn with
  | nil => simp at hi
  | append_singleton l a ih =>
    rw [pick_concat, pick_concat]
    by_cases hlast : i = l.length
    · subst hlast
      have hqp : pick q l = pick p l := by
        refine pick_congr fun j hj => ?_
        rw [hq]
        exact or_iff_left (by omega)
      have hp : ¬ p l.length := fun h => absurd (later _ h) (lt_irrefl _)
      simp [hqp, hp, (hq l.length).mpr (Or.inr rfl)]
    · have hlt : i < l.length := by
        simp only [List.length_append, List.length_singleton] at hi
        omega
      have hp : ¬ p l.length := fun h => absurd (later _ h) (by omega)
      have hnq : ¬ q l.length := by rw [hq]; rintro (h | h); exacts [hp h, hlast h.symm]
      simp [ih hlt, hp, hnq, List.getElem_append_left hlt]

theorem pick_eq_self_iff {l : List α} : pick p l = l ↔ ∀ i < l.length, p i := by
  induction l using List.reverseRecOn with
  | nil => simp [pick]
  | append_singleton l a ih =>
    rw [pick_concat]
    by_cases hp : p l.length
    · simp only [hp, if_true, List.append_cancel_right_eq, ih, List.length_append,
        List.length_singleton]
      constructor
      · intro h i hi
        by_cases he : i = l.length
        · exact he ▸ hp
        · exact h i (by omega)
      · intro h i hi
        exact h i (by omega)
    · simp only [hp, if_false, List.append_nil]
      constructor
      · intro h
        have hle := pick_length_le p l
        rw [h, List.length_append, List.length_singleton] at hle
        omega
      · intro h
        exact absurd (h l.length (by simp)) hp

end Pick

/-! Frames and reads. -/

/-- Frames of one size whose first symbol is the only one that a reader answers to. -/
structure Framing (κ : Type u) (β : Type v) (γ : Type w) where
  size : Nat
  cap : Nat
  frame : κ → List β
  sample : β → Option γ
  meaning : κ → γ
  size_pos : 0 < size
  frame_length : ∀ k, (frame k).length = size
  head_sample : ∀ k, (frame k)[0]?.bind sample = some (meaning k)
  padding_silent : ∀ k j, 0 < j → (frame k)[j]?.bind sample = none

structure Pipe (β : Type v) (γ : Type w) where
  queue : List β
  heard : List γ

inductive Event (κ : Type u) where
  | write (k : κ)
  | read (n : Nat)

variable {κ : Type u} {β : Type v} {γ : Type w}

/-- A read takes between one and `cap` queued symbols and answers to the first of them. -/
def Framing.step (F : Framing κ β γ) (s : Pipe β γ) : Event κ → Option (Pipe β γ)
  | .write k => some { s with queue := s.queue ++ F.frame k }
  | .read n =>
    if 1 ≤ n ∧ n ≤ F.cap ∧ n ≤ s.queue.length then
      some ⟨s.queue.drop n, s.heard ++ (s.queue[0]?.bind F.sample).toList⟩
    else none

theorem read_sublist {sample : β → Option γ} {queue : List β} {n : Nat} (hn : 1 ≤ n)
    (heard : List γ) : (heard ++ (queue[0]?.bind sample).toList ++
      (queue.drop n).filterMap sample).Sublist (heard ++ queue.filterMap sample) := by
  rw [List.append_assoc]
  refine (List.Sublist.refl heard).append ?_
  cases queue with
  | nil => simp
  | cons b rest =>
    obtain ⟨i, rfl⟩ := Nat.exists_eq_add_of_le' hn
    have hlater : ((rest.drop i).filterMap sample).Sublist (rest.filterMap sample) :=
      (List.drop_sublist i rest).filterMap sample
    rw [List.getElem?_cons_zero, Option.bind_some, List.drop_succ_cons]
    cases hb : sample b with
    | none => simpa [hb] using hlater
    | some c => simpa [hb] using hlater

def written : List (Event κ) → List κ
  | [] => []
  | .write k :: es => k :: written es
  | .read _ :: es => written es

def taken : List (Event κ) → Nat
  | [] => 0
  | .write _ :: es => taken es
  | .read n :: es => n + taken es

/-- The stream offsets at which a read started, the stream position being `pos` at first. -/
def readStarts (pos : Nat) : List (Event κ) → List Nat
  | [] => []
  | .write _ :: es => readStarts pos es
  | .read n :: es => pos :: readStarts (pos + n) es

@[simp] theorem written_write (es : List (Event κ)) (k : κ) :
    written (es ++ [.write k]) = written es ++ [k] := by
  induction es with
  | nil => rfl
  | cons e es ih => cases e <;> simp [written, ih]

@[simp] theorem written_read (es : List (Event κ)) (n : Nat) :
    written (es ++ [.read n]) = written es := by
  induction es with
  | nil => rfl
  | cons e es ih => cases e <;> simp [written, ih]

@[simp] theorem taken_write (es : List (Event κ)) (k : κ) :
    taken (es ++ [.write k]) = taken es := by
  induction es with
  | nil => rfl
  | cons e es ih => cases e <;> simp [taken, ih]

@[simp] theorem taken_read (es : List (Event κ)) (n : Nat) :
    taken (es ++ [.read n]) = taken es + n := by
  induction es with
  | nil => simp [taken]
  | cons e es ih => cases e <;> simp [taken, ih, Nat.add_assoc]

@[simp] theorem readStarts_write (pos : Nat) (es : List (Event κ)) (k : κ) :
    readStarts pos (es ++ [.write k]) = readStarts pos es := by
  induction es generalizing pos with
  | nil => rfl
  | cons e es ih => cases e <;> simp [readStarts, ih]

@[simp] theorem readStarts_read (pos : Nat) (es : List (Event κ)) (n : Nat) :
    readStarts pos (es ++ [.read n]) = readStarts pos es ++ [pos + taken es] := by
  induction es generalizing pos with
  | nil => simp [readStarts, taken]
  | cons e es ih => cases e <;> simp [readStarts, taken, ih, Nat.add_assoc]

variable (F : Framing κ β γ)

def Framing.stream (ks : List κ) : List β := (ks.map F.frame).flatten

theorem Framing.stream_concat (ks : List κ) (k : κ) :
    F.stream (ks ++ [k]) = F.stream ks ++ F.frame k := by
  simp [Framing.stream]

theorem Framing.length_stream (ks : List κ) : (F.stream ks).length = F.size * ks.length := by
  induction ks with
  | nil => simp [Framing.stream]
  | cons k ks ih =>
    simp only [Framing.stream, List.map_cons, List.flatten_cons, List.length_append,
      F.frame_length, List.length_cons] at ih ⊢
    rw [ih, Nat.mul_succ]
    omega

theorem Framing.stream_getElem? (ks : List κ) (i : Nat) :
    (F.stream ks)[i]? = ks[i / F.size]?.bind fun k => (F.frame k)[i % F.size]? := by
  induction ks generalizing i with
  | nil => simp [Framing.stream]
  | cons k ks ih =>
    have hcons : F.stream (k :: ks) = F.frame k ++ F.stream ks := by simp [Framing.stream]
    rw [hcons]
    by_cases hi : i < F.size
    · rw [List.getElem?_append_left (by rw [F.frame_length]; exact hi)]
      simp [Nat.div_eq_of_lt hi, Nat.mod_eq_of_lt hi]
    · have hle : F.size ≤ i := Nat.le_of_not_lt hi
      rw [List.getElem?_append_right (by rw [F.frame_length]; exact hle), F.frame_length, ih]
      rw [Nat.div_eq_sub_div F.size_pos hle, Nat.mod_eq_sub_mod hle, List.getElem?_cons_succ]

theorem Framing.sample_at_start {ks : List κ} {i : Nat} (hi : i < ks.length) :
    (F.stream ks)[F.size * i]?.bind F.sample = some (F.meaning ks[i]) := by
  rw [F.stream_getElem?, Nat.mul_div_cancel_left i F.size_pos, Nat.mul_mod_right,
    List.getElem?_eq_getElem hi]
  exact F.head_sample _

theorem Framing.sample_inside {ks : List κ} {o : Nat} (ho : ¬ F.size ∣ o) :
    (F.stream ks)[o]?.bind F.sample = none := by
  rw [F.stream_getElem?]
  have hpos : 0 < o % F.size :=
    Nat.pos_of_ne_zero fun h => ho (Nat.dvd_of_mod_eq_zero h)
  cases hk : ks[o / F.size]? with
  | none => rfl
  | some k => exact F.padding_silent k _ hpos

/-- What a reader has heard: the messages whose frame start was the start of a read. -/
def Framing.selected (es : List (Event κ)) : List κ :=
  pick (fun i => F.size * i ∈ readStarts 0 es) (written es)

/-- The pipe after `es`: the unread end of the stream, and the selected messages. -/
structure Framing.Tracks (es : List (Event κ)) (s : Pipe β γ) : Prop where
  within : taken es ≤ (F.stream (written es)).length
  queue : s.queue = (F.stream (written es)).drop (taken es)
  earlier : ∀ o ∈ readStarts 0 es, o < taken es
  heard : s.heard = (F.selected es).map F.meaning

theorem Framing.Tracks.write {es : List (Event κ)} {s : Pipe β γ} (h : F.Tracks es s) (k : κ) :
    F.Tracks (es ++ [.write k]) { s with queue := s.queue ++ F.frame k } := by
  have hlen : ∀ o ∈ readStarts 0 es, o < F.size * (written es).length := by
    intro o ho
    have := h.earlier o ho
    have := h.within
    rw [F.length_stream] at this
    omega
  refine ⟨?_, ?_, ?_, ?_⟩
  · rw [taken_write, written_write, F.stream_concat, List.length_append]
    exact h.within.trans (Nat.le_add_right _ _)
  · rw [taken_write, written_write, F.stream_concat, List.drop_append_of_le_length h.within,
      h.queue]
  · simpa using h.earlier
  · have hlast : F.size * (written es).length ∉ readStarts 0 es :=
      fun hm => absurd (hlen _ hm) (lt_irrefl _)
    simp [h.heard, Framing.selected, pick_concat, hlast]

theorem Framing.Tracks.read {es : List (Event κ)} {s : Pipe β γ} (h : F.Tracks es s) {n : Nat}
    (hn : 1 ≤ n) (hq : n ≤ s.queue.length) :
    F.Tracks (es ++ [.read n])
      ⟨s.queue.drop n, s.heard ++ (s.queue[0]?.bind F.sample).toList⟩ := by
  have hroom : taken es + n ≤ (F.stream (written es)).length := by
    rw [h.queue, List.length_drop] at hq
    omega
  have hhead : s.queue[0]? = (F.stream (written es))[taken es]? := by
    rw [h.queue, List.getElem?_drop, Nat.add_zero]
  refine ⟨?_, ?_, ?_, ?_⟩
  · simpa using hroom
  · simp [h.queue, List.drop_drop]
  · intro o ho
    rw [readStarts_read, List.mem_append, List.mem_singleton, Nat.zero_add] at ho
    rw [taken_read]
    rcases ho with ho | rfl
    · have := h.earlier o ho
      omega
    · omega
  · rw [hhead]
    simp only [Framing.selected, written_read, readStarts_read, Nat.zero_add]
    by_cases hdvd : F.size ∣ taken es
    · -- the read starts at a frame: that frame is selected after all earlier ones
      obtain ⟨i, hi⟩ := hdvd
      have hlt : i < (written es).length := by
        rw [F.length_stream, hi] at hroom
        exact Nat.lt_of_mul_lt_mul_left (a := F.size) (by omega)
      rw [hi, F.sample_at_start hlt, pick_insert (p := fun j => F.size * j ∈ readStarts 0 es) hlt]
      · simp [h.heard, Framing.selected]
      · intro j hj
        have := h.earlier _ hj
        rw [hi] at this
        exact Nat.lt_of_mul_lt_mul_left this
      · intro j
        simp only [List.mem_append, List.mem_singleton]
        exact or_congr_right (Nat.mul_right_inj (Nat.pos_iff_ne_zero.mp F.size_pos))
    · rw [F.sample_inside hdvd]
      have hsame : pick (fun i => F.size * i ∈ readStarts 0 es ++ [taken es]) (written es) =
          pick (fun i => F.size * i ∈ readStarts 0 es) (written es) := by
        refine pick_congr fun i _ => ?_
        simp only [List.mem_append, List.mem_singleton, or_iff_left_iff_imp]
        intro he
        exact absurd ⟨i, he.symm⟩ hdvd
      rw [hsame, h.heard]
      simp [Framing.selected]

theorem Framing.tracks_run {es : List (Event κ)} {s : Pipe β γ}
    (hrun : run F.step ⟨[], []⟩ es = some s) : F.Tracks es s := by
  refine run_induction (I := F.Tracks) ⟨by simp [taken], by simp [written, Framing.stream, taken],
    by simp [readStarts], rfl⟩ ?_ hrun
  intro es e t u _ ih hu
  cases e with
  | write k =>
    obtain rfl := Option.some.inj hu
    exact ih.write F k
  | read n =>
    simp only [Framing.step] at hu
    split at hu
    · rename_i hn
      obtain rfl := Option.some.inj hu
      exact ih.read F hn.1 hn.2.2
    · cases hu

/-- Whatever the splitting, a reader hears exactly the frames at whose start a read began. -/
theorem Framing.heard_eq {es : List (Event κ)} {s : Pipe β γ}
    (hrun : run F.step ⟨[], []⟩ es = some s) : s.heard = (F.selected es).map F.meaning :=
  (F.tracks_run hrun).heard

theorem Framing.heard_all_iff {es : List (Event κ)} {s : Pipe β γ}
    (hrun : run F.step ⟨[], []⟩ es = some s) :
    s.heard = (written es).map F.meaning ↔
      ∀ i < (written es).length, F.size * i ∈ readStarts 0 es := by
  rw [F.heard_eq hrun, ← pick_eq_self_iff (p := fun i => F.size * i ∈ readStarts 0 es)]
  constructor
  · intro h
    have hlen := congrArg List.length h
    simp only [List.length_map] at hlen
    exact (pick_sublist _ _).eq_of_length hlen
  · intro h
    rw [Framing.selected, h]

def Patient (s : Pipe β γ) : Event κ → Prop
  | .write _ => s.queue = []
  | .read _ => True

/-- Only the last frame can be unread, and every frame that has been touched was heard. -/
structure Framing.Punctual (es : List (Event κ)) : Prop where
  reached : ∀ i < (written es).length, F.size * i ≤ taken es
  started : ∀ i < (written es).length, F.size * i < taken es → F.size * i ∈ readStarts 0 es

theorem Framing.Tracks.taken_eq {es : List (Event κ)} {s : Pipe β γ} (h : F.Tracks es s)
    (hempty : s.queue = []) : taken es = F.size * (written es).length := by
  have hle := h.within
  have hlen := congrArg List.length h.queue
  rw [hempty, List.length_drop, F.length_stream] at hlen
  rw [F.length_stream] at hle
  simp only [List.length_nil] at hlen
  omega

theorem Framing.Punctual.write {es : List (Event κ)} (h : F.Punctual es)
    (hall : taken es = F.size * (written es).length) (k : κ) :
    F.Punctual (es ++ [.write k]) := by
  have hcases : ∀ i < (written (es ++ [.write k])).length,
      i < (written es).length ∨ F.size * i = taken es := by
    intro i hi
    rw [written_write, List.length_append, List.length_singleton] at hi
    by_cases he : i = (written es).length
    · exact Or.inr (he ▸ hall.symm)
    · exact Or.inl (by omega)
  constructor
  · intro i hi
    rw [taken_write]
    rcases hcases i hi with hi | hi
    · exact h.reached i hi
    · exact hi.le
  · intro i hi hlt
    rw [taken_write] at hlt
    rw [readStarts_write]
    rcases hcases i hi with hi | hi
    · exact h.started i hi hlt
    · omega

theorem Framing.Punctual.read {es : List (Event κ)} (h : F.Punctual es) (n : Nat) :
    F.Punctual (es ++ [.read n]) := by
  constructor
  · intro i hi
    rw [written_read] at hi
    rw [taken_read]
    exact (h.reached i hi).trans (Nat.le_add_right _ _)
  · intro i hi _
    rw [written_read] at hi
    rw [readStarts_read, Nat.zero_add, List.mem_append, List.mem_singleton]
    rcases (h.reached i hi).lt_or_eq with hlt | heq
    · exact Or.inl (h.started i hi hlt)
    · exact Or.inr heq

theorem Framing.heard_all_of_patient {es : List (Event κ)} {s : Pipe β γ}
    (hrun : run F.step ⟨[], []⟩ es = some s) (hpat : EachStep F.step Patient ⟨[], []⟩ es)
    (hempty : s.queue = []) : s.heard = (written es).map F.meaning := by
  have hpunctual : EachStep F.step Patient ⟨[], []⟩ es → F.Punctual es := by
    refine run_induction (I := fun fs (_ : Pipe β γ) =>
      EachStep F.step Patient ⟨[], []⟩ fs → F.Punctual fs)
      (fun _ => ⟨by simp [written], by simp [written]⟩) ?_ hrun
    intro fs e m u hm ih hu hp
    have hfs : F.Punctual fs := ih (hp.take (List.prefix_append _ _))
    cases e with
    | write k =>
      have hq : Patient m (.write k) := hp.last hm
      exact hfs.write F ((F.tracks_run hm).taken_eq F hq) k
    | read n => exact hfs.read F n
  rw [F.heard_all_iff hrun]
  intro i hi
  refine (hpunctual hpat).started i hi ?_
  rw [(F.tracks_run hrun).taken_eq F hempty]
  exact Nat.mul_lt_mul_of_pos_left hi F.size_pos

end MdsBlackbox.Lib.Sampling
