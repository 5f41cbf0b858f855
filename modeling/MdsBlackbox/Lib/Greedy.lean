/- module: MdsBlackbox/Lib/Greedy
   layer: library
   digest: Which frames a reader hears that always takes as much as it can. -/

import MdsBlackbox.Lib.Sampling

set_option autoImplicit false
set_option relaxedAutoImplicit false

namespace MdsBlackbox.Lib.Sampling

open MdsBlackbox.Lib.Transition

universe u v w

theorem pick_map_fst {α : Type u} {p : Nat → Prop} [DecidablePred p] {l : List (α × Bool)}
    (h : ∀ i (hi : i < l.length), p i ↔ l[i].2 = true) :
    pick p (l.map Prod.fst) = (l.filter Prod.snd).map Prod.fst := by
  induction l using List.reverseRecOn with
  | nil => rfl
  | append_singleton l a ih =>
    have hinit : ∀ i (hi : i < l.length), p i ↔ l[i].2 = true := fun i hi => by
      have hall := h i (by simp; omega)
      rwa [List.getElem_append_left hi] at hall
    have hlast : p l.length ↔ a.2 = true := by simpa using h l.length (by simp)
    rw [List.map_append, List.map_singleton, pick_concat, ih hinit, List.length_map,
      List.filter_append, List.map_append]
    by_cases ha : a.2 = true
    · simp [hlast.mpr ha, ha]
    · simp [mt hlast.mp ha, ha]

variable {κ : Type u} {β : Type v} {γ : Type w} (F : Framing κ β γ)

/-- A read takes all that is queued, or its fill. -/
def Greedy (s : Pipe β γ) : Event κ → Prop
  | .write _ => True
  | .read n => n = min F.cap s.queue.length

/-- With each frame that is written, whether what is still unread then is a number of full reads. -/
def Framing.mark (s : Pipe β γ) : Event κ → List (κ × Bool) → List (κ × Bool)
  | .write k, ms => ms ++ [(k, decide (F.cap ∣ s.queue.length))]
  | .read _, ms => ms

def Framing.marks (es : List (Event κ)) : List (κ × Bool) :=
  history F.step F.mark ⟨[], []⟩ [] es

/-- A frame start that has been passed was a read start if the frame was marked, and one that has
not will be. -/
structure Framing.Foreseen (es : List (Event κ)) (ms : List (κ × Bool)) : Prop where
  frames : ms.map Prod.fst = written es
  passed : ∀ i (hi : i < ms.length), F.size * i < taken es →
    (F.size * i ∈ readStarts 0 es ↔ ms[i].2 = true)
  coming : ∀ i (hi : i < ms.length), taken es ≤ F.size * i →
    (F.cap ∣ F.size * i - taken es ↔ ms[i].2 = true)

variable {F}

theorem Framing.Foreseen.length_eq {es : List (Event κ)} {ms : List (κ × Bool)}
    (h : F.Foreseen es ms) : ms.length = (written es).length := by
  rw [← h.frames, List.length_map]

theorem Framing.Tracks.unread {es : List (Event κ)} {s : Pipe β γ} (h : F.Tracks es s) :
    s.queue.length = F.size * (written es).length - taken es := by
  rw [h.queue, List.length_drop, F.length_stream]

theorem Framing.Foreseen.write {es : List (Event κ)} {ms : List (κ × Bool)} {s : Pipe β γ}
    (h : F.Foreseen es ms) (ht : F.Tracks es s) (k : κ) :
    F.Foreseen (es ++ [.write k]) (F.mark s (.write k) ms) := by
  have hwithin := ht.within
  rw [F.length_stream, ← h.length_eq] at hwithin
  have hcases : ∀ i (hi : i < (F.mark s (.write k) ms).length), i < ms.length ∨ i = ms.length := by
    intro i hi
    simp only [Framing.mark, List.length_append, List.length_singleton] at hi
    omega
  refine ⟨?_, fun i hi hlt => ?_, fun i hi hle => ?_⟩
  · rw [written_write, ← h.frames, Framing.mark, List.map_append, List.map_singleton]
  · rw [taken_write] at hlt
    rw [readStarts_write]
    rcases hcases i hi with hold | rfl
    · simpa [Framing.mark, List.getElem_append_left hold] using h.passed i hold hlt
    · omega
  · rw [taken_write] at hle ⊢
    rcases hcases i hi with hold | rfl
    · simpa [Framing.mark, List.getElem_append_left hold] using h.coming i hold hle
    · simp [Framing.mark, ht.unread, h.length_eq]

theorem Framing.Foreseen.read {es : List (Event κ)} {ms : List (κ × Bool)} {s : Pipe β γ} {n : Nat}
    (h : F.Foreseen es ms) (ht : F.Tracks es s) (hcap : F.cap ≤ F.size) (hpos : 1 ≤ n)
    (hgreedy : n = min F.cap s.queue.length) : F.Foreseen (es ++ [.read n]) ms := by
  have hunread := ht.unread
  rw [← h.length_eq] at hunread
  have hstart : ∀ o, o ∈ readStarts 0 (es ++ [.read n]) ↔ o ∈ readStarts 0 es ∨ o = taken es := by
    intro o
    rw [readStarts_read, List.mem_append, List.mem_singleton, Nat.zero_add]
  -- a frame that has not been reached fills the read
  have hfull : ∀ i < ms.length, taken es < F.size * i → n = F.cap := by
    intro i hi hlt
    have hroom : F.size * (i + 1) ≤ F.size * ms.length := Nat.mul_le_mul_left _ hi
    rw [Nat.mul_succ] at hroom
    omega
  refine ⟨h.frames.trans (written_read es n).symm, fun i hi hlt => ?_, fun i hi hle => ?_⟩
  · rw [taken_read] at hlt
    rw [hstart]
    rcases Nat.lt_trichotomy (F.size * i) (taken es) with hbefore | hhere | hinside
    · rw [or_iff_left (Nat.ne_of_lt hbefore)]
      exact h.passed i hi hbefore
    · refine iff_of_true (Or.inr hhere) ((h.coming i hi hhere.ge).mp ?_)
      rw [hhere, Nat.sub_self]
      exact Nat.dvd_zero _
    · have hnot : ¬ F.cap ∣ F.size * i - taken es := fun hdvd => by
        have hle := Nat.le_of_dvd (by omega) hdvd
        have hn := hfull i hi hinside
        omega
      refine iff_of_false ?_ (mt (h.coming i hi hinside.le).mpr hnot)
      rintro (hmem | heq)
      · exact absurd (ht.earlier _ hmem) (by omega)
      · omega
  · rw [taken_read] at hle ⊢
    have hn := hfull i hi (by omega)
    rw [← h.coming i hi (by omega), hn, ← Nat.sub_sub]
    exact (Nat.dvd_sub_iff_left (by omega) (Nat.dvd_refl _))

variable (F)

theorem Framing.foreseen_run (hcap : F.cap ≤ F.size) {es : List (Event κ)} {s : Pipe β γ}
    (hrun : run F.step ⟨[], []⟩ es = some s) (greedy : EachStep F.step (Greedy F) ⟨[], []⟩ es) :
    F.Foreseen es (F.marks es) := by
  refine (run_induction (I := fun es _ => EachStep F.step (Greedy F) ⟨[], []⟩ es →
    F.Foreseen es (F.marks es)) (fun _ => ⟨rfl, nofun, nofun⟩) ?_ hrun) greedy
  intro es e t u ht ih hu hgreedy
  have hbefore := ih (hgreedy.take (List.prefix_append _ _))
  have htracks := F.tracks_run ht
  rw [Framing.marks, history_concat ht hu]
  cases e with
  | write k => exact hbefore.write htracks k
  | read n =>
    simp only [Framing.step] at hu
    split_ifs at hu with hn
    exact hbefore.read htracks hcap hn.1 (hgreedy.last ht)

/-- A reader that always takes as much as it can, of frames no smaller than a full read, has in the
end heard exactly the frames that found a number of full reads unread before them. -/
theorem Framing.heard_of_greedy (hcap : F.cap ≤ F.size) {es : List (Event κ)} {s : Pipe β γ}
    (hrun : run F.step ⟨[], []⟩ es = some s) (greedy : EachStep F.step (Greedy F) ⟨[], []⟩ es)
    (hempty : s.queue = []) :
    s.heard = ((F.marks es).filter Prod.snd).map fun m => F.meaning m.1 := by
  have h := F.foreseen_run hcap hrun greedy
  have hall := (F.tracks_run hrun).taken_eq F hempty
  have hpick : F.selected es = ((F.marks es).filter Prod.snd).map Prod.fst := by
    rw [Framing.selected, ← h.frames]
    refine pick_map_fst fun i hi => h.passed i hi ?_
    rw [hall, ← h.length_eq]
    exact Nat.mul_lt_mul_of_pos_left hi F.size_pos
  rw [F.heard_eq hrun, hpick, List.map_map]
  rfl

end MdsBlackbox.Lib.Sampling
