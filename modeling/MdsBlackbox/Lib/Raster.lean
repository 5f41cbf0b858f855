/- module: MdsBlackbox/Lib/Raster
   layer: library
   digest: Pictures painted over one another, and what a display shows of them. -/

import Mathlib.Data.List.Basic

set_option autoImplicit false
set_option relaxedAutoImplicit false

namespace MdsBlackbox.Lib.Raster

universe u v w

variable {ι : Type u} {π : Type v}

/-- A picture in its place: a colour at every point that it covers. -/
abbrev Layer (ι : Type u) (π : Type v) := ι → Option π

def paint (s : ι → π) (l : Layer ι π) : ι → π := fun p => (l p).getD (s p)

/-- The colour of the last layer that covers a point. -/
def topmost : List (Layer ι π) → Layer ι π
  | [], _ => none
  | l :: ls, p => (topmost ls p).or (l p)

@[simp] theorem topmost_nil (p : ι) : topmost ([] : List (Layer ι π)) p = none := rfl

@[simp] theorem topmost_cons (l : Layer ι π) (ls : List (Layer ι π)) (p : ι) :
    topmost (l :: ls) p = (topmost ls p).or (l p) := rfl

theorem paint_or (s : ι → π) (l : Layer ι π) (c : Option π) (p : ι) :
    c.getD (paint s l p) = (c.or (l p)).getD (s p) := by
  cases c <;> rfl

theorem foldl_paint (s : ι → π) (ls : List (Layer ι π)) (p : ι) :
    ls.foldl paint s p = (topmost ls p).getD (s p) := by
  induction ls generalizing s with
  | nil => rfl
  | cons l ls ih =>
    rw [List.foldl_cons, ih, topmost_cons]
    exact paint_or s l _ p

theorem topmost_isSome_of_mem {ls : List (Layer ι π)} {l : Layer ι π} {p : ι} (hl : l ∈ ls)
    (hp : (l p).isSome) : (topmost ls p).isSome := by
  induction ls with
  | nil => cases hl
  | cons m ls ih =>
    rw [topmost_cons, Option.isSome_or]
    rcases List.mem_cons.mp hl with rfl | hl
    · simp [hp]
    · simp [ih hl]

section
variable {α : Type w}

/-- Of layers that each belong to somebody, whose is the last that covers a point. -/
def owner : List (α × Layer ι π) → ι → Option α
  | [], _ => none
  | l :: ls, p => (owner ls p).or ((l.2 p).map fun _ => l.1)

theorem owner_eq_none {ls : List (α × Layer ι π)} {p : ι} (h : owner ls p = none) :
    topmost (ls.map Prod.snd) p = none := by
  induction ls with
  | nil => rfl
  | cons l ls ih =>
    rw [owner, Option.or_eq_none_iff, Option.map_eq_none_iff] at h
    rw [List.map_cons, topmost_cons, ih h.1, h.2]
    rfl

theorem owner_eq_some {ls : List (α × Layer ι π)} {p : ι} {a : α} (h : owner ls p = some a) :
    ∃ l, (a, l) ∈ ls ∧ (l p).isSome ∧ topmost (ls.map Prod.snd) p = l p := by
  induction ls with
  | nil => cases h
  | cons m ls ih =>
    rw [owner, Option.or_eq_some_iff] at h
    rcases h with hlater | ⟨hnone, hhere⟩
    · obtain ⟨l, hl, hsome, htop⟩ := ih hlater
      refine ⟨l, List.mem_cons_of_mem m hl, hsome, ?_⟩
      rw [List.map_cons, topmost_cons, htop, Option.or_of_isSome hsome]
    · obtain ⟨c, hc, rfl⟩ := Option.map_eq_some_iff.mp hhere
      refine ⟨m.2, List.mem_cons_self, by simp [hc], ?_⟩
      rw [List.map_cons, topmost_cons, owner_eq_none hnone]
      rfl

end

/-- What a program may rely on of a display: a blit paints on the surface that is drawn on, and a
flip shows that surface. What there is to draw on after a flip, the old picture or an older one, is
left open, and so is whether a blit can be seen before the flip. -/
structure Display (ι : Type u) (π : Type v) where
  State : Type w
  drawn : State → ι → π
  shown : State → ι → π
  blit : State → Layer ι π → State
  flip : State → State
  drawn_blit : ∀ s l, drawn (blit s l) = paint (drawn s) l
  shown_flip : ∀ s, shown (flip s) = drawn s

namespace Display

variable (D : Display.{u, v, w} ι π)

theorem drawn_foldl (s : D.State) (ls : List (Layer ι π)) :
    D.drawn (ls.foldl D.blit s) = ls.foldl paint (D.drawn s) := by
  induction ls generalizing s with
  | nil => rfl
  | cons l ls ih => rw [List.foldl_cons, List.foldl_cons, ih, D.drawn_blit]

theorem shown_redraw (s : D.State) {ls : List (Layer ι π)} {p : ι} (hp : (topmost ls p).isSome) :
    some (D.shown (D.flip (ls.foldl D.blit s)) p) = topmost ls p := by
  obtain ⟨c, hc⟩ := Option.isSome_iff_exists.mp hp
  rw [D.shown_flip, D.drawn_foldl, foldl_paint, hc]
  rfl

/-- Two buffers that change places at a flip. -/
def doubleBuffer (ι : Type u) (π : Type v) : Display.{u, v, max u v} ι π where
  State := (ι → π) × (ι → π)
  drawn s := s.1
  shown s := s.2
  blit s l := (paint s.1 l, s.2)
  flip s := (s.2, s.1)
  drawn_blit _ _ := rfl
  shown_flip _ := rfl

end Display

end MdsBlackbox.Lib.Raster
