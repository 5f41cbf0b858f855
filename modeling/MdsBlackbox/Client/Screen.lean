/- module: MdsBlackbox/Client/Screen
   source: CLIENT/rc_client/rc_client.c
   digest: The pictures of the remote control, their places on the screen, and each redraw. -/

import MdsBlackbox.Client.Remote
import MdsBlackbox.Lib.Raster

set_option autoImplicit false
set_option relaxedAutoImplicit false

namespace MdsBlackbox.Client.Screen

open MdsBlackbox.Lib.Raster
open MdsBlackbox.Client.Remote

universe v w

/-- The points of `SDL_SetVideoMode(480, 272, ..)`. -/
abbrev Pixel := Fin 480 × Fin 272

structure Picture (π : Type v) where
  width : Nat
  height : Nat
  pixel : Nat → Nat → π

structure Rect where
  x : Int
  y : Int
  w : Nat
  h : Nat
  deriving DecidableEq

variable {π : Type v}

/-- Where a picture goes: all of it at the position of the rectangle, whose size is not used. -/
def Picture.layer (pic : Picture π) (r : Rect) : Layer Pixel π := fun p =>
  if 0 ≤ (p.1 : Int) - r.x ∧ (p.1 : Int) - r.x < pic.width ∧
      0 ≤ (p.2 : Int) - r.y ∧ (p.2 : Int) - r.y < pic.height then
    some (pic.pixel ((p.1 : Int) - r.x).toNat ((p.2 : Int) - r.y).toNat)
  else none

/-- What `SDL_BlitSurface` writes back to `dstrect`: the part of the screen that it painted. -/
def Picture.clipped (pic : Picture π) (r : Rect) : Rect :=
  let x := max r.x 0
  let y := max r.y 0
  let w := min (r.x + pic.width) 480 - x
  let h := min (r.y + pic.height) 272 - y
  if 0 < w ∧ 0 < h then ⟨x, y, w.toNat, h.toNat⟩ else ⟨x, y, 0, 0⟩

inductive Image
  | main | up | up2 | down | down2 | left | left2 | right | right2 | stop | name | logo
  deriving DecidableEq

inductive Part
  | up | down | right | left | stop | name | logo
  deriving DecidableEq

/-- `dstrect_Up` to `dstrect_logo`, as `main` initialises them. -/
def Part.rect : Part → Rect
  | .up => ⟨280, 25, 65, 65⟩
  | .down => ⟨280, 185, 65, 65⟩
  | .right => ⟨360, 105, 65, 65⟩
  | .left => ⟨200, 105, 65, 65⟩
  | .stop => ⟨280, 105, 130, 65⟩
  | .name => ⟨10, 230, 113, 35⟩
  | .logo => ⟨10, 190, 120, 35⟩

/-- The picture of each part after a press; `Stop` has no second picture. -/
def Part.image (k : Option Button) : Part → Image
  | .up => if k = some .up then .up2 else .up
  | .down => if k = some .down then .down2 else .down
  | .right => if k = some .right then .right2 else .right
  | .left => if k = some .left then .left2 else .left
  | .stop => .stop
  | .name => .name
  | .logo => .logo

def Part.button : Part → Option Button
  | .up => some .up
  | .down => some .down
  | .right => some .right
  | .left => some .left
  | .stop => some .stop
  | .name | .logo => none

/-- The parts in the order of their blits. -/
def parts : List Part := [.up, .down, .right, .left, .stop, .name, .logo]

/-- The screen and the rectangles, which every blit writes back. -/
structure Panel (D : Display.{0, v, w} Pixel π) where
  screen : D.State
  rects : Part → Rect

/-- What `SDL_LoadBMP` returned for each file, `none` for `NULL`. -/
abbrev Bitmaps (π : Type v) := Image → Option (Picture π)

section
variable {D : Display.{0, v, w} Pixel π} (bmp : Bitmaps π)

/-- `SDL_BlitSurface(main, NULL, screen, NULL)`; a `NULL` picture is refused. -/
def blitMain (s : Panel D) : Panel D :=
  match bmp .main with
  | none => s
  | some pic => { s with screen := D.blit s.screen (pic.layer ⟨0, 0, 0, 0⟩) }

def blitPart (k : Option Button) (s : Panel D) (part : Part) : Panel D :=
  match bmp (part.image k) with
  | none => s
  | some pic =>
    { screen := D.blit s.screen (pic.layer (s.rects part))
      rects := Function.update s.rects part (pic.clipped (s.rects part)) }

/-- The eight blits and the flip of a press, and with `none` those before the first press. -/
def redraw (k : Option Button) (s : Panel D) : Panel D :=
  let t := parts.foldl (blitPart bmp k) (blitMain bmp s)
  { t with screen := D.flip t.screen }

end

/-! The picture of a press, from the files alone. -/

section
variable (bmp : Bitmaps π) (k : Option Button)

/-- The layer of the background, which belongs to no part. -/
def mainLayers : List (Option Part × Layer Pixel π) :=
  (bmp .main).toList.map fun pic => (none, pic.layer ⟨0, 0, 0, 0⟩)

def partLayers (ps : List Part) : List (Option Part × Layer Pixel π) :=
  ps.filterMap fun part => (bmp (part.image k)).map fun pic => (some part, pic.layer part.rect)

def layers : List (Option Part × Layer Pixel π) := mainLayers bmp ++ partLayers bmp k parts

def picture : Layer Pixel π := topmost ((layers bmp k).map Prod.snd)

/-- The part that is seen at a point; the background is no part. -/
def shownPart (p : Pixel) : Option Part := (owner (layers bmp k) p).join

end

/-- The background is there and covers the screen. -/
def Covered (bmp : Bitmaps π) : Prop :=
  ∃ pic, bmp .main = some pic ∧ 480 ≤ pic.width ∧ 272 ≤ pic.height

/-! The rectangles keep their positions. -/

theorem Picture.layer_congr (pic : Picture π) {r r' : Rect} (hx : r.x = r'.x) (hy : r.y = r'.y) :
    pic.layer r = pic.layer r' := by
  funext p
  rw [Picture.layer, Picture.layer, hx, hy]

theorem Picture.clipped_position (pic : Picture π) {r : Rect} (hx : 0 ≤ r.x) (hy : 0 ≤ r.y) :
    (pic.clipped r).x = r.x ∧ (pic.clipped r).y = r.y := by
  unfold Picture.clipped
  have hx' : max r.x 0 = r.x := by omega
  have hy' : max r.y 0 = r.y := by omega
  simp only [hx', hy']
  split_ifs <;> exact ⟨rfl, rfl⟩

/-- Every rectangle is where `main` has put it; its size may have changed. -/
def InPlace (rects : Part → Rect) : Prop :=
  ∀ part, (rects part).x = part.rect.x ∧ (rects part).y = part.rect.y

theorem rect_position_nonneg (part : Part) : 0 ≤ part.rect.x ∧ 0 ≤ part.rect.y := by
  cases part <;> decide

theorem InPlace.update {rects : Part → Rect} (h : InPlace rects) (part : Part) (pic : Picture π) :
    InPlace (Function.update rects part (pic.clipped (rects part))) := by
  intro other
  by_cases hother : other = part
  · subst hother
    obtain ⟨hx, hy⟩ := h other
    obtain ⟨hx0, hy0⟩ := rect_position_nonneg other
    obtain ⟨hcx, hcy⟩ := pic.clipped_position (hx ▸ hx0) (hy ▸ hy0)
    rw [Function.update_self]
    exact ⟨hcx.trans hx, hcy.trans hy⟩
  · rw [Function.update_of_ne hother]
    exact h other

/-! A redraw, whatever has been drawn before. -/

section
variable {D : Display.{0, v, w} Pixel π} {bmp : Bitmaps π}

/-- The surface after the layers, in their order. -/
def blits (D : Display.{0, v, w} Pixel π) (ls : List (Option Part × Layer Pixel π))
    (screen : D.State) : D.State :=
  (ls.map Prod.snd).foldl D.blit screen

theorem blitMain_eq (s : Panel D) :
    blitMain bmp s = ⟨blits D (mainLayers bmp) s.screen, s.rects⟩ := by
  unfold blitMain mainLayers
  cases bmp .main <;> rfl

theorem foldl_blitPart (bmp : Bitmaps π) (k : Option Button) (ps : List Part) {s : Panel D}
    (h : InPlace s.rects) :
    (ps.foldl (blitPart bmp k) s).screen = blits D (partLayers bmp k ps) s.screen ∧
      InPlace (ps.foldl (blitPart bmp k) s).rects := by
  induction ps generalizing s with
  | nil => exact ⟨rfl, h⟩
  | cons part ps ih =>
    rw [List.foldl_cons, partLayers]
    cases hpic : bmp (part.image k) with
    | none =>
      have hsame : blitPart bmp k s part = s := by simp [blitPart, hpic]
      rw [hsame, List.filterMap_cons_none (by rw [hpic]; rfl)]
      exact ih h
    | some pic =>
      have hblit : blitPart bmp k s part =
          ⟨D.blit s.screen (pic.layer part.rect),
            Function.update s.rects part (pic.clipped (s.rects part))⟩ := by
        rw [blitPart, hpic]
        exact congrArg (fun l => (⟨D.blit s.screen l, _⟩ : Panel D))
          (pic.layer_congr (h part).1 (h part).2)
      rw [hblit, List.filterMap_cons_some (by rw [hpic]; rfl)]
      exact ih (h.update part pic)

theorem blitMain_inPlace (bmp : Bitmaps π) {s : Panel D} (h : InPlace s.rects) :
    InPlace (blitMain bmp s).rects := by
  rw [blitMain_eq]
  exact h

theorem redraw_inPlace (k : Option Button) {s : Panel D} (h : InPlace s.rects) :
    InPlace (redraw bmp k s).rects :=
  (foldl_blitPart bmp k parts (blitMain_inPlace bmp h)).2

theorem redraw_screen (k : Option Button) {s : Panel D} (h : InPlace s.rects) :
    (redraw bmp k s).screen = D.flip (blits D (layers bmp k) s.screen) := by
  have hparts := (foldl_blitPart bmp k parts (blitMain_inPlace bmp h)).1
  refine congrArg D.flip (hparts.trans ?_)
  rw [blitMain_eq, layers, blits, blits, blits, List.map_append, List.foldl_append]

theorem picture_isSome (hcover : Covered bmp) (k : Option Button) (p : Pixel) :
    (picture bmp k p).isSome := by
  obtain ⟨pic, hpic, hwidth, hheight⟩ := hcover
  refine topmost_isSome_of_mem (l := pic.layer ⟨0, 0, 0, 0⟩) ?_ ?_
  · simp [layers, mainLayers, hpic]
  · have hx := p.1.isLt
    have hy := p.2.isLt
    have hin : 0 ≤ (p.1 : Int) - 0 ∧ (p.1 : Int) - 0 < pic.width ∧
        0 ≤ (p.2 : Int) - 0 ∧ (p.2 : Int) - 0 < pic.height := by omega
    rw [Picture.layer, if_pos hin]
    rfl

theorem shown_redraw (hcover : Covered bmp) (k : Option Button) {s : Panel D}
    (h : InPlace s.rects) (p : Pixel) :
    some (D.shown (redraw bmp k s).screen p) = picture bmp k p := by
  rw [redraw_screen k h]
  exact D.shown_redraw _ (picture_isSome hcover k p)

end

/-! What is seen at a point, and what a touch there means. -/

section
variable {bmp : Bitmaps π} {k : Option Button} {p : Pixel} {part : Part}

theorem layer_of_shownPart (h : shownPart bmp k p = some part) :
    ∃ pic, bmp (part.image k) = some pic ∧ (pic.layer part.rect p).isSome ∧
      picture bmp k p = pic.layer part.rect p := by
  obtain ⟨l, hmem, hsome, htop⟩ := owner_eq_some (Option.join_eq_some_iff.mp h)
  rcases List.mem_append.mp hmem with hmain | hparts
  · obtain ⟨pic, _, hpic⟩ := List.mem_map.mp hmain
    cases hpic
  · obtain ⟨other, _, hother⟩ := List.mem_filterMap.mp hparts
    obtain ⟨pic, hpic, hl⟩ := Option.map_eq_some_iff.mp hother
    obtain ⟨rfl, rfl⟩ : other = part ∧ pic.layer other.rect = l := by simpa using hl
    exact ⟨pic, hpic, hsome, htop⟩

theorem Picture.layer_isSome_iff (pic : Picture π) (r : Rect) :
    (pic.layer r p).isSome ↔ 0 ≤ (p.1 : Int) - r.x ∧ (p.1 : Int) - r.x < pic.width ∧
      0 ≤ (p.2 : Int) - r.y ∧ (p.2 : Int) - r.y < pic.height := by
  unfold Picture.layer
  split_ifs with hin
  · exact iff_of_true rfl hin
  · exact iff_of_false (by simp) hin

/-- No button picture is larger than those that come with the program. -/
def FitsButtons (bmp : Bitmaps π) : Prop :=
  ∀ (part : Part) (k : Option Button) pic, part.button ≠ none → bmp (part.image k) = some pic →
    pic.width ≤ 65 ∧ pic.height ≤ 65

theorem touched_of_shownPart (hfit : FitsButtons bmp) (h : shownPart bmp k p = some part)
    {b : Button} (hb : part.button = some b) : touched p.1 p.2 = some b := by
  obtain ⟨pic, hpic, hsome, _⟩ := layer_of_shownPart h
  obtain ⟨hwidth, hheight⟩ := hfit part k pic (by simp [hb]) hpic
  obtain ⟨hx, hx', hy, hy'⟩ := (pic.layer_isSome_iff part.rect).mp hsome
  cases part <;> simp only [Part.rect, Part.button, Option.some.injEq, reduceCtorEq] at * <;>
    subst hb <;> unfold touched
  case up => rw [if_pos (by omega)]
  case down => rw [if_neg (by omega), if_pos (by omega)]
  case right => rw [if_neg (by omega), if_neg (by omega), if_pos (by omega)]
  case left => rw [if_neg (by omega), if_neg (by omega), if_neg (by omega), if_pos (by omega)]
  case stop =>
    rw [if_neg (by omega), if_neg (by omega), if_neg (by omega), if_neg (by omega),
      if_pos (by omega)]

end

end MdsBlackbox.Client.Screen
