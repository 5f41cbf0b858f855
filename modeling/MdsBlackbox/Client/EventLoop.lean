/- module: MdsBlackbox/Client/EventLoop
   source: CLIENT/rc_client/rc_client.c
   digest: `main` of the remote control: what it shows and sends for the events it is given. -/

import MdsBlackbox.Client.Itoa
import MdsBlackbox.Client.Screen
import MdsBlackbox.Lib.Transition

set_option autoImplicit false
set_option relaxedAutoImplicit false

namespace MdsBlackbox.Client.EventLoop

open MdsBlackbox.Lib.Raster
open MdsBlackbox.Lib.Transition
open MdsBlackbox.Client.Remote
open MdsBlackbox.Client.Itoa
open MdsBlackbox.Client.Screen

universe v w

inductive SdlEvent
  | quit
  | mouseButtonDown (x y : Nat)
  | other
  deriving DecidableEq

inductive Ending
  | returned
  | divisionByZero
  | brokenPipe
  deriving DecidableEq

/-- The loop around `connect`, the two loops around `SDL_PollEvent`, and the end of the process. -/
inductive Stage
  | connecting
  | looping
  | ended (r : Ending)
  deriving DecidableEq

variable {π : Type v}

/-- `queue` is what `SDL_PollEvent` takes its events from, `sent` what the connection took. -/
structure Main (D : Display.{0, v, w} Pixel π) where
  stage : Stage
  queue : List SdlEvent
  loop : Bool
  time : Int32
  panel : Panel D
  sent : List UInt8

/-- What `write` comes to: it takes the whole buffer, or its first `n` bytes when a signal cuts it
short, or it fails. `main` does not look at its result. -/
inductive WriteResult
  | accepted
  | short (n : Nat)
  | refused
  | brokenPipe
  deriving DecidableEq

inductive MainEvent
  | connect (ok : Bool)
  | post (e : SdlEvent)
  | poll (w : WriteResult)
  deriving DecidableEq

/-- `itoa` divides by zero; nothing reads the text that it leaves in `str`. -/
def itoaFaults (num : Int32) : Bool :=
  match itoa .wraps 13 num with
  | .fault _ => true
  | .done _ | .running => false

section
variable {D : Display.{0, v, w} Pixel π}

def Main.start (screen : D.State) : Main D :=
  ⟨.connecting, [], false, 0, ⟨screen, Part.rect⟩, []⟩

def Main.write (s : Main D) (buf : List UInt8) : WriteResult → Main D
  | .accepted => { s with sent := s.sent ++ buf }
  | .short n => { s with sent := s.sent ++ buf.take n }
  | .refused => s
  | .brokenPipe => { s with stage := .ended .brokenPipe }

variable (bmp : Bitmaps π)

/-- From `SDL_Init` to the event loop. -/
def Main.setUp (s : Main D) (ticks : Int32) : Main D :=
  if itoaFaults ticks then { s with stage := .ended .divisionByZero }
  else { s with stage := .looping, time := ticks, panel := redraw bmp none s.panel }

/-- The case `SDL_MOUSEBUTTONDOWN`. -/
def Main.mouseButtonDown (s : Main D) (x y : Nat) (w : WriteResult) : Main D :=
  let time := s.time + 1
  if itoaFaults time then { s with time := time, stage := .ended .divisionByZero }
  else
    match touched x y with
    | none => { s with time := time }
    | some k =>
      { s with time := time, panel := redraw bmp (some k) s.panel }.write (frame k) w

/-- A turn of `while(SDL_PollEvent(&event))`, or with nothing queued, of the loop around it; after
`SDL_QUIT` the inner loop goes on with what is queued. -/
def Main.poll (s : Main D) (w : WriteResult) : Main D :=
  match s.queue with
  | [] => if s.loop then { s with stage := .ended .returned } else s
  | .quit :: q => { s with queue := q, loop := true }
  | .mouseButtonDown x y :: q => { s with queue := q }.mouseButtonDown bmp x y w
  | .other :: q => { s with queue := q }

/-- `ticks` is what `SDL_GetTicks` returns. -/
def mainStep (ticks : Int32) (s : Main D) : MainEvent → Option (Main D)
  | .connect ok =>
    if s.stage = .connecting then some (if ok then s.setUp bmp ticks else s) else none
  | .post e => if s.stage = .looping then some { s with queue := s.queue ++ [e] } else none
  | .poll w => if s.stage = .looping then some (s.poll bmp w) else none

end

/-! What is asked of `main`. -/

def posted (es : List MainEvent) : List SdlEvent :=
  es.filterMap fun
    | .post e => some e
    | .connect _ | .poll _ => none

def SdlEvent.press : SdlEvent → Option Button
  | .mouseButtonDown x y => touched x y
  | .quit | .other => none

def presses (evs : List SdlEvent) : List Button := evs.filterMap SdlEvent.press

def SdlEvent.isClick : SdlEvent → Bool
  | .mouseButtonDown _ _ => true
  | .quit | .other => false

def clicks (evs : List SdlEvent) : Nat := evs.countP SdlEvent.isClick

/-- How many bytes of a frame are taken. -/
def WriteResult.count : WriteResult → Nat
  | .accepted => MAXLINE
  | .short n => n
  | .refused | .brokenPipe => 0

/-- What is taken of the frame of a press. -/
def piece (c : Button × Nat) : List UInt8 := (frame c.1).take c.2

theorem piece_whole (k : Button) : piece (k, MAXLINE) = frame k :=
  List.take_of_length_le (Nat.le_of_eq (length_frame k))

theorem flatMap_piece_whole {kept : List (Button × Nat)} (h : ∀ c ∈ kept, c.2 = MAXLINE) :
    kept.flatMap piece = (kept.map Prod.fst).flatMap frame := by
  induction kept with
  | nil => rfl
  | cons c kept ih =>
    have hfirst : c = (c.1, MAXLINE) := Prod.ext rfl (h c List.mem_cons_self)
    rw [List.flatMap_cons, List.map_cons, List.flatMap_cons, hfirst, piece_whole,
      ih fun d hd => h d (List.mem_cons_of_mem c hd)]

theorem write_sent {D : Display.{0, v, w} Pixel π} (s : Main D) (k : Button) (w : WriteResult) :
    (s.write (frame k) w).sent = s.sent ++ piece (k, w.count) := by
  cases w with
  | accepted => rw [WriteResult.count, piece_whole, Main.write]
  | short n => rfl
  | refused => exact (List.append_nil _).symm
  | brokenPipe => exact (List.append_nil _).symm

theorem presses_concat (evs : List SdlEvent) (e : SdlEvent) :
    presses (evs ++ [e]) = presses evs ++ e.press.toList := by
  rw [presses, List.filterMap_append]
  cases h : e.press <;> simp [presses, h]

theorem clicks_concat (evs : List SdlEvent) (e : SdlEvent) :
    clicks (evs ++ [e]) = clicks evs + e.isClick.toNat := by
  rw [clicks, List.countP_append, List.countP_singleton]
  cases e.isClick <;> rfl

theorem itoaFaults_ofNat {n : Nat} (h : n < 10 ^ 9) : itoaFaults (Int32.ofNat n) = false := by
  obtain ⟨k, _, _, _, hwrites⟩ := itoa_writes (m := .wraps) h
  simp [itoaFaults, hwrites 13 (by decide)]

/-- What `main` shows and has sent once it has taken `done` from the queue, where `kept` are the
presses with how much was taken of their frames. -/
structure Follows {D : Display.{0, v, w} Pixel π} (bmp : Bitmaps π) (n : Nat)
    (done : List SdlEvent) (kept : List (Button × Nat)) (s : Main D) : Prop where
  inPlace : InPlace s.panel.rects
  time : s.time = Int32.ofNat (n + clicks done)
  loop : s.loop = true ↔ .quit ∈ done
  shown : ∀ p, some (D.shown s.panel.screen p) = picture bmp (presses done).getLast? p
  sent : s.sent = kept.flatMap piece
  kept : kept.map Prod.fst = presses done

section
variable {D : Display.{0, v, w} Pixel π} {bmp : Bitmaps π} {n : Nat} {s : Main D}
  {done : List SdlEvent} {kept : List (Button × Nat)}

theorem setUp_eq (s : Main D) (hn : n < 10 ^ 9) : s.setUp bmp (Int32.ofNat n) =
    { s with stage := .looping, time := Int32.ofNat n, panel := redraw bmp none s.panel } := by
  rw [Main.setUp, itoaFaults_ofNat hn]
  rfl

theorem follows_setUp (hcover : Covered bmp) {screen : D.State} (hn : n < 10 ^ 9) :
    Follows bmp n [] [] ((Main.start screen).setUp bmp (Int32.ofNat n)) := by
  have hstart : InPlace (Main.start screen).panel.rects := fun _ => ⟨rfl, rfl⟩
  rw [setUp_eq _ hn]
  exact ⟨redraw_inPlace none hstart, rfl, by simp [Main.start], shown_redraw hcover none hstart,
    rfl, rfl⟩

theorem Follows.skip (h : Follows bmp n done kept s) {e : SdlEvent} (hpress : e.press = none)
    {t : Main D} (hpanel : t.panel = s.panel) (hsent : t.sent = s.sent)
    (htime : t.time = s.time + Int32.ofNat e.isClick.toNat)
    (hloop : t.loop = true ↔ s.loop = true ∨ e = .quit) : Follows bmp n (done ++ [e]) kept t := by
  have hsame : presses (done ++ [e]) = presses done := by
    rw [presses_concat, hpress, Option.toList_none, List.append_nil]
  refine ⟨hpanel ▸ h.inPlace, ?_, ?_, ?_, hsent.trans h.sent, h.kept.trans hsame.symm⟩
  · rw [htime, h.time, clicks_concat, ← Nat.add_assoc]
    exact (Int32.ofNat_add _ _).symm
  · rw [hloop, h.loop, List.mem_append, List.mem_singleton, eq_comm (a := e)]
  · rw [hsame, hpanel]
    exact h.shown

theorem Follows.press (h : Follows bmp n done kept s) (hcover : Covered bmp) {x y : Nat}
    {k : Button} (hpress : touched x y = some k) (count : Nat) {t : Main D}
    (hpanel : t.panel = redraw bmp (some k) s.panel)
    (hsent : t.sent = s.sent ++ piece (k, count))
    (htime : t.time = s.time + 1) (hloop : t.loop = s.loop) :
    Follows bmp n (done ++ [.mouseButtonDown x y]) (kept ++ [(k, count)]) t := by
  have hpresses : presses (done ++ [.mouseButtonDown x y]) = presses done ++ [k] := by
    rw [presses_concat, SdlEvent.press, hpress, Option.toList_some]
  refine ⟨hpanel ▸ redraw_inPlace (some k) h.inPlace, ?_, ?_, ?_, ?_, ?_⟩
  · rw [htime, h.time, clicks_concat, ← Nat.add_assoc]
    exact (Int32.ofNat_add _ 1).symm
  · rw [hloop, h.loop, List.mem_append, List.mem_singleton]
    exact (or_iff_left nofun).symm
  · rw [hpresses, List.getLast?_concat, hpanel]
    exact shown_redraw hcover (some k) h.inPlace
  · rw [hsent, h.sent, List.flatMap_append, List.flatMap_singleton]
  · rw [hpresses, List.map_append, h.kept, List.map_singleton]

/-- Where the process still is after a press. -/
def WriteResult.stage : WriteResult → Stage
  | .accepted | .short _ | .refused => .looping
  | .brokenPipe => .ended .brokenPipe

theorem Follows.poll (h : Follows bmp n done kept s) (hcover : Covered bmp) {e : SdlEvent}
    {q : List SdlEvent} (hstage : s.stage = .looping) (hqueue : s.queue = e :: q) (w : WriteResult)
    (hn : n + clicks (done ++ [e]) < 10 ^ 9) :
    (s.poll bmp w).stage = (if e.press.isSome then w.stage else .looping) ∧
      (s.poll bmp w).queue = q ∧
      Follows bmp n (done ++ [e]) (kept ++ (e.press.map fun k => (k, w.count)).toList)
        (s.poll bmp w) := by
  have htime : e.isClick = true → itoaFaults (s.time + 1) = false := fun hclick => by
    have hsum : s.time + 1 = Int32.ofNat (n + clicks (done ++ [e])) := by
      rw [h.time, clicks_concat, hclick, ← Nat.add_assoc]
      exact (Int32.ofNat_add _ 1).symm
    rw [hsum]
    exact itoaFaults_ofNat hn
  have hzero : s.time = s.time + Int32.ofNat 0 := (Int32.add_zero s.time).symm
  have hnone : e.press = none →
      kept ++ (e.press.map fun k => (k, w.count)).toList = kept := fun hpress => by
    simp [hpress]
  cases e with
  | quit =>
    have hpoll : s.poll bmp w = { s with queue := q, loop := true } := by rw [Main.poll, hqueue]
    rw [hpoll, hnone rfl]
    exact ⟨hstage, rfl, h.skip rfl rfl rfl hzero (by simp)⟩
  | other =>
    have hpoll : s.poll bmp w = { s with queue := q } := by rw [Main.poll, hqueue]
    rw [hpoll, hnone rfl]
    exact ⟨hstage, rfl, h.skip rfl rfl rfl hzero (by simp)⟩
  | mouseButtonDown x y =>
    have hpoll : s.poll bmp w = { s with queue := q }.mouseButtonDown bmp x y w := by
      rw [Main.poll, hqueue]
    rw [hpoll, Main.mouseButtonDown, htime rfl]
    cases hk : touched x y with
    | none =>
      have hpress : (SdlEvent.mouseButtonDown x y).press = none := hk
      rw [hnone hpress, hpress]
      exact ⟨hstage, rfl, h.skip hpress rfl rfl rfl (by simp)⟩
    | some k =>
      simp only [SdlEvent.press, hk, Option.isSome_some, if_true, Option.map_some,
        Option.toList_some]
      refine ⟨?_, ?_, h.press hcover hk w.count ?_ (write_sent _ k w) ?_ ?_⟩ <;> cases w <;>
        simp [Main.write, WriteResult.stage, hstage]

end

theorem mainStep_sent {D : Display.{0, v, w} Pixel π} {bmp : Bitmaps π} {ticks : Int32}
    {s t : Main D} {e : MainEvent} (hstep : mainStep bmp ticks s e = some t) :
    t.sent = s.sent ∨ ∃ k w, e = .poll w ∧ s.queue.head?.bind SdlEvent.press = some k ∧
      t.sent = s.sent ++ piece (k, w.count) := by
  cases e with
  | connect ok =>
    simp only [mainStep] at hstep
    split_ifs at hstep with _ hok <;> obtain rfl := Option.some.inj hstep
    · unfold Main.setUp
      split_ifs <;> exact Or.inl rfl
    · exact Or.inl rfl
  | post e =>
    simp only [mainStep] at hstep
    split_ifs at hstep
    obtain rfl := Option.some.inj hstep
    exact Or.inl rfl
  | poll w =>
    simp only [mainStep] at hstep
    split_ifs at hstep
    obtain rfl := Option.some.inj hstep
    cases hqueue : s.queue with
    | nil =>
      simp only [Main.poll, hqueue]
      split_ifs <;> exact Or.inl rfl
    | cons e q =>
      cases e with
      | quit => simp [Main.poll, hqueue]
      | other => simp [Main.poll, hqueue]
      | mouseButtonDown x y =>
        simp only [Main.poll, hqueue, Main.mouseButtonDown]
        split_ifs
        · exact Or.inl rfl
        · cases hk : touched x y with
          | none => exact Or.inl rfl
          | some k =>
            exact Or.inr ⟨k, w, rfl, by simpa [SdlEvent.press] using hk, write_sent _ k w⟩

/-! Whole runs. -/

theorem posted_concat (es : List MainEvent) (e : MainEvent) :
    posted (es ++ [e]) = posted es ++ posted [e] := List.filterMap_append

theorem clicks_append_le {evs fs : List SdlEvent} : clicks evs ≤ clicks (evs ++ fs) := by
  rw [clicks, clicks, List.countP_append]
  exact Nat.le_add_right _ _

/-- The connection takes every frame. -/
def Accepted (es : List MainEvent) : Prop := ∀ w, .poll w ∈ es → w = .accepted

/-- A turn that takes a press from the queue writes its frame. -/
def writeRecord {D : Display.{0, v, w} Pixel π} (s : Main D) :
    MainEvent → List (Button × Nat) → List (Button × Nat)
  | .poll w, kept => kept ++ ((s.queue.head?.bind SdlEvent.press).map fun k => (k, w.count)).toList
  | .connect _, kept | .post _, kept => kept

/-- The presses that were taken from the queue, with how much the writes took of their frames. -/
def writes {D : Display.{0, v, w} Pixel π} (bmp : Bitmaps π) (ticks : Int32) (screen : D.State)
    (es : List MainEvent) : List (Button × Nat) :=
  history (mainStep bmp ticks) writeRecord (.start screen) [] es

/-- `main` still tries to connect, or has followed the events that are no longer queued. -/
inductive Tracks {D : Display.{0, v, w} Pixel π} (bmp : Bitmaps π) (n : Nat) (screen : D.State)
    (es : List MainEvent) (kept : List (Button × Nat)) (s : Main D) : Prop
  | connecting (hs : s = .start screen) (hposted : posted es = []) (hkept : kept = [])
  | follows (done : List SdlEvent) (h : Follows bmp n done kept s)
      (hposted : posted es = done ++ s.queue)
      (haccepted : Accepted es → ∀ c ∈ kept, c.2 = MAXLINE)
      (hstage : s.stage ∈ [.looping, .ended .returned, .ended .brokenPipe])
      (hreturned : s.stage = .ended .returned → s.queue = [] ∧ s.loop = true)

section
variable {D : Display.{0, v, w} Pixel π} {bmp : Bitmaps π} {n : Nat} {screen : D.State}

theorem tracks_step (hcover : Covered bmp) {es : List MainEvent} {e : MainEvent} {s t : Main D}
    {kept : List (Button × Nat)} (h : Tracks bmp n screen es kept s)
    (hn : n + clicks (posted (es ++ [e])) < 10 ^ 9)
    (hstep : mainStep bmp (Int32.ofNat n) s e = some t) :
    Tracks bmp n screen (es ++ [e]) (writeRecord s e kept) t := by
  rw [posted_concat] at hn
  cases h with
  | connecting hs hposted hkept =>
    subst hs hkept
    cases e with
    | connect ok =>
      obtain rfl := Option.some.inj hstep
      cases ok with
      | false => exact .connecting rfl (by rw [posted_concat, hposted]; rfl) rfl
      | true =>
        have hticks : n < 10 ^ 9 := Nat.lt_of_le_of_lt (Nat.le_add_right _ _) hn
        have hposted' : posted (es ++ [.connect true]) = [] := by
          rw [posted_concat, hposted]
          rfl
        have hnone : Accepted (es ++ [.connect true]) →
            ∀ c ∈ ([] : List (Button × Nat)), c.2 = MAXLINE := by simp
        refine .follows [] (follows_setUp hcover hticks) ?_ hnone ?_ ?_ <;>
          simp [setUp_eq _ hticks, hposted', Main.start]
    | post e => cases hstep
    | poll w => cases hstep
  | follows done h hposted haccepted hstage hreturned =>
    cases e with
    | connect ok =>
      have hconnected : s.stage ≠ .connecting := fun hconnecting => by simp [hconnecting] at hstage
      rw [mainStep, if_neg hconnected] at hstep
      cases hstep
    | post e =>
      simp only [mainStep] at hstep
      split_ifs at hstep with hlooping
      obtain rfl := Option.some.inj hstep
      refine .follows done ⟨h.inPlace, h.time, h.loop, h.shown, h.sent, h.kept⟩ ?_ ?_ hstage ?_
      · rw [posted_concat, hposted, List.append_assoc]
        rfl
      · exact fun hall => haccepted fun w hw => hall w (List.mem_append_left _ hw)
      · simp [hlooping]
    | poll w =>
      simp only [mainStep] at hstep
      split_ifs at hstep with hlooping
      obtain rfl := Option.some.inj hstep
      have hsame : posted (es ++ [.poll w]) = done ++ s.queue := by
        rw [posted_concat, hposted]
        exact List.append_nil _
      have hbefore : Accepted (es ++ [.poll w]) → ∀ c ∈ kept, c.2 = MAXLINE := fun hall =>
        haccepted fun v hv => hall v (List.mem_append_left _ hv)
      cases hqueue : s.queue with
      | nil =>
        have hkept : writeRecord s (.poll w) kept = kept := by simp [writeRecord, hqueue]
        rw [hkept]
        cases hloop : s.loop with
        | false =>
          have hpoll : s.poll bmp w = s := by simp [Main.poll, hqueue, hloop]
          rw [hpoll]
          exact .follows done h hsame hbefore hstage (by simp [hlooping])
        | true =>
          have hpoll : s.poll bmp w = { s with stage := .ended .returned } := by
            simp [Main.poll, hqueue, hloop]
          rw [hpoll]
          exact .follows done ⟨h.inPlace, h.time, h.loop, h.shown, h.sent, h.kept⟩ hsame
            hbefore (by simp) fun _ => ⟨hqueue, hloop⟩
      | cons e q =>
        have hclicks : n + clicks (done ++ [e]) < 10 ^ 9 := by
          have hle : clicks (done ++ [e]) ≤ clicks (done ++ [e] ++ q) := clicks_append_le
          rw [← posted_concat, hsame, hqueue, List.append_cons] at hn
          exact Nat.lt_of_le_of_lt (Nat.add_le_add_left hle n) hn
        obtain ⟨hst, hq, hnext⟩ := h.poll hcover hlooping hqueue w hclicks
        have hkept : writeRecord s (.poll w) kept =
            kept ++ (e.press.map fun k => (k, w.count)).toList := by
          simp only [writeRecord, hqueue, List.head?_cons, Option.bind_some]
        rw [hkept]
        refine .follows _ hnext ?_ ?_ ?_ ?_
        · rw [hsame, hqueue, hq, List.append_assoc]
          rfl
        · intro hall c hc
          rcases List.mem_append.mp hc with hc | hc
          · exact hbefore hall c hc
          · obtain ⟨k, _, rfl⟩ := Option.map_eq_some_iff.mp (Option.mem_toList.mp hc)
            rw [hall w (by simp)]
            rfl
        · rw [hst]
          cases w <;> cases e.press <;> simp [WriteResult.stage]
        · rw [hst]
          cases w <;> cases e.press <;> simp [WriteResult.stage]

theorem tracks_run (hcover : Covered bmp) {es : List MainEvent} {s : Main D}
    (hrun : run (mainStep bmp (Int32.ofNat n)) (.start screen) es = some s)
    (hn : n + clicks (posted es) < 10 ^ 9) :
    Tracks bmp n screen es (writes bmp (Int32.ofNat n) screen es) s := by
  refine run_induction (I := fun fs u => n + clicks (posted fs) < 10 ^ 9 →
    Tracks bmp n screen fs (writes bmp (Int32.ofNat n) screen fs) u)
    (fun _ => .connecting rfl rfl rfl) ?_ hrun hn
  intro fs e t u ht ih hu hfs
  have hbefore : n + clicks (posted fs) < 10 ^ 9 := by
    refine Nat.lt_of_le_of_lt (Nat.add_le_add_left ?_ n) hfs
    rw [posted_concat]
    exact clicks_append_le
  rw [writes, history_concat ht hu]
  exact tracks_step hcover (ih hbefore) hfs hu

/-- In every run of `main`, as long as the ticks at the start and the clicks together stay below a
billion: the screen shows, at every point, the picture of the last press taken from the queue, what
the connection took are pieces of the frames of these presses in their order, each as long as its
`write` said and all of them whole when every `write` takes its frame, and `main` returns only after
a quit and with nothing left in the queue. -/
theorem panel_follows_presses (hcover : Covered bmp) {es : List MainEvent} {s : Main D}
    (hrun : run (mainStep bmp (Int32.ofNat n)) (.start screen) es = some s)
    (hn : n + clicks (posted es) < 10 ^ 9) :
    s.stage ≠ .ended .divisionByZero ∧
      (s.stage ≠ .connecting → ∃ done, posted es = done ++ s.queue ∧
        (∀ p, some (D.shown s.panel.screen p) = picture bmp (presses done).getLast? p) ∧
        (writes bmp (Int32.ofNat n) screen es).map Prod.fst = presses done ∧
        s.sent = (writes bmp (Int32.ofNat n) screen es).flatMap piece ∧
        (Accepted es → s.sent = (presses done).flatMap frame) ∧
        (s.stage = .ended .returned → s.queue = [] ∧ .quit ∈ done)) := by
  cases tracks_run hcover hrun hn with
  | connecting hs _ _ => exact ⟨by simp [hs, Main.start], fun hne => absurd (by rw [hs]; rfl) hne⟩
  | follows done h hposted haccepted hstage hreturned =>
    refine ⟨fun hfault => by simp [hfault] at hstage, fun _ => ?_⟩
    refine ⟨done, hposted, h.shown, h.kept, h.sent, fun hall => ?_,
      fun hret => ⟨(hreturned hret).1, h.loop.mp (hreturned hret).2⟩⟩
    rw [h.sent, flatMap_piece_whole (haccepted hall), h.kept]

/-- Pictures that are filled with their own names. -/
def labels : Bitmaps Image := fun image =>
  some (if image = .main then ⟨480, 272, fun _ _ => image⟩ else ⟨65, 65, fun _ _ => image⟩)

theorem covered_labels : Covered labels := ⟨_, rfl, by decide, by decide⟩

/-- A refused connection, a press of `Up`, and a quit with a touch beside the buttons behind it. -/
def upThenQuit : List MainEvent :=
  [.connect false, .connect true, .post (.mouseButtonDown 300 50), .poll .accepted, .post .quit,
    .post (.mouseButtonDown 0 0), .poll .accepted, .poll .accepted, .poll .accepted]

theorem panel_follows_presses_upThenQuit :
    ∃ s : Main (Display.doubleBuffer Pixel Image),
      run (mainStep labels 1200) (.start (fun _ => .main, fun _ => .main)) upThenQuit = some s ∧
        s.stage = .ended .returned ∧ s.sent = frame .up ∧ s.panel.screen.2 (300, 50) = .up2 := by
  have hrun : ∃ s : Main (Display.doubleBuffer Pixel Image),
      run (mainStep labels 1200) (.start (fun _ => .main, fun _ => .main)) upThenQuit = some s ∧
        s.stage = .ended .returned := ⟨_, rfl, rfl⟩
  obtain ⟨s, hs, hstage⟩ := hrun
  obtain ⟨_, hfollows⟩ := panel_follows_presses (n := 1200) covered_labels hs (by decide)
  obtain ⟨done, hposted, hshown, _, _, haccepted, hreturned⟩ := hfollows (by simp [hstage])
  rw [(hreturned hstage).1, List.append_nil] at hposted
  subst hposted
  refine ⟨s, hs, hstage, ?_, ?_⟩
  · rw [haccepted (by simp [Accepted, upThenQuit])]
    rfl
  · exact Option.some.inj (hshown (300, 50))

/-! What is still queued. -/

theorem Follows.drain (hcover : Covered bmp) {q done : List SdlEvent} {kept : List (Button × Nat)}
    {s : Main D} (h : Follows bmp n done kept s) (hstage : s.stage = .looping)
    (hqueue : s.queue = q) (hn : n + clicks (done ++ q) < 10 ^ 9) :
    ∃ t, run (mainStep bmp (Int32.ofNat n)) s (List.replicate q.length (.poll .accepted)) = some t ∧
      t.stage = .looping ∧ t.queue = [] ∧
      Follows bmp n (done ++ q) (kept ++ (presses q).map fun k => (k, MAXLINE)) t := by
  induction q generalizing s done kept with
  | nil => exact ⟨s, rfl, hstage, hqueue, by simpa [presses] using h⟩
  | cons e q ih =>
    rw [List.append_cons] at hn ⊢
    have hfirst : n + clicks (done ++ [e]) < 10 ^ 9 :=
      Nat.lt_of_le_of_lt (Nat.add_le_add_left clicks_append_le n) hn
    obtain ⟨hst, hq, hnext⟩ := h.poll hcover hstage hqueue .accepted hfirst
    have hlooping : (s.poll bmp .accepted).stage = .looping := by
      rw [hst]
      exact ite_self _
    obtain ⟨t, ht, htstage, htqueue, htfollows⟩ := ih hnext hlooping hq hn
    refine ⟨t, run_cons_eq_some.mpr ⟨_, ?_, ht⟩, htstage, htqueue, ?_⟩
    · rw [mainStep, if_pos hstage]
    · have hpresses : kept ++ (presses (e :: q)).map (fun k => (k, MAXLINE)) =
          kept ++ (e.press.map fun k => (k, WriteResult.accepted.count)).toList ++
            (presses q).map fun k => (k, MAXLINE) := by
        rw [presses, List.filterMap_cons]
        cases e.press <;> simp [presses, WriteResult.count]
      rwa [hpresses]

/-- After a quit, `main` handles what is queued, before and behind the quit, and returns. -/
theorem quit_drains (hcover : Covered bmp) {es : List MainEvent} {s : Main D}
    (hrun : run (mainStep bmp (Int32.ofNat n)) (.start screen) es = some s)
    (hn : n + clicks (posted es) < 10 ^ 9) (hstage : s.stage = .looping)
    (hquit : .quit ∈ posted es) :
    ∃ t, run (mainStep bmp (Int32.ofNat n)) s
        (List.replicate (s.queue.length + 1) (.poll .accepted)) = some t ∧
      t.stage = .ended .returned ∧ t.sent = s.sent ++ (presses s.queue).flatMap frame ∧
      ∀ p, some (D.shown t.panel.screen p) = picture bmp (presses (posted es)).getLast? p := by
  cases tracks_run hcover hrun hn with
  | connecting hs _ _ => simp [hs, Main.start] at hstage
  | follows done h hposted _ _ _ =>
    rw [hposted] at hn hquit
    obtain ⟨t, ht, htstage, htqueue, htfollows⟩ := h.drain hcover hstage rfl hn
    have hloop : t.loop = true := htfollows.loop.mpr hquit
    refine ⟨{ t with stage := .ended .returned }, ?_, rfl, ?_, ?_⟩
    · rw [List.replicate_succ', run_concat_eq_some]
      refine ⟨t, ht, ?_⟩
      simp [mainStep, htstage, Main.poll, htqueue, hloop]
    · rw [htfollows.sent, h.sent, List.flatMap_append, List.flatMap_map]
      simp only [piece_whole]
    · rw [hposted]
      exact htfollows.shown

theorem quit_drains_upThenQuit :
    ∃ t : Main (Display.doubleBuffer Pixel Image), t.stage = .ended .returned ∧
      t.sent = frame .up ++ frame .down ∧ t.panel.screen.2 (300, 200) = .down2 := by
  have hrun : ∃ s : Main (Display.doubleBuffer Pixel Image),
      run (mainStep labels 1200) (.start (fun _ => .main, fun _ => .main))
        [.connect true, .post (.mouseButtonDown 300 50), .poll .accepted, .post .quit,
          .post (.mouseButtonDown 300 200)] = some s ∧
        s.stage = .looping ∧ s.sent = frame .up ∧ s.queue = [.quit, .mouseButtonDown 300 200] :=
    ⟨_, rfl, rfl, rfl, rfl⟩
  obtain ⟨s, hs, hstage, hsent, hqueue⟩ := hrun
  obtain ⟨t, _, hreturned, htsent, hshown⟩ :=
    quit_drains (n := 1200) covered_labels hs (by decide) hstage (by decide)
  refine ⟨t, hreturned, ?_, Option.some.inj (hshown (300, 200))⟩
  rw [htsent, hsent, hqueue]
  rfl

/-! The pictures as buttons. -/

/-- While `main` waits for events, a touch on what looks like a button is a press of that button:
it sends that button's frame, and the screen shows it. -/
theorem touch_of_seen_button (hcover : Covered bmp) (hfit : FitsButtons bmp)
    {es : List MainEvent} {s : Main D}
    (hrun : run (mainStep bmp (Int32.ofNat n)) (.start screen) es = some s)
    (hn : n + clicks (posted es) + 1 < 10 ^ 9) (hstage : s.stage = .looping)
    (hidle : s.queue = []) {p : Pixel} {part : Part} {b : Button}
    (hseen : shownPart bmp (presses (posted es)).getLast? p = some part)
    (hb : part.button = some b) :
    (∃ pic, bmp (part.image (presses (posted es)).getLast?) = some pic ∧
        some (D.shown s.panel.screen p) = pic.layer part.rect p) ∧
      ∃ t, run (mainStep bmp (Int32.ofNat n)) s
          [.post (.mouseButtonDown p.1 p.2), .poll .accepted] = some t ∧
        t.stage = .looping ∧ t.queue = [] ∧ t.sent = s.sent ++ frame b ∧
        ∀ q, some (D.shown t.panel.screen q) = picture bmp (some b) q := by
  have hpress : (SdlEvent.mouseButtonDown p.1 p.2).press = some b :=
    touched_of_shownPart hfit hseen hb
  cases tracks_run hcover hrun (Nat.lt_of_succ_lt hn) with
  | connecting hs _ _ => simp [hs, Main.start] at hstage
  | follows done h hposted _ _ _ =>
    rw [hidle, List.append_nil] at hposted
    obtain ⟨pic, hpic, _, hlayer⟩ := layer_of_shownPart hseen
    refine ⟨⟨pic, hpic, ?_⟩, ?_⟩
    · rw [← hlayer, hposted]
      exact h.shown p
    · have hqueued : Follows bmp n done (writes bmp (Int32.ofNat n) screen es)
          { s with queue := s.queue ++ [.mouseButtonDown p.1 p.2] } :=
        ⟨h.inPlace, h.time, h.loop, h.shown, h.sent, h.kept⟩
      have hclicks : n + clicks (done ++ [.mouseButtonDown p.1 p.2]) < 10 ^ 9 := by
        rw [clicks_concat, ← hposted]
        exact hn
      obtain ⟨t, ht, htstage, htqueue, htfollows⟩ :=
        hqueued.drain hcover hstage (by rw [hidle, List.nil_append]) hclicks
      refine ⟨t, run_cons_eq_some.mpr ⟨_, ?_, ht⟩, htstage, htqueue, ?_, ?_⟩
      · rw [mainStep, if_pos hstage]
      · rw [htfollows.sent, h.sent, List.flatMap_append]
        simp [presses, hpress, piece_whole]
      · have hlast := htfollows.shown
        rw [presses_concat, hpress, Option.toList_some, List.getLast?_concat] at hlast
        exact hlast

theorem fitsButtons_labels : FitsButtons labels := by
  intro part k pic _ hpic
  have himage : part.image k ≠ .main := by
    cases part <;> grind [Part.image]
  obtain rfl : (⟨65, 65, fun _ _ => part.image k⟩ : Picture Image) = pic := by
    simpa [labels, himage] using hpic
  exact ⟨Nat.le_refl _, Nat.le_refl _⟩

theorem touch_of_seen_button_left :
    ∃ t : Main (Display.doubleBuffer Pixel Image), t.sent = frame .up ++ frame .left ∧
      t.panel.screen.2 (210, 110) = .left2 := by
  have hrun : ∃ s : Main (Display.doubleBuffer Pixel Image),
      run (mainStep labels 1200) (.start (fun _ => .main, fun _ => .main))
        [.connect true, .post (.mouseButtonDown 300 50), .poll .accepted] = some s ∧
        s.stage = .looping ∧ s.queue = [] ∧ s.sent = frame .up := ⟨_, rfl, rfl, rfl, rfl⟩
  obtain ⟨s, hs, hstage, hidle, hsent⟩ := hrun
  have hseen : shownPart labels (some .up) (210, 110) = some .left := rfl
  obtain ⟨_, t, _, _, _, htsent, hshown⟩ :=
    touch_of_seen_button (n := 1200) covered_labels fitsButtons_labels hs (by decide) hstage hidle
      hseen rfl
  refine ⟨t, ?_, Option.some.inj (hshown (210, 110))⟩
  rw [htsent, hsent]

end

end MdsBlackbox.Client.EventLoop
