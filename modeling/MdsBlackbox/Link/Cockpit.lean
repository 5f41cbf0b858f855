/- module: MdsBlackbox/Link/Cockpit
   source: CLIENT/rc_client/rc_client.c, SERVER/rc_server/rc_server.c
   digest: From the touches on the screen through the connection to the pins of the car. -/

import MdsBlackbox.Client.EventLoop
import MdsBlackbox.Link.CommandLink
import MdsBlackbox.Server.CarRefinement

set_option autoImplicit false
set_option relaxedAutoImplicit false

namespace MdsBlackbox.Link.Cockpit

open MdsBlackbox.Lib.Raster
open MdsBlackbox.Lib.Transition
open MdsBlackbox.Lib.Sampling
open MdsBlackbox.Client.Remote
open MdsBlackbox.Client.Screen
open MdsBlackbox.Client.EventLoop
open MdsBlackbox.Server.PwmDev
open MdsBlackbox.Server.PwmApp
open MdsBlackbox.Server.CommandLoop
open MdsBlackbox.Server.CarRefinement
open MdsBlackbox.Link.CommandLink

universe v w

variable {π : Type v}

/-- The remote control's `main` at one end of the connection, the command loop at the other. -/
structure Ends (D : Display.{0, v, w} Pixel π) where
  main : Main D
  link : Connection

inductive EndsEvent
  | main (e : MainEvent)
  | read (n : Nat) (openPwm : OpenResult)
  | hangUp

section
variable {D : Display.{0, v, w} Pixel π}

def Ends.start (screen : D.State) (d : Motor) : Ends D := ⟨.start screen, .start d⟩

/-- What `write` takes goes into the connection. Once the client's process has ended and the bytes
are used up, the server's `read` reports the end of the stream. -/
def endsStep (bmp : Bitmaps π) (ticks : Int32) (s : Ends D) : EndsEvent → Option (Ends D)
  | .main e =>
    (mainStep bmp ticks s.main e).map fun m =>
      ⟨m, { s.link with socket := s.link.socket ++ m.sent.drop s.main.sent.length }⟩
  | .read n o => (linkStep s.link (.read n o)).map fun c => { s with link := c }
  | .hangUp =>
    match s.main.stage with
    | .ended _ =>
      if s.link.socket = [] then
        (loopStep s.link.server ⟨.closed, .granted⟩).map fun p =>
          { s with link := { s.link with server := p } }
      else none
    | .connecting | .looping => none

/-- No press is taken from the queue while a part of an earlier frame is still unread. -/
def Unhurried (s : Ends D) : EndsEvent → Prop
  | .main (.poll _) => (s.main.queue.head?.bind SdlEvent.press).isSome → s.link.socket = []
  | .main (.connect _) | .main (.post _) | .read _ _ | .hangUp => True

end

def EndsEvent.onMain : EndsEvent → Option MainEvent
  | .main e => some e
  | .read _ _ | .hangUp => none

/-- What happens to the client. -/
def atClient (es : List EndsEvent) : List MainEvent := es.filterMap EndsEvent.onMain

/-- What the client is asked for. -/
def asked (es : List EndsEvent) : List SdlEvent := posted (atClient es)

theorem atClient_main (es : List EndsEvent) (e : MainEvent) :
    atClient (es ++ [.main e]) = atClient es ++ [e] := List.filterMap_append

theorem atClient_other (es : List EndsEvent) {e : EndsEvent} (he : e.onMain = none) :
    atClient (es ++ [e]) = atClient es := by
  rw [atClient, List.filterMap_append, List.filterMap_cons_none he]
  exact List.append_nil _

/-! The effect of the buttons on the car. -/

/-- What a button is for. -/
def drive (c : Car) (k : Button) : Car := act c k.text

theorem moterPins_command (c : Car) (k : Button) :
    moterPins (encode c) (command k) = encode (drive c k) := by
  cases k <;> exact moterPins_encode c rfl

theorem foldl_moterPins (c : Car) (ks : List Button) :
    (ks.map command).foldl moterPins (encode c) = encode (ks.foldl drive c) := by
  induction ks generalizing c with
  | nil => rfl
  | cons k ks ih => rw [List.map_cons, List.foldl_cons, moterPins_command, ih, List.foldl_cons]

theorem frame_injective {k l : Button} (h : frame k = frame l) : k = l := by
  have htext : k.text = l.text := (List.cons.inj h).1
  cases k <;> cases l <;> first | rfl | exact absurd htext (by decide)

theorem flatMap_frame_injective {ks ls : List Button} (h : ks.flatMap frame = ls.flatMap frame) :
    ks = ls := by
  induction ks generalizing ls with
  | nil =>
    cases ls with
    | nil => rfl
    | cons l ls => simp [frame] at h
  | cons k ks ih =>
    cases ls with
    | nil => simp [frame] at h
    | cons l ls =>
      rw [List.flatMap_cons, List.flatMap_cons] at h
      obtain ⟨hframe, hrest⟩ := List.append_inj h ((length_frame k).trans (length_frame l).symm)
      rw [frame_injective hframe, ih hrest]

/-! What the server can hear. -/

theorem samples_piece (c : Button × Nat) :
    ((piece c).filterMap commandFraming.sample).Sublist [command c.1] := by
  have hframe : (frame c.1).filterMap commandFraming.sample = [command c.1] := by
    cases c.1 <;> rfl
  exact hframe ▸ (List.take_sublist c.2 (frame c.1)).filterMap _

theorem samples_pieces (kept : List (Button × Nat)) :
    ((kept.flatMap piece).filterMap commandFraming.sample).Sublist
      ((kept.map Prod.fst).map command) := by
  induction kept with
  | nil => exact List.Sublist.refl _
  | cons c kept ih =>
    rw [List.flatMap_cons, List.filterMap_append]
    exact (samples_piece c).append ih

/-- The run as the client and the server each see it: `ps` are the passes of the command loop, whose
calls, with those that the unread bytes can still come to, stand for bytes that were sent. -/
structure Joined {D : Display.{0, v, w} Pixel π} (bmp : Bitmaps π) (ticks : Int32)
    (screen : D.State) (d : Motor) (es : List EndsEvent) (s : Ends D) (ps : List Pass) : Prop where
  main : run (mainStep bmp ticks) (.start screen) (atClient es) = some s.main
  server : run loopStep (.start d) ps = some s.link.server
  calls : executed ps = s.link.calls
  heard : (s.link.calls ++ s.link.socket.filterMap commandFraming.sample).Sublist
    (s.main.sent.filterMap commandFraming.sample)

section
variable {D : Display.{0, v, w} Pixel π} {bmp : Bitmaps π} {ticks : Int32} {screen : D.State}
  {d : Motor} {es : List EndsEvent} {s t : Ends D} {ps : List Pass}

theorem Joined.main_step (h : Joined bmp ticks screen d es s ps) {e : MainEvent}
    (hstep : endsStep bmp ticks s (.main e) = some t) :
    Joined bmp ticks screen d (es ++ [.main e]) t ps := by
  obtain ⟨m, hm, rfl⟩ := Option.map_eq_some_iff.mp hstep
  have hmain : run (mainStep bmp ticks) (.start screen) (atClient (es ++ [.main e])) = some m := by
    rw [atClient_main]
    exact run_concat_eq_some.mpr ⟨s.main, h.main, hm⟩
  refine ⟨hmain, h.server, h.calls, ?_⟩
  have hsent : m.sent = s.main.sent ++ m.sent.drop s.main.sent.length := by
    rcases mainStep_sent hm with hsent | ⟨k, w, _, _, hsent⟩
    · rw [hsent, List.drop_length, List.append_nil]
    · rw [hsent, List.drop_left]
  show (s.link.calls ++ (s.link.socket ++ m.sent.drop s.main.sent.length).filterMap _).Sublist
    (m.sent.filterMap _)
  rw [hsent, List.drop_left, List.filterMap_append, List.filterMap_append, ← List.append_assoc]
  exact h.heard.append (List.Sublist.refl _)

theorem Joined.read_step (h : Joined bmp ticks screen d es s ps) {n : Nat} {o : OpenResult}
    (hstep : endsStep bmp ticks s (.read n o) = some t) :
    ∃ ps', Joined bmp ticks screen d (es ++ [.read n o]) t ps' := by
  obtain ⟨c, hc, rfl⟩ := Option.map_eq_some_iff.mp hstep
  have hmain : run (mainStep bmp ticks) (.start screen) (atClient (es ++ [.read n o])) =
      some s.main := by
    rw [atClient_other es rfl]
    exact h.main
  cases hsocket : s.link.socket with
  | nil => simp [linkStep, hsocket] at hc
  | cons b rest =>
    simp only [linkStep, hsocket] at hc
    split_ifs at hc with hn
    obtain ⟨p, hp, rfl⟩ := Option.map_eq_some_iff.mp hc
    refine ⟨ps ++ [⟨.data b, o⟩], hmain, ?_, ?_, ?_⟩
    · exact run_concat_eq_some.mpr ⟨_, h.server, hp⟩
    · rw [executed_concat, h.calls]
    · have hheard := h.heard
      rw [hsocket] at hheard
      exact (read_sublist hn.1 _).trans hheard

theorem Joined.hangUp_step (h : Joined bmp ticks screen d es s ps)
    (hstep : endsStep bmp ticks s .hangUp = some t) :
    ∃ ps', Joined bmp ticks screen d (es ++ [.hangUp]) t ps' := by
  simp only [endsStep] at hstep
  split at hstep
  · split_ifs at hstep
    obtain ⟨p, hp, rfl⟩ := Option.map_eq_some_iff.mp hstep
    refine ⟨ps ++ [⟨.closed, .granted⟩], ?_, ?_, ?_, h.heard⟩
    · rw [atClient_other es rfl]
      exact h.main
    · exact run_concat_eq_some.mpr ⟨_, h.server, hp⟩
    · rw [executed_concat, h.calls]
      exact List.append_nil _
  · cases hstep
  · cases hstep

theorem joined_run (hrun : run (endsStep bmp ticks) (.start screen d) es = some s) :
    ∃ ps, Joined bmp ticks screen d es s ps := by
  refine run_induction (I := fun es s => ∃ ps, Joined bmp ticks screen d es s ps) ?_ ?_ hrun
  · exact ⟨[], rfl, rfl, rfl, List.Sublist.refl _⟩
  · rintro es e s t _ ⟨ps, h⟩ hstep
    cases e with
    | main e => exact ⟨ps, h.main_step hstep⟩
    | read n o => exact h.read_step hstep
    | hangUp => exact h.hangUp_step hstep

end

/-! The stream, when every frame is taken whole. -/

/-- `fs` are the frames written and the reads. -/
structure Framed {D : Display.{0, v, w} Pixel π} (bmp : Bitmaps π) (ticks : Int32)
    (screen : D.State) (d : Motor) (es : List EndsEvent) (s : Ends D)
    (fs : List (Event Button)) : Prop where
  pipe : run commandFraming.step ⟨[], []⟩ fs = some s.link.pipe
  sent : s.main.sent = (written fs).flatMap frame
  unhurried : EachStep (endsStep bmp ticks) Unhurried (.start screen d) es →
    EachStep commandFraming.step Patient ⟨[], []⟩ fs

section
variable {D : Display.{0, v, w} Pixel π} {bmp : Bitmaps π} {ticks : Int32} {screen : D.State}
  {d : Motor} {es : List EndsEvent} {s t : Ends D} {fs : List (Event Button)}

theorem Framed.main_step (h : Framed bmp ticks screen d es s fs) {e : MainEvent}
    (hrun : run (endsStep bmp ticks) (.start screen d) es = some s)
    (hwhole : ∀ w, e = .poll w → w = .accepted)
    (hstep : endsStep bmp ticks s (.main e) = some t) :
    ∃ fs', Framed bmp ticks screen d (es ++ [.main e]) t fs' := by
  obtain ⟨m, hm, rfl⟩ := Option.map_eq_some_iff.mp hstep
  have hbefore : EachStep (endsStep bmp ticks) Unhurried (.start screen d) (es ++ [.main e]) →
      EachStep commandFraming.step Patient ⟨[], []⟩ fs := fun each =>
    h.unhurried (each.take (List.prefix_append _ _))
  rcases mainStep_sent hm with hsent | ⟨k, w, rfl, hk, hsent⟩
  · have hsame : s.link.socket ++ m.sent.drop s.main.sent.length = s.link.socket := by
      rw [hsent, List.drop_length, List.append_nil]
    rw [hsame]
    exact ⟨fs, h.pipe, hsent.trans h.sent, hbefore⟩
  · obtain rfl := hwhole w rfl
    rw [WriteResult.count, piece_whole] at hsent
    have hframe : m.sent.drop s.main.sent.length = frame k := by
      rw [hsent, List.drop_left]
    rw [hframe]
    refine ⟨fs ++ [.write k], ?_, ?_, fun each => ?_⟩
    · exact run_concat_eq_some.mpr ⟨_, h.pipe, rfl⟩
    · rw [hsent, written_write, List.flatMap_append, h.sent, List.flatMap_singleton]
    · refine eachStep_concat.mpr ⟨hbefore each, fun p hp => ?_⟩
      obtain rfl := Option.some.inj (h.pipe.symm.trans hp)
      exact each.last hrun (by simp [hk])

theorem Framed.read_step (h : Framed bmp ticks screen d es s fs) {n : Nat} {o : OpenResult}
    (hstep : endsStep bmp ticks s (.read n o) = some t) :
    Framed bmp ticks screen d (es ++ [.read n o]) t (fs ++ [.read n]) := by
  obtain ⟨c, hc, rfl⟩ := Option.map_eq_some_iff.mp hstep
  refine ⟨run_concat_eq_some.mpr ⟨_, h.pipe, pipe_step hc (v := .read n) rfl⟩, ?_, fun each => ?_⟩
  · rw [written_read]
    exact h.sent
  · exact eachStep_concat.mpr
      ⟨h.unhurried (each.take (List.prefix_append _ _)), fun _ _ => trivial⟩

theorem Framed.hangUp_step (h : Framed bmp ticks screen d es s fs)
    (hstep : endsStep bmp ticks s .hangUp = some t) :
    Framed bmp ticks screen d (es ++ [.hangUp]) t fs := by
  simp only [endsStep] at hstep
  split at hstep
  · split_ifs at hstep
    obtain ⟨p, _, rfl⟩ := Option.map_eq_some_iff.mp hstep
    exact ⟨h.pipe, h.sent, fun each => h.unhurried (each.take (List.prefix_append _ _))⟩
  · cases hstep
  · cases hstep

theorem framed_run (hrun : run (endsStep bmp ticks) (.start screen d) es = some s)
    (hall : Accepted (atClient es)) : ∃ fs, Framed bmp ticks screen d es s fs := by
  refine run_induction (I := fun es s => Accepted (atClient es) →
    ∃ fs, Framed bmp ticks screen d es s fs) ?_ ?_ hrun hall
  · exact fun _ => ⟨[], rfl, rfl, fun _ => eachStep_nil _ _⟩
  · intro es e s t hs ih hstep hall
    cases e with
    | main e =>
      rw [atClient_main] at hall
      obtain ⟨fs, h⟩ := ih fun w hw => hall w (List.mem_append_left _ hw)
      exact h.main_step hs (fun w he => hall w (by simp [he])) hstep
    | read n o =>
      rw [atClient_other es rfl] at hall
      obtain ⟨fs, h⟩ := ih hall
      exact ⟨_, h.read_step hstep⟩
    | hangUp =>
      rw [atClient_other es rfl] at hall
      obtain ⟨fs, h⟩ := ih hall
      exact ⟨fs, h.hangUp_step hstep⟩

end

/-! What the car does. -/

section
variable {D : Display.{0, v, w} Pixel π} {bmp : Bitmaps π} {n : Nat} {screen : D.State}
  {pins : Pins}

/-- Whatever is taken of each frame, and however the stream is split, the car executes only what was
pressed, in the order of the presses, and as long as the motor device opens, its pins are what these
calls leave. When moreover every frame is taken whole and used up before the next press is taken
from the queue, then, with nothing queued and nothing unread, the pins are those of a parked car
after all presses, and the screen shows the last of them. -/
theorem screen_and_car_agree (hcover : Covered bmp) {es : List EndsEvent} {s : Ends D}
    (hrun : run (endsStep bmp (Int32.ofNat n)) (.start screen (pwmInit pins)) es = some s)
    (hn : n + clicks (asked es) < 10 ^ 9) :
    s.link.calls.Sublist ((presses (asked es)).map command) ∧
      (s.link.server.ended ≠ some .openFailed →
        s.link.server.dev.pins = s.link.calls.foldl moterPins Pins.low ∧
        (EachStep (endsStep bmp (Int32.ofNat n)) Unhurried (.start screen (pwmInit pins)) es →
          Accepted (atClient es) → s.main.stage ≠ .connecting → s.main.queue = [] →
          s.link.socket = [] →
          s.link.server.dev.pins = encode ((presses (asked es)).foldl drive parked) ∧
            ∀ p, some (D.shown s.main.panel.screen p) =
              picture bmp (presses (asked es)).getLast? p)) := by
  obtain ⟨ps, h⟩ := joined_run hrun
  have hpins : s.link.server.ended ≠ some .openFailed →
      s.link.server.dev.pins = s.link.calls.foldl moterPins Pins.low := fun hopen => by
    rw [run_pins h.server hopen, h.calls, pwmInit_pins]
  have hheard : s.link.calls.Sublist (s.main.sent.filterMap commandFraming.sample) :=
    (List.sublist_append_left _ _).trans h.heard
  cases tracks_run hcover h.main hn with
  | connecting hs _ _ =>
    refine ⟨?_, fun hopen => ⟨hpins hopen, fun _ _ hstage => absurd (by rw [hs]; rfl) hstage⟩⟩
    rw [hs] at hheard
    exact hheard.trans (List.nil_sublist _)
  | follows done hmain hposted haccepted _ _ =>
    have hdone : (presses done).Sublist (presses (asked es)) := by
      rw [asked, hposted]
      exact (List.sublist_append_left _ _).filterMap _
    refine ⟨?_, fun hopen => ⟨hpins hopen, fun each hall _ hqueue hsocket => ?_⟩⟩
    · rw [hmain.sent] at hheard
      exact (hheard.trans (hmain.kept ▸ samples_pieces _)).trans (hdone.map command)
    · obtain ⟨fs, hframed⟩ := framed_run hrun hall
      have hwritten : written fs = presses done := by
        refine flatMap_frame_injective ?_
        rw [← hframed.sent, hmain.sent, flatMap_piece_whole (haccepted hall), hmain.kept]
      have hasked : asked es = done := by rw [asked, hposted, hqueue, List.append_nil]
      have hcalls : s.link.calls = (written fs).map command :=
        commandFraming.heard_all_of_patient hframed.pipe (hframed.unhurried each) hsocket
      rw [hasked]
      refine ⟨?_, hmain.shown⟩
      rw [hpins hopen, hcalls, hwritten]
      exact foldl_moterPins parked _

instance {D : Display.{0, v, w} Pixel π} (s : Ends D) :
    (e : EndsEvent) → Decidable (Unhurried s e)
  | .main (.poll _) => inferInstanceAs
      (Decidable ((s.main.queue.head?.bind SdlEvent.press).isSome → s.link.socket = []))
  | .main (.connect _) | .main (.post _) | .read _ _ | .hangUp => isTrue trivial

/-- `Up`, then `Left` once the frame of `Up` is used up, and a quit. -/
def upThenLeft : List EndsEvent :=
  [.main (.connect true), .main (.post (.mouseButtonDown 300 50)), .main (.poll .accepted),
    .read 20 .granted, .main (.post (.mouseButtonDown 230 150)), .read 10 .granted,
    .main (.poll .accepted), .read 20 .granted, .main (.post .quit), .main (.poll .accepted),
    .main (.poll .accepted), .read 10 .granted, .hangUp]

theorem screen_and_car_agree_upThenLeft :
    ∃ s : Ends (Display.doubleBuffer Pixel Image),
      run (endsStep labels 1200) (.start (fun _ => .main, fun _ => .main) (pwmInit Pins.low))
        upThenLeft = some s ∧
      s.link.server.dev.pins = encode ⟨.forward, .sideB⟩ ∧
      s.main.panel.screen.2 (210, 110) = .left2 := by
  -- the client is gone, the screen is as it was last, and the car goes on to the side
  have hrun : ∃ s : Ends (Display.doubleBuffer Pixel Image),
      run (endsStep labels 1200) (.start (fun _ => .main, fun _ => .main) (pwmInit Pins.low))
        upThenLeft = some s ∧ s.main.stage = .ended .returned ∧ s.main.queue = [] ∧
        s.link.socket = [] ∧ s.link.server.ended = some .readFailed := ⟨_, rfl, rfl, rfl, rfl, rfl⟩
  obtain ⟨s, hs, hstage, hqueue, hsocket, hended⟩ := hrun
  obtain ⟨_, hcar⟩ := screen_and_car_agree (n := 1200) covered_labels hs (by decide)
  obtain ⟨_, hagree⟩ := hcar (by simp [hended])
  obtain ⟨hpins, hshown⟩ := hagree (by decide) (by simp [Accepted, atClient, upThenLeft,
    EndsEvent.onMain]) (by simp [hstage]) hqueue hsocket
  exact ⟨s, hs, hpins, Option.some.inj (hshown (210, 110))⟩

end

end MdsBlackbox.Link.Cockpit
