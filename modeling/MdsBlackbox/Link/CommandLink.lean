/- module: MdsBlackbox/Link/CommandLink
   source: CLIENT/rc_client/rc_client.c, SERVER/rc_server/rc_server.c
   digest: The byte stream from the remote control to the command loop, under every split. -/

import MdsBlackbox.Client.Remote
import MdsBlackbox.Lib.Sampling
import MdsBlackbox.Server.CommandLoop

set_option autoImplicit false
set_option relaxedAutoImplicit false

namespace MdsBlackbox.Link.CommandLink

open MdsBlackbox.Lib.Transition
open MdsBlackbox.Lib.Sampling
open MdsBlackbox.Client.Remote
open MdsBlackbox.Server.PwmDev
open MdsBlackbox.Server.PwmApp
open MdsBlackbox.Server.CommandLoop

/-- The bytes in the connection, the server process, and its `moter_func` calls so far. -/
structure Connection where
  socket : List UInt8
  server : Process
  calls : List Int
  deriving DecidableEq

def Connection.start (d : Motor) : Connection := ⟨[], .start d, []⟩

/-- A mouse-down on the client, or a read of `n` bytes by the server and the pass that follows. -/
inductive LinkEvent
  | click (x y : Nat)
  | read (n : Nat) (openPwm : OpenResult)

/-- TCP is reliable and in order, and `write` accepts a frame whole. -/
def linkStep (s : Connection) : LinkEvent → Option Connection
  | .click x y =>
    match touched x y with
    | none => some s
    | some k => some { s with socket := s.socket ++ frame k }
  | .read n o =>
    match s.socket with
    | [] => none
    | b :: _ =>
      if 1 ≤ n ∧ n ≤ 20 ∧ n ≤ s.socket.length then
        (loopStep s.server ⟨.data b, o⟩).map fun p =>
          ⟨s.socket.drop n, p, s.calls ++ (Pass.called ⟨.data b, o⟩).toList⟩
      else none

/-- The argument that `moter_func` is meant to get for a button. -/
def command : Button → Int
  | .up => 1
  | .down => 8
  | .right => 5
  | .left => 6
  | .stop => 7

/-! The stream seen as frames that are sampled at the starts of reads. -/

/-- Frames of `MAXLINE` bytes, reads of at most 20, and a switch that ignores the padding. -/
def commandFraming : Framing Button UInt8 Int where
  size := MAXLINE
  cap := 20
  frame := frame
  sample b := (dispatch b).map Prod.snd
  meaning := command
  size_pos := by decide
  frame_length := length_frame
  head_sample k := by cases k <;> rfl
  padding_silent k j hj := by
    cases hb : (frame k)[j]? with
    | none => rfl
    | some b =>
      obtain rfl : b = 0 := frame_padding k hj hb
      rfl

/-- What an event does to the stream; a click beside the buttons does nothing. -/
def LinkEvent.onStream : LinkEvent → Option (Event Button)
  | .click x y => (touched x y).map .write
  | .read n _ => some (.read n)

def presses (es : List LinkEvent) : List Button := written (es.filterMap LinkEvent.onStream)

/-- The stream offsets at which the server's reads started. -/
def readOffsets (es : List LinkEvent) : List Nat :=
  readStarts 0 (es.filterMap LinkEvent.onStream)

def Connection.pipe (s : Connection) : Pipe UInt8 Int := ⟨s.socket, s.calls⟩

theorem pipe_step {s t : Connection} {e : LinkEvent} {v : Event Button} (h : linkStep s e = some t)
    (hv : e.onStream = some v) : commandFraming.step s.pipe v = some t.pipe := by
  cases e with
  | click x y =>
    obtain ⟨k, hk, rfl⟩ := Option.map_eq_some_iff.mp hv
    simp only [linkStep, hk, Option.some.injEq] at h
    subst h
    rfl
  | read n o =>
    obtain rfl := Option.some.inj hv
    obtain ⟨socket, server, calls⟩ := s
    cases socket with
    | nil => cases h
    | cons b rest =>
      simp only [linkStep] at h
      split_ifs at h with hn
      obtain ⟨p, _, rfl⟩ := Option.map_eq_some_iff.mp h
      have hfits : 1 ≤ n ∧ n ≤ commandFraming.cap ∧ n ≤ (b :: rest).length := hn
      simp only [Framing.step, Connection.pipe, hfits, and_self, if_true]
      rfl

theorem pipe_hidden {s t : Connection} {e : LinkEvent} (h : linkStep s e = some t)
    (hv : e.onStream = none) : t.pipe = s.pipe := by
  cases e with
  | click x y =>
    have hk : touched x y = none := Option.map_eq_none_iff.mp hv
    simp only [linkStep, hk, Option.some.injEq] at h
    rw [h]
  | read n o => cases hv

theorem pipe_run {d : Motor} {es : List LinkEvent} {s : Connection}
    (hrun : run linkStep (Connection.start d) es = some s) :
    run commandFraming.step ⟨[], []⟩ (es.filterMap LinkEvent.onStream) = some s.pipe :=
  run_simulates (f := Connection.pipe) (g := LinkEvent.onStream) (I := fun _ => True) trivial
    (fun _ _ _ _ _ => trivial) (fun _ _ _ _ _ h hv => pipe_step h hv)
    (fun _ _ _ _ h hv => pipe_hidden h hv) hrun

/-! What the server executes. -/

/-- The calls are those of the command loop: passes of the loop that make them lead to the server's
state, and as long as the motor device opens, the pins are what they leave. -/
structure Executes (d : Motor) (s : Connection) : Prop where
  passes : ∃ ps, run loopStep (.start d) ps = some s.server ∧ executed ps = s.calls
  pins : s.server.ended ≠ some .openFailed → s.server.dev.pins = s.calls.foldl moterPins d.pins

theorem executes_of_passes {d : Motor} {s : Connection} (ps : List Pass)
    (hrun : run loopStep (.start d) ps = some s.server) (hcalls : executed ps = s.calls) :
    Executes d s :=
  ⟨⟨ps, hrun, hcalls⟩, fun hopen => hcalls ▸ run_pins hrun hopen⟩

theorem executes_step {d : Motor} {s t : Connection} {e : LinkEvent} (h : Executes d s)
    (hstep : linkStep s e = some t) : Executes d t := by
  cases e with
  | click x y =>
    simp only [linkStep] at hstep
    split at hstep <;> obtain rfl := Option.some.inj hstep
    · exact h
    · exact ⟨h.passes, h.pins⟩
  | read n o =>
    obtain ⟨ps, hps, hcalls⟩ := h.passes
    simp only [linkStep] at hstep
    split at hstep
    · cases hstep
    · rename_i b _ _
      split_ifs at hstep
      obtain ⟨p, hp, rfl⟩ := Option.map_eq_some_iff.mp hstep
      refine executes_of_passes (ps ++ [⟨.data b, o⟩]) ?_ ?_
      · exact run_concat_eq_some.mpr ⟨s.server, hps, hp⟩
      · rw [executed_concat, hcalls]

theorem executes_run {d : Motor} {es : List LinkEvent} {s : Connection}
    (hrun : run linkStep (Connection.start d) es = some s) : Executes d s :=
  invariant (I := Executes d) (executes_of_passes [] rfl rfl)
    (fun _ _ _ h he => executes_step h he) hrun

/-- No button is pressed while a part of an earlier frame is still unread. -/
def FrameByFrame (s : Connection) : LinkEvent → Prop
  | .click x y => (touched x y).isSome → s.socket = []
  | .read _ _ => True

theorem patient_run {d : Motor} {es : List LinkEvent} {s : Connection}
    (hrun : run linkStep (Connection.start d) es = some s)
    (each : EachStep linkStep FrameByFrame (Connection.start d) es) :
    EachStep commandFraming.step Patient ⟨[], []⟩ (es.filterMap LinkEvent.onStream) := by
  refine eachStep_simulates (f := Connection.pipe) (g := LinkEvent.onStream) (I := fun _ => True)
    trivial (fun _ _ _ _ _ => trivial) (fun _ _ _ _ _ h hv => pipe_step h hv)
    (fun _ _ _ _ h hv => pipe_hidden h hv) ?_ hrun each
  intro t e v hframe hv
  cases e with
  | click x y =>
    obtain ⟨k, hk, rfl⟩ := Option.map_eq_some_iff.mp hv
    exact hframe (by simp [hk])
  | read n o =>
    obtain rfl := Option.some.inj hv
    trivial

/-- The executed commands are, in order, those of the frames at whose first byte some read started;
they are a subsequence of the pressed ones, and all of them when the frames are read one by one.
They are the calls of the command loop, and the pins follow them. -/
theorem calls_sampled {d : Motor} {es : List LinkEvent} {s : Connection}
    (hrun : run linkStep (Connection.start d) es = some s) :
    s.calls = (pick (fun i => 30 * i ∈ readOffsets es) (presses es)).map command ∧
      s.calls.Sublist ((presses es).map command) ∧
      (EachStep linkStep FrameByFrame (Connection.start d) es → s.socket = [] →
        s.calls = (presses es).map command) ∧ Executes d s := by
  have hpipe := pipe_run hrun
  have hcalls : s.calls = (pick (fun i => 30 * i ∈ readOffsets es) (presses es)).map command :=
    commandFraming.heard_eq hpipe
  refine ⟨hcalls, ?_, ?_, executes_run hrun⟩
  · rw [hcalls]
    exact (pick_sublist _ _).map command
  · intro each hempty
    exact commandFraming.heard_all_of_patient hpipe (patient_run hrun each) hempty

theorem calls_sampled_split_frame :
    ∃ s, run linkStep (Connection.start (pwmInit Pins.low))
        [.click 300 50, .read 7 .granted, .read 20 .granted, .read 3 .granted] = some s ∧
      s.calls = [1] := by
  refine ⟨_, rfl, ?_⟩
  have hrun : run linkStep (Connection.start (pwmInit Pins.low))
      [.click 300 50, .read 7 .granted, .read 20 .granted, .read 3 .granted] = some _ := rfl
  exact (calls_sampled hrun).1.trans (by decide)

/-- No press is lost exactly when a read starts at the first byte of every frame; what is executed
are the calls of the command loop. -/
theorem calls_complete_iff {d : Motor} {es : List LinkEvent} {s : Connection}
    (hrun : run linkStep (Connection.start d) es = some s) :
    (s.calls = (presses es).map command ↔
      ∀ i < (presses es).length, 30 * i ∈ readOffsets es) ∧ Executes d s :=
  ⟨commandFraming.heard_all_iff (pipe_run hrun), executes_run hrun⟩

theorem calls_complete_aligned :
    ∃ s, run linkStep (Connection.start (pwmInit Pins.low))
        [.click 300 50, .click 300 150, .read 20 .granted, .read 10 .granted,
          .read 20 .granted, .read 10 .granted] = some s ∧
      s.calls = [1, 7] := by
  refine ⟨_, rfl, ?_⟩
  have hrun : run linkStep (Connection.start (pwmInit Pins.low))
      [.click 300 50, .click 300 150, .read 20 .granted, .read 10 .granted,
        .read 20 .granted, .read 10 .granted] = some _ := rfl
  exact (calls_complete_iff hrun).1.mpr (by decide)

theorem calls_incomplete : ¬ ∀ (es : List LinkEvent) (s : Connection),
    run linkStep (Connection.start (pwmInit Pins.low)) es = some s → s.socket = [] →
      s.calls = (presses es).map command := by
  intro h
  have hbad := h [.click 300 50, .click 300 150, .read 20 .granted, .read 20 .granted,
    .read 20 .granted] _ rfl rfl
  exact absurd hbad (by decide)

end MdsBlackbox.Link.CommandLink
