/- module: MdsBlackbox/Link/Backlog
   source: CLIENT/rc_client/rc_client.c, SERVER/rc_server/rc_server.c
   digest: Which presses the car executes when it cannot keep up with them. -/

import MdsBlackbox.Lib.Greedy
import MdsBlackbox.Link.CommandLink

set_option autoImplicit false
set_option relaxedAutoImplicit false

namespace MdsBlackbox.Link.Backlog

open MdsBlackbox.Lib.Transition
open MdsBlackbox.Lib.Sampling
open MdsBlackbox.Client.Remote
open MdsBlackbox.Server.PwmDev
open MdsBlackbox.Link.CommandLink

/-- `read(newsockfd, buff, 20)` returns all that has arrived, up to its twenty bytes. -/
def ReadsAll (s : Connection) : LinkEvent → Prop
  | .click _ _ => True
  | .read n _ => n = min 20 s.socket.length

instance (s : Connection) : (e : LinkEvent) → Decidable (ReadsAll s e)
  | .click _ _ => isTrue trivial
  | .read n _ => inferInstanceAs (Decidable (n = min 20 s.socket.length))

/-- With each press, whether the bytes unread before it are a multiple of twenty. -/
def note (s : Connection) : LinkEvent → List (Button × Bool) → List (Button × Bool)
  | .click x y, ms =>
    match touched x y with
    | none => ms
    | some k => ms ++ [(k, decide (20 ∣ s.socket.length))]
  | .read _ _, ms => ms

def noted (d : Motor) (es : List LinkEvent) : List (Button × Bool) :=
  history linkStep note (Connection.start d) [] es

theorem noted_eq {d : Motor} {es : List LinkEvent} {s : Connection}
    (hrun : run linkStep (Connection.start d) es = some s) :
    noted d es = commandFraming.marks (es.filterMap LinkEvent.onStream) := by
  refine run_induction (I := fun es _ =>
    noted d es = commandFraming.marks (es.filterMap LinkEvent.onStream)) rfl ?_ hrun
  intro es e t u ht ih hu
  rw [noted, history_concat ht hu, List.filterMap_append]
  cases hv : e.onStream with
  | none =>
    rw [List.filterMap_cons_none hv, List.filterMap_nil, List.append_nil, ← ih]
    cases e with
    | click x y =>
      have hk : touched x y = none := Option.map_eq_none_iff.mp hv
      simp only [note, hk]
      rfl
    | read n o => cases hv
  | some v =>
    rw [List.filterMap_cons_some hv, List.filterMap_nil, Framing.marks,
      history_concat (pipe_run ht) (pipe_step hu hv), ← Framing.marks, ← ih]
    cases e with
    | click x y =>
      obtain ⟨k, hk, rfl⟩ := Option.map_eq_some_iff.mp hv
      simp only [note, hk]
      rfl
    | read n o =>
      obtain rfl := Option.some.inj hv
      rfl

theorem readsAll_run {d : Motor} {es : List LinkEvent} {s : Connection}
    (hrun : run linkStep (Connection.start d) es = some s)
    (each : EachStep linkStep ReadsAll (Connection.start d) es) :
    EachStep commandFraming.step (Greedy commandFraming) ⟨[], []⟩
      (es.filterMap LinkEvent.onStream) := by
  refine eachStep_simulates (f := Connection.pipe) (g := LinkEvent.onStream) (I := fun _ => True)
    trivial (fun _ _ _ _ _ => trivial) (fun _ _ _ _ _ h hv => pipe_step h hv)
    (fun _ _ _ _ h hv => pipe_hidden h hv) ?_ hrun each
  intro t e v hreads hv
  cases e with
  | click x y =>
    obtain ⟨k, _, rfl⟩ := Option.map_eq_some_iff.mp hv
    trivial
  | read n o =>
    obtain rfl := Option.some.inj hv
    exact hreads

/-- A server that reads all that has arrived executes, once it has caught up, exactly the presses
before which a multiple of twenty bytes were unread: those that find nothing unread, and of those
that come while it is behind, with no read between them, every second one. -/
theorem executed_from_backlog {d : Motor} {es : List LinkEvent} {s : Connection}
    (hrun : run linkStep (Connection.start d) es = some s)
    (each : EachStep linkStep ReadsAll (Connection.start d) es) (hcaught : s.socket = []) :
    s.calls = ((noted d es).filter Prod.snd).map fun m => command m.1 := by
  rw [noted_eq hrun]
  exact commandFraming.heard_of_greedy (by decide) (pipe_run hrun) (readsAll_run hrun each) hcaught

/-- `Up`, `Stop` and `Down` before the first read, and `Stop` when all is read: the first `Stop`
is lost. -/
def threeAtOnce : List LinkEvent :=
  [.click 300 50, .click 300 150, .click 300 200, .read 20 .granted, .read 20 .granted,
    .read 20 .granted, .read 20 .granted, .read 10 .granted, .click 300 150, .read 20 .granted,
    .read 10 .granted]

theorem executed_from_backlog_threeAtOnce :
    ∃ s, run linkStep (Connection.start (pwmInit Pins.low)) threeAtOnce = some s ∧
      s.calls = [1, 8, 7] := by
  refine ⟨_, rfl, ?_⟩
  have hrun : run linkStep (Connection.start (pwmInit Pins.low)) threeAtOnce = some _ := rfl
  exact (executed_from_backlog hrun (by decide) rfl).trans (by decide)

end MdsBlackbox.Link.Backlog
