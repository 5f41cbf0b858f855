/- module: MdsBlackbox/Server/CommandLoop
   source: SERVER/rc_server/rc_server.c
   digest: The read and dispatch loop of the server process, and what it leaves on exit. -/

import Mathlib.Logic.Function.Iterate
import MdsBlackbox.Lib.Transition
import MdsBlackbox.Server.PwmApp

set_option autoImplicit false
set_option relaxedAutoImplicit false

namespace MdsBlackbox.Server.CommandLoop

open MdsBlackbox.Lib.Transition
open MdsBlackbox.Server.PwmDev
open MdsBlackbox.Server.PwmApp

/-- The switch on `buff[0]`: the value given to `cmd` and the argument of `moter_func`; the
default branch is `none`. -/
def dispatch (b : UInt8) : Option (Int × Int) :=
  if b = '1'.toUInt8 then some (0, 1)
  else if b = '2'.toUInt8 then some (0, 8)
  else if b = '3'.toUInt8 then some (5, 5)
  else if b = '4'.toUInt8 then some (6, 6)
  else if b = '5'.toUInt8 then some (0, 7)
  else none

/-- What `read(newsockfd, buff, 20)` gives: end of file, an error, or at least one byte, of which
the loop looks at the first. -/
inductive ReadResult
  | closed
  | error
  | data (first : UInt8)
  deriving DecidableEq

/-- One pass of the loop: its read, and how an open of the motor device would go. -/
structure Pass where
  read : ReadResult
  openPwm : OpenResult
  deriving DecidableEq

def received (b : UInt8) : Pass := ⟨.data b, .granted⟩

inductive Ending
  | readFailed
  | openFailed
  | ledFailed
  deriving DecidableEq

/-- The main thread's view: its variable `cmd`, the driver below it, and the motor descriptors
that the process holds. -/
structure Process where
  cmd : Int
  dev : Motor
  pwmFds : Nat
  ended : Option Ending
  deriving DecidableEq

def Process.start (d : Motor) : Process := ⟨0, d, 0, none⟩

/-- `exit`: the kernel closes the descriptors, and each motor one runs `pwm_release`. -/
def Process.exit (s : Process) (why : Ending) : Process :=
  { s with dev := pwmRelease^[s.pwmFds] s.dev, pwmFds := 0, ended := some why }

/-- One pass of the loop. `moter_func` closes the descriptor it opened before it returns. -/
def loopStep (s : Process) (p : Pass) : Option Process :=
  if s.ended.isSome then none
  else
    match p.read with
    | .closed => some (s.exit .readFailed)
    | .error => some (s.exit .readFailed)
    | .data b =>
      match dispatch b with
      | none => some s
      | some (cmd, k) =>
        let r := moterFunc p.openPwm s.dev k
        let t := { s with cmd := cmd, dev := r.1 }
        if r.2 then some t else some (t.exit .openFailed)

def Pass.called (p : Pass) : Option Int :=
  match p.read with
  | .data b => (dispatch b).map Prod.snd
  | _ => none

def executed (ps : List Pass) : List Int := ps.filterMap Pass.called

theorem exit_pins (s : Process) (why : Ending) : (s.exit why).dev.pins = s.dev.pins := by
  have hrel : ∀ (n : Nat) (d : Motor), (pwmRelease^[n] d).pins = d.pins := by
    intro n
    induction n with
    | zero => intro d; rfl
    | succ n ih =>
      intro d
      rw [Function.iterate_succ_apply, ih, pwmRelease_pins]
  exact hrel _ _

theorem loopStep_cases {s t : Process} {p : Pass} (h : loopStep s p = some t) :
    s.ended = none ∧
      ((t.ended = some .readFailed ∧ p.called = none ∧ t.dev.pins = s.dev.pins) ∨
       (t.ended = none ∧ p.called = none ∧ t.dev.pins = s.dev.pins) ∨
       (∃ k, t.ended = none ∧ p.called = some k ∧ t.dev.pins = moterPins s.dev.pins k) ∨
       (t.ended = some .openFailed ∧ t.dev.pins = s.dev.pins)) := by
  unfold loopStep at h
  split_ifs at h with hend
  have hnone : s.ended = none := by simpa using hend
  refine ⟨hnone, ?_⟩
  obtain ⟨r, o⟩ := p
  cases r with
  | closed =>
    obtain rfl := Option.some.inj h
    exact Or.inl ⟨rfl, rfl, exit_pins _ _⟩
  | error =>
    obtain rfl := Option.some.inj h
    exact Or.inl ⟨rfl, rfl, exit_pins _ _⟩
  | data b =>
    cases hd : dispatch b with
    | none =>
      simp only [hd, Option.some.injEq] at h
      subst h
      exact Or.inr (Or.inl ⟨hnone, by simp [Pass.called, hd], rfl⟩)
    | some ck =>
      obtain ⟨cmd, k⟩ := ck
      simp only [hd] at h
      split_ifs at h with hret
      · obtain rfl := Option.some.inj h
        exact Or.inr (Or.inr (Or.inl
          ⟨k, hnone, by simp [Pass.called, hd], moterFunc_returned hret⟩))
      · obtain rfl := Option.some.inj h
        refine Or.inr (Or.inr (Or.inr ⟨rfl, ?_⟩))
        rw [exit_pins]
        exact moterFunc_exited (by simpa using hret)

theorem executed_concat (ps : List Pass) (p : Pass) :
    executed (ps ++ [p]) = executed ps ++ p.called.toList := by
  cases h : p.called <;> simp [executed, List.filterMap_append, h]

theorem run_pins {d : Motor} {ps : List Pass} {s : Process}
    (hrun : run loopStep (Process.start d) ps = some s) (hend : s.ended ≠ some .openFailed) :
    s.dev.pins = (executed ps).foldl moterPins d.pins := by
  revert hend
  refine run_induction (I := fun ps s => s.ended ≠ some .openFailed →
    s.dev.pins = (executed ps).foldl moterPins d.pins) (fun _ => rfl) ?_ hrun
  intro ps p t u _ ih hu hend
  obtain ⟨hlive, hcase⟩ := loopStep_cases hu
  have hpins := ih (by rw [hlive]; simp)
  rw [executed_concat, List.foldl_append]
  rcases hcase with ⟨_, hc, hp⟩ | ⟨_, hc, hp⟩ | ⟨k, _, hc, hp⟩ | ⟨he, _⟩
  · rw [hc, hp, hpins]
    rfl
  · rw [hc, hp, hpins]
    rfl
  · rw [hc, hp, hpins]
    rfl
  · exact absurd he hend

theorem executed_code {ps : List Pass} {k : Int} (hk : k ∈ executed ps) :
    k = 1 ∨ k = 8 ∨ k = 5 ∨ k = 6 ∨ k = 7 := by
  obtain ⟨p, _, hp⟩ := List.mem_filterMap.mp hk
  unfold Pass.called at hp
  split at hp
  · obtain ⟨ck, hd, rfl⟩ := Option.map_eq_some_iff.mp hp
    unfold dispatch at hd
    split_ifs at hd <;> obtain rfl := Option.some.inj hd <;> simp
  · cases hp

end MdsBlackbox.Server.CommandLoop
