/- module: MdsBlackbox/Server/PwmFile
   source: SERVER/rc_server/pwm_dev.c, SERVER/rc_server/pwm_app.c
   digest: Opens that fail and the pulses that reach the motor channels. -/

import MdsBlackbox.Lib.Transition
import MdsBlackbox.Server.PwmApp

set_option autoImplicit false
set_option relaxedAutoImplicit false

namespace MdsBlackbox.Server.PwmFile

open MdsBlackbox.Lib.Transition
open MdsBlackbox.Server.PwmDev
open MdsBlackbox.Server.PwmApp

/-! An open that fails. -/

/-- The two handles and the two claims are what they were. -/
def Kept (d e : Motor) : Prop :=
  (e.leftPwm.handle = d.leftPwm.handle ∧ e.leftPwm.claimed = d.leftPwm.claimed) ∧
    e.rightPwm.handle = d.rightPwm.handle ∧ e.rightPwm.claimed = d.rightPwm.claimed

/-- The request on this channel changes nothing: it is refused over a handle that is NULL already,
or gives once more what is held. -/
def Idle (c : Channel) (granted : Bool) : Prop :=
  c.handle = granted ∧ (granted = true → c.claimed = true)

theorem pwmOpen_of_refused (d : Motor) {left right : Bool} (h : left = false ∨ right = false) :
    pwmOpen d left right = (d.exec [.pwmRequest .left left, .pwmRequest .right right], -1) := by
  unfold pwmOpen
  exact if_pos h

theorem pwmOpen_fails_iff (d : Motor) (left right : Bool) :
    (pwmOpen d left right).2 < 0 ↔ left = false ∨ right = false := by
  by_cases h : left = false ∨ right = false
  · rw [pwmOpen_of_refused d h]
    exact iff_of_true (by decide : (-1 : Int) < 0) h
  · refine iff_of_false ?_ h
    have hret : (pwmOpen d left right).2 = 0 := by
      unfold pwmOpen
      exact congrArg Prod.snd (if_neg h)
    rw [hret]
    decide

theorem request_kept_iff {c : Channel} {granted : Bool} :
    (granted = c.handle ∧ (c.claimed || granted) = c.claimed) ↔ Idle c granted := by
  unfold Idle
  cases granted <;> cases c.handle <;> cases c.claimed <;> decide

/-- A failing open frees nothing and restores nothing, so it keeps what it found exactly when both
requests changed nothing. -/
theorem pwm_open_kept_iff {d : Motor} {left right : Bool} (hfail : (pwmOpen d left right).2 < 0) :
    Kept d (pwmOpen d left right).1 ↔ Idle d.leftPwm left ∧ Idle d.rightPwm right := by
  rw [pwmOpen_of_refused d ((pwmOpen_fails_iff d left right).mp hfail), ← request_kept_iff,
    ← request_kept_iff]
  exact Iff.rfl

theorem idle_of_unclaimed {c : Channel} (h : c.claimed = false) {granted : Bool} :
    Idle c granted ↔ granted = false ∧ c.handle = false := by
  unfold Idle
  rw [h]
  cases granted <;> cases c.handle <;> decide

theorem pwm_open_kept_unloaded :
    Kept (pwmInit Pins.low) (pwmOpen (pwmInit Pins.low) false false).1 :=
  (pwm_open_kept_iff (by decide)).mpr ⟨⟨by decide, by decide⟩, by decide, by decide⟩

theorem pwm_open_not_kept : ¬ ∀ (d : Motor) (left right : Bool), (pwmOpen d left right).2 < 0 →
    Kept d (pwmOpen d left right).1 := by
  -- a second open, refused both channels, takes the handles from the file that is open
  intro h
  have hkept := h (pwmOpen (pwmInit Pins.low) true true).1 false false (by decide)
  exact absurd hkept.1.1 (by decide)

/-! The pulses. -/

/-- The driver and the number of open files. -/
structure FileState where
  dev : Motor
  opens : Nat
  deriving DecidableEq

def FileState.insmod (pins : Pins) : FileState := ⟨pwmInit pins, 0⟩

inductive FileEvent
  | openDevice (left right : Bool)
  | ioctl (cmd : UInt32) (arg : Option PwmPulse)
  | release
  deriving DecidableEq

def fileStep (s : FileState) : FileEvent → Option FileState
  | .openDevice left right =>
    let r := pwmOpen s.dev left right
    some ⟨r.1, if r.2 = 0 then s.opens + 1 else s.opens⟩
  | .ioctl cmd arg => if 0 < s.opens then some { s with dev := ioctl s.dev cmd arg } else none
  | .release => if 0 < s.opens then some ⟨pwmRelease s.dev, s.opens - 1⟩ else none

/-- A pulse for each channel. -/
structure Pulses where
  left : PwmPulse
  right : PwmPulse
  deriving DecidableEq

def Pulses.zero : Pulses := ⟨⟨0, 0⟩, ⟨0, 0⟩⟩

def record (p : Pulses) : FileEvent → Pulses
  | .openDevice left right => if left && right then .zero else p
  | .ioctl cmd (some pulse) =>
    if cmd = LEFTPWM then { p with left := pulse }
    else if cmd = RIGHTPWM then { p with right := pulse }
    else p
  | _ => p

/-- The last pulse passed for each channel since the last open that succeeded. -/
def passed (es : List FileEvent) : Pulses := es.foldl record .zero

/-- The arguments of the last `pwm_config` on each channel. -/
def configured (d : Motor) : Pulses := ⟨d.leftPwm.config, d.rightPwm.config⟩

/-- What `moter_func` writes into its two structures before a move. -/
def filledIn : Pulses := ⟨⟨10 * MS, 1 * MS⟩, ⟨1 * MS, 10 * MS⟩⟩

/-- The calls of one `moter_func` whose open gets these outcomes. -/
def moterEvents (left right : Bool) (cmd : Int) : List FileEvent :=
  .openDevice left right :: ((moterIoctls cmd).map (fun c => .ioctl c.1 c.2) ++ [.release])

/-! The driver's own pulses are never written. -/

structure Unpulsed (d : Motor) : Prop where
  left : d.lpwmPulse = ⟨0, 0⟩
  right : d.rpwmPulse = ⟨0, 0⟩
  config : configured d = .zero

theorem Unpulsed.modify {d : Motor} (h : Unpulsed d) {f : Channel → Channel}
    (hf : ∀ c, c.config = ⟨0, 0⟩ → (f c).config = ⟨0, 0⟩) (side : Side) :
    Unpulsed (d.modify f side) := by
  obtain ⟨hleft, hright⟩ := Pulses.mk.inj h.config
  cases side with
  | left => exact ⟨h.left, h.right, congrArg₂ Pulses.mk (hf _ hleft) hright⟩
  | right => exact ⟨h.left, h.right, congrArg₂ Pulses.mk hleft (hf _ hright)⟩

theorem through_config {c : Channel} {f : Channel → Channel} (h : c.config = ⟨0, 0⟩)
    (hf : (f c).config = ⟨0, 0⟩) : (c.through f).config = ⟨0, 0⟩ := by
  unfold Channel.through
  split_ifs
  · exact hf
  · exact h

theorem unpulsed_exec {d : Motor} (h : Unpulsed d) {calls : List Call}
    (hcalls : ∀ side pulse, .pwmConfig side pulse ∈ calls → pulse = ⟨0, 0⟩) :
    Unpulsed (d.exec calls) := by
  induction calls generalizing d with
  | nil => exact h
  | cons c cs ih =>
    refine ih ?_ fun side pulse hmem => hcalls side pulse (List.mem_cons_of_mem c hmem)
    cases c with
    | gpioSetValue pin v => exact ⟨h.left, h.right, h.config⟩
    | pwmRequest side granted =>
      have hrequest : ∀ c : Channel, c.config = ⟨0, 0⟩ →
          ({ c with handle := granted, claimed := c.claimed || granted } : Channel).config =
            ⟨0, 0⟩ := fun _ hc => hc
      exact h.modify hrequest side
    | pwmFree side => exact h.modify (fun _ hc => through_config hc hc) side
    | pwmEnable side => exact h.modify (fun _ hc => through_config hc hc) side
    | pwmConfig side pulse =>
      obtain rfl := hcalls side pulse List.mem_cons_self
      exact h.modify (fun _ hc => through_config hc rfl) side

theorem unpulsed_ioctl {d : Motor} (h : Unpulsed d) (cmd : UInt32) (arg : Option PwmPulse) :
    Unpulsed (ioctl d cmd arg) := by
  refine unpulsed_exec h fun side pulse hmem => ?_
  unfold pwmIoctl at hmem
  rw [h.left, h.right] at hmem
  split_ifs at hmem <;> simp at hmem <;> exact hmem.2

theorem unpulsed_open {d : Motor} (h : Unpulsed d) (left right : Bool) :
    Unpulsed (pwmOpen d left right).1 := by
  have hrequests : Unpulsed (d.exec [.pwmRequest .left left, .pwmRequest .right right]) :=
    unpulsed_exec h (by simp)
  unfold pwmOpen
  simp only
  split_ifs
  · exact hrequests
  · refine unpulsed_exec hrequests fun side pulse hmem => ?_
    simp only [List.mem_cons, Call.pwmConfig.injEq, List.not_mem_nil, or_false] at hmem
    rcases hmem with ⟨_, hzero⟩ | ⟨_, hzero⟩ <;> exact hzero

theorem unpulsed_release {d : Motor} (h : Unpulsed d) : Unpulsed (pwmRelease d) :=
  unpulsed_exec h (by simp)

theorem unpulsed_step {s t : FileState} {e : FileEvent} (h : Unpulsed s.dev)
    (hstep : fileStep s e = some t) : Unpulsed t.dev := by
  cases e with
  | openDevice left right =>
    obtain rfl := Option.some.inj hstep
    exact unpulsed_open h left right
  | ioctl cmd arg =>
    simp only [fileStep] at hstep
    split_ifs at hstep
    obtain rfl := Option.some.inj hstep
    exact unpulsed_ioctl h cmd arg
  | release =>
    simp only [fileStep] at hstep
    split_ifs at hstep
    obtain rfl := Option.some.inj hstep
    exact unpulsed_release h

theorem unpulsed_run {pins : Pins} {es : List FileEvent} {s : FileState}
    (hrun : run fileStep (.insmod pins) es = some s) : Unpulsed s.dev := by
  refine invariant (I := fun s : FileState => Unpulsed s.dev) ?_ ?_ hrun
  · exact unpulsed_exec ⟨rfl, rfl, rfl⟩ (by simp)
  · exact fun _ _ _ h hstep => unpulsed_step h hstep

/-! `moter_func` on the driver. -/

theorem ioctls_run (s : FileState) (hopen : 0 < s.opens) (calls : List (UInt32 × Option PwmPulse)) :
    run fileStep s (calls.map fun c => .ioctl c.1 c.2) =
      some ⟨ioctls s.dev calls, s.opens⟩ := by
  induction calls generalizing s with
  | nil => rfl
  | cons c cs ih =>
    refine run_cons_eq_some.mpr ⟨{ s with dev := ioctl s.dev c.1 c.2 }, if_pos hopen, ?_⟩
    exact ih _ hopen

theorem opened_of_returned {d : Motor} {left right : Bool} {cmd : Int}
    (hret : (moterFunc (.requests left right) d cmd).2 = true) : (pwmOpen d left right).2 = 0 := by
  by_contra hfail
  simp [moterFunc, openPwm, hfail] at hret

theorem granted_of_returned {d : Motor} {left right : Bool} {cmd : Int}
    (hret : (moterFunc (.requests left right) d cmd).2 = true) : left = true ∧ right = true := by
  have hnot : ¬ (left = false ∨ right = false) := by
    rw [← pwmOpen_fails_iff d, opened_of_returned hret]
    decide
  rwa [not_or, Bool.not_eq_false, Bool.not_eq_false] at hnot

theorem moter_runs {s : FileState} {left right : Bool} {cmd : Int}
    (hret : (moterFunc (.requests left right) s.dev cmd).2 = true) :
    run fileStep s (moterEvents left right cmd) =
      some ⟨(moterFunc (.requests left right) s.dev cmd).1, s.opens⟩ := by
  have hopen := opened_of_returned hret
  have hend : (moterFunc (.requests left right) s.dev cmd).1 =
      pwmRelease (ioctls (pwmOpen s.dev left right).1 (moterIoctls cmd)) := by
    simp [moterFunc, openPwm, hopen]
  rw [hend]
  let opened : FileState := ⟨(pwmOpen s.dev left right).1, s.opens + 1⟩
  have hpos : 0 < opened.opens := Nat.succ_pos s.opens
  refine run_cons_eq_some.mpr ⟨opened, ?_, ?_⟩
  · simp only [fileStep, hopen, if_true, opened]
  · refine run_append_eq_some.mpr ⟨_, ioctls_run opened hpos (moterIoctls cmd), ?_⟩
    simp [run, fileStep, opened]

theorem moter_passed (es : List FileEvent) {cmd : Int} (hcmd : cmd ∈ [1, 8, 5, 6]) :
    passed (es ++ moterEvents true true cmd) = filledIn := by
  unfold passed
  rw [List.foldl_append]
  simp only [List.mem_cons, List.not_mem_nil, or_false] at hcmd
  rcases hcmd with rfl | rfl | rfl | rfl <;> rfl

theorem carried_iff {pins : Pins} {es : List FileEvent} {s : FileState}
    (hrun : run fileStep (.insmod pins) es = some s) :
    configured s.dev = passed es ↔ passed es = .zero := by
  rw [(unpulsed_run hrun).config]
  exact eq_comm

/-- The channels carry what was passed exactly when only zero pulses were, so after no move of
`moter_func`, which passes others. -/
theorem pulses_carried_iff {pins : Pins} {es : List FileEvent} {s : FileState}
    (hrun : run fileStep (.insmod pins) es = some s) :
    (configured s.dev = passed es ↔ passed es = .zero) ∧
      ∀ o (cmd : Int), cmd ∈ [1, 8, 5, 6] → (moterFunc o s.dev cmd).2 = true →
        configured (moterFunc o s.dev cmd).1 ≠ filledIn := by
  refine ⟨carried_iff hrun, fun o cmd hcmd hret => ?_⟩
  cases o with
  | noDevice => cases hret
  | requests left right =>
    obtain ⟨rfl, rfl⟩ := granted_of_returned hret
    have hmoter := run_append_eq_some.mpr ⟨s, hrun, moter_runs hret⟩
    have hcarried := carried_iff hmoter
    rw [moter_passed es hcmd] at hcarried
    exact fun h => absurd (hcarried.mp h) (by decide)

/-- Both pulses passed, with nothing in them. -/
def zeroPulses : List FileEvent :=
  [.openDevice true true, .ioctl LEFTPWM (some ⟨0, 0⟩), .ioctl RIGHTPWM (some ⟨0, 0⟩)]

theorem pulses_carried_zero :
    ∃ s, run fileStep (.insmod Pins.low) zeroPulses = some s ∧
      configured s.dev = passed zeroPulses ∧
      configured (moterFunc .granted s.dev 1).1 ≠ filledIn := by
  have hrun : ∃ s, run fileStep (.insmod Pins.low) zeroPulses = some s := ⟨_, rfl⟩
  obtain ⟨s, hs⟩ := hrun
  exact ⟨s, hs, (pulses_carried_iff hs).1.mpr (by decide),
    (pulses_carried_iff hs).2 .granted 1 (by decide) (moterFunc_granted _ 1)⟩

theorem pulses_not_carried : ¬ ∀ (pins : Pins) (es : List FileEvent) (s : FileState),
    run fileStep (.insmod pins) es = some s → configured s.dev = passed es := by
  -- the pulse of the left channel that `moter_func` passes is not configured
  intro h
  have hcarried := h Pins.low [.openDevice true true, .ioctl LEFTPWM (some ⟨10 * MS, 1 * MS⟩)] _ rfl
  exact absurd hcarried (by decide)

end MdsBlackbox.Server.PwmFile
