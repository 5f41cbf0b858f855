/- module: MdsBlackbox/Server/Restarts
   source: SERVER/rc_server/rc_server.c, SERVER/rc_server/th_ultra.c
   digest: Motors and trigger timers over all server processes, one after the other. -/

import Mathlib.Data.List.Nodup
import MdsBlackbox.Server.BoardSteps

set_option autoImplicit false
set_option relaxedAutoImplicit false

namespace MdsBlackbox.Server.Restarts

open MdsBlackbox.Lib.Transition
open MdsBlackbox.Server.PwmDev
open MdsBlackbox.Server.PwmApp
open MdsBlackbox.Server.CommandLoop
open MdsBlackbox.Server.Led
open MdsBlackbox.Server.LedThreads
open MdsBlackbox.Server.LedFailure
open MdsBlackbox.Server.TriggerTimer
open MdsBlackbox.Server.BoardSteps

/-! The motor channels. -/

/-- A channel that is claimed or not, and in the first case behind its global. -/
def Holds (c : Channel) (held : Bool) : Prop := c.claimed = held ∧ (held = true → c.handle = true)

def Held (d : Motor) (held : Bool) : Prop := Holds d.leftPwm held ∧ Holds d.rightPwm held

theorem Holds.through {c : Channel} {held : Bool} (h : Holds c held) {f : Channel → Channel}
    (hclaimed : (f c).claimed = c.claimed) (hhandle : (f c).handle = c.handle) :
    Holds (c.through f) held := by
  unfold Channel.through
  split_ifs
  · exact ⟨hclaimed.trans h.1, fun hheld => hhandle.trans (h.2 hheld)⟩
  · exact h

theorem Holds.free {c : Channel} {held : Bool} (h : Holds c held) :
    Holds (c.through fun c => { c with claimed := false }) false := by
  unfold Channel.through
  split_ifs with hhandle
  · exact ⟨rfl, nofun⟩
  · cases held with
    | false => exact h
    | true => exact absurd (h.2 rfl) hhandle

/-- The call claims and frees nothing. -/
def Keeps : Call → Prop
  | .pwmRequest _ _ | .pwmFree _ => False
  | .gpioSetValue _ _ | .pwmConfig _ _ | .pwmEnable _ => True

theorem held_exec {d : Motor} {held : Bool} (h : Held d held) {calls : List Call}
    (hcalls : ∀ c ∈ calls, Keeps c) : Held (d.exec calls) held := by
  induction calls generalizing d with
  | nil => exact h
  | cons c cs ih =>
    apply ih ?_ fun c' hc' => hcalls c' (List.mem_cons_of_mem c hc')
    have hkeeps := hcalls c List.mem_cons_self
    cases c with
    | gpioSetValue pin v => exact h
    | pwmRequest side granted => exact absurd hkeeps id
    | pwmFree side => exact absurd hkeeps id
    | pwmConfig side pulse =>
      cases side with
      | left => exact ⟨h.1.through rfl rfl, h.2⟩
      | right => exact ⟨h.1, h.2.through rfl rfl⟩
    | pwmEnable side =>
      cases side with
      | left => exact ⟨h.1.through rfl rfl, h.2⟩
      | right => exact ⟨h.1, h.2.through rfl rfl⟩

theorem held_ioctl {d : Motor} {held : Bool} (h : Held d held) (cmd : UInt32)
    (arg : Option PwmPulse) : Held (ioctl d cmd arg) held := by
  refine held_exec h ?_
  unfold pwmIoctl
  split_ifs <;> simp [Keeps]

theorem held_release {d : Motor} {held : Bool} (h : Held d held) : Held (pwmRelease d) false :=
  ⟨h.1.free, h.2.free⟩

theorem held_releases {d : Motor} {held : Bool} {n : Nat} (h : Held d held)
    (hn : n = 0 → held = false) : Held (pwmRelease^[n] d) false := by
  induction n generalizing d held with
  | zero => exact hn rfl ▸ h
  | succ n ih => exact ih (held_release h) fun _ => rfl

/-- The outcome of an open of the motor device. -/
def openedPwm : BoardEvent → Option OpenResult
  | .motion (.openPwm o) => some o
  | _ => none

/-- `pwm_request` grants a channel exactly when nobody holds it. -/
def KernelGrants (s : Board) (e : BoardEvent) : Prop :=
  ∀ o ∈ openedPwm e, o = OpenResult.requests (!s.motion.server.dev.leftPwm.claimed)
    (!s.motion.server.dev.rightPwm.claimed)

instance (s : Board) (e : BoardEvent) : Decidable (KernelGrants s e) :=
  inferInstanceAs (Decidable (∀ o ∈ openedPwm e, o = OpenResult.requests _ _))

/-- The motor device opens. -/
def Opens (s : Board) (e : BoardEvent) : Prop :=
  ∀ o ∈ openedPwm e, (openPwm s.motion.server.dev o).2 = true

theorem openPwm_free {d : Motor} (h : Held d false) {o : OpenResult}
    (ho : o = .requests (!d.leftPwm.claimed) (!d.rightPwm.claimed)) :
    (openPwm d o).2 = true ∧ Held (openPwm d o).1 true := by
  obtain rfl : o = .granted := by simp [ho, OpenResult.granted, h.1.1, h.2.1]
  refine ⟨openPwm_granted d, ?_⟩
  have hopen : (openPwm d .granted).1 =
      (d.exec [.pwmRequest .left true, .pwmRequest .right true]).exec
        [.pwmConfig .left ⟨0, 0⟩, .pwmConfig .right ⟨0, 0⟩] := by
    simp [openPwm, OpenResult.granted, pwmOpen, Motor.apply, Motor.modify]
  rw [hopen]
  refine held_exec ?_ (by simp [Keeps])
  simp [Held, Holds, Motor.apply, Motor.modify]

/-- How many motor descriptors the main thread holds. -/
def descriptors : MainThread → Nat
  | .driving _ => 1
  | .reading | .opening _ | .creating | .exiting _ => 0

/-- The channels are claimed while the process has the device open, and only then. -/
structure MotorHeld (p : Process) (fds : Nat) : Prop where
  held : Held p.dev (decide (0 < fds))
  fds : p.pwmFds = fds

theorem MotorHeld.closed {p : Process} {fds : Nat} (h : MotorHeld p fds) :
    Held (pwmRelease^[p.pwmFds] p.dev) false :=
  held_releases h.held fun hnone => by simp [← h.fds, hnone]

theorem motorHeld_step {fails : Nat → Bool} {m u : Motion} {e : MotionEvent}
    (h : MotorHeld m.server (descriptors m.main)) (hlive : m.server.ended = none)
    (hkernel : ∀ o, e = .openPwm o →
      o = .requests (!m.server.dev.leftPwm.claimed) (!m.server.dev.rightPwm.claimed))
    (hstep : ProcessStep fails m e u) :
    MotorHeld u.server (if u.server.ended = none then descriptors u.main else 0) := by
  have hgone : ∀ why, MotorHeld (m.server.exit why)
      (if (m.server.exit why).ended = none then descriptors m.main else 0) := fun why => by
    rw [if_neg (by simp [Process.exit])]
    exact ⟨h.closed, rfl⟩
  have hsame : ∀ main, descriptors main = descriptors m.main →
      MotorHeld m.server (if m.server.ended = none then descriptors main else 0) :=
    fun main hmain => by rwa [if_pos hlive, hmain]
  obtain ⟨hheld, hfds⟩ := h
  cases hstep with
  | exitMain why _ => exact hgone why
  | exitLed i _ => exact hgone .ledFailed
  | openGranted o k hmain _ =>
    rw [hmain] at hheld hfds
    rw [if_pos hlive]
    exact ⟨(openPwm_free hheld (hkernel o rfl)).2, congrArg (· + 1) hfds⟩
  | openRefused o k hmain hrefused =>
    rw [hmain] at hheld
    cases (openPwm_free hheld (hkernel o rfl)).1.symm.trans hrefused
  | pwmIoctl c cs hmain =>
    rw [hmain] at hheld hfds
    rw [if_pos hlive]
    exact ⟨held_ioctl hheld _ _, hfds⟩
  | closePwm hmain =>
    rw [hmain] at hheld hfds
    rw [if_pos hlive]
    exact ⟨held_release hheld, by simp [hfds, descriptors]⟩
  | readFailed r hmain _ => exact hsame _ (by rw [hmain]; rfl)
  | readOther b hmain _ => exact hsame _ (by rw [hmain]; rfl)
  | readCommand b cmd k hmain _ =>
    have hnext := hsame (.opening k) (by rw [hmain]; rfl)
    exact ⟨hnext.held, hnext.fds⟩
  | create hmain => exact hsame _ (by rw [hmain]; rfl)
  | _ => exact hsame m.main rfl

/-! The stages of a process. -/

/-- A process that serves lives, and one that starts has done nothing yet. -/
structure Staged (s : Board) : Prop where
  live : s.stage = .serving → s.motion.server.ended = none
  fresh : s.stage = .starting → s.motion = .start s.motion.server.dev s.motion.led

theorem staged_boot (pins : Pins) (l : LedDev) : Staged (.boot pins l) where
  live := nofun
  fresh := fun _ => rfl

theorem staged_step {hasLed : Bool} {s t : Board} {e : BoardEvent} (h : Staged s)
    (hstep : boardStep hasLed s e = some t) : Staged t := by
  cases boardStep_inv hstep with
  | connect hstage =>
    exact ⟨fun _ => congrArg (fun m => m.server.ended) (h.fresh hstage), nofun⟩
  | timer _ =>
    refine ⟨h.live, fun hs => ?_⟩
    have hfresh := h.fresh hs
    rw [hfresh]
    rfl
  | motion e m hstage _ hlive =>
    exact ⟨fun _ => hlive, fun hs => by simp [hstage] at hs⟩
  | openFault _ _ u _ _ _ _ => exact ⟨h.live, h.fresh⟩
  | openSensor _ _ u _ _ _ _ _ => exact ⟨h.live, h.fresh⟩
  | openFailed _ _ u _ _ _ _ _ => exact ⟨h.live, h.fresh⟩
  | expire b u _ => exact ⟨h.live, h.fresh⟩
  | respawn _ => exact ⟨nofun, fun _ => rfl⟩
  | _ => exact ⟨nofun, nofun⟩

theorem staged_run {hasLed : Bool} {pins : Pins} {l : LedDev} {es : List BoardEvent} {s : Board}
    (hrun : run (boardStep hasLed) (.boot pins l) es = some s) : Staged s :=
  invariant (staged_boot pins l) (fun _ _ _ h he => staged_step h he) hrun

/-- What the board keeps of the motor device: the descriptors are those of the main thread of a
process that serves. -/
structure MotorInv (s : Board) : Prop where
  staged : Staged s
  held : MotorHeld s.motion.server (if s.stage = .serving then descriptors s.motion.main else 0)

theorem motorInv_boot (pins : Pins) (l : LedDev) : MotorInv (.boot pins l) where
  staged := staged_boot pins l
  held := ⟨⟨⟨rfl, nofun⟩, rfl, nofun⟩, rfl⟩

theorem motorInv_step {hasLed : Bool} {s t : Board} {e : BoardEvent} (h : MotorInv s)
    (hkernel : KernelGrants s e) (hstep : boardStep hasLed s e = some t) : MotorInv t := by
  refine ⟨staged_step h.staged hstep, ?_⟩
  have hheld := h.held
  have hopened : ∀ {f : MotionEvent}, e = .motion f → ∀ o, f = .openPwm o →
      o = .requests (!s.motion.server.dev.leftPwm.claimed)
        (!s.motion.server.dev.rightPwm.claimed) := by
    rintro _ rfl o rfl
    exact hkernel o rfl
  cases boardStep_inv hstep with
  | connect hstage =>
    have hmain : s.motion.main = .reading := congrArg Motion.main (h.staged.fresh hstage)
    simpa [hstage, hmain, descriptors] using hheld
  | motion e m hstage hm hlive =>
    simp only [hstage, if_true] at hheld
    have hnext := motorHeld_step hheld (h.staged.live hstage) (hopened rfl) hm
    rw [if_pos hlive] at hnext
    simpa [hstage] using hnext
  | exit e m hstage hm hended =>
    simp only [hstage, if_true] at hheld
    have hnext := motorHeld_step hheld (h.staged.live hstage) (hopened rfl) hm
    rwa [if_neg hended] at hnext
  | exitSensor _ _ => exact ⟨hheld.closed, rfl⟩
  | brokenPipe _ _ => exact ⟨hheld.closed, rfl⟩
  | refuse r hstage _ =>
    rw [hstage] at hheld
    exact hheld
  | respawn hstage =>
    rw [hstage] at hheld
    exact ⟨hheld.held, rfl⟩
  | _ => exact hheld

/-! The motors over all restarts. -/

/-- The pins after these ioctls. -/
def sentPins (p : Pins) (sent : List MotorCall) : Pins := sent.foldl (fun p c => ioctlPins p c.1) p

def boardRecord (s : Board) : BoardEvent → List MotorCall → List MotorCall
  | .motion e, sent => record s.motion e sent
  | _, sent => sent

/-- All ioctls that any of the server processes has sent to /dev/PWM. -/
def allSent (hasLed : Bool) (pins : Pins) (l : LedDev) (es : List BoardEvent) : List MotorCall :=
  history (boardStep hasLed) boardRecord (.boot pins l) [] es

theorem release_iterate_pins (n : Nat) (d : Motor) : (pwmRelease^[n] d).pins = d.pins := by
  induction n with
  | zero => rfl
  | succ n ih => rw [Function.iterate_succ_apply', pwmRelease_pins, ih]

theorem process_pins {fails : Nat → Bool} {m u : Motion} {e : MotionEvent} {p : Pins}
    {sent : List MotorCall} (h : m.server.dev.pins = sentPins p sent)
    (hstep : ProcessStep fails m e u) : u.server.dev.pins = sentPins p (record m e sent) := by
  cases hstep with
  | pwmIoctl c cs hmain =>
    simp only [record, hmain, MainThread.next, if_true, sentPins, List.foldl_append,
      List.foldl_cons, List.foldl_nil]
    rw [ioctl_pins, h]
    rfl
  | openGranted o k _ _ => exact (openPwm_pins _ _).trans h
  | openRefused o k _ _ => exact (openPwm_pins _ _).trans h
  | closePwm _ => exact (pwmRelease_pins _).trans h
  | exitMain why _ => exact (exit_pins _ _).trans h
  | exitLed i _ => exact (exit_pins _ _).trans h
  | _ => exact h

theorem allSent_pins {hasLed : Bool} {pins : Pins} {l : LedDev} {es : List BoardEvent} {s : Board}
    (hrun : run (boardStep hasLed) (.boot pins l) es = some s) :
    s.motion.server.dev.pins = sentPins Pins.low (allSent hasLed pins l es) := by
  refine history_induction (I := fun (t : Board) sent =>
    t.motion.server.dev.pins = sentPins Pins.low sent) (pwmInit_pins pins) ?_ hrun
  intro t e u sent h hu
  cases boardStep_inv hu with
  | motion e m _ hm _ => exact process_pins h hm
  | exit e m _ hm _ => exact process_pins h hm
  | exitSensor _ _ => exact (release_iterate_pins _ _).trans h
  | brokenPipe _ _ => exact (release_iterate_pins _ _).trans h
  | timer _ => exact h
  | _ => exact h

/-- Front, a lost connection, and the next process. -/
def frontThenRestart : List BoardEvent :=
  [.startUp .connected, .openSensor true true, .motion (.read (.data '1'.toUInt8)),
    .motion (.openPwm .granted), .motion .pwmIoctl, .motion .pwmIoctl, .motion .pwmIoctl,
    .motion .closePwm, .motion .create, .motion (.read .closed), .motion .exitMain, .respawn,
    .startUp .connected, .motion (.read (.data '5'.toUInt8)), .motion (.openPwm .granted)]

/-- An open of the sensor that gets its memory and a line that the kernel does not refuse. -/
def sensorGranted : BoardEvent → Bool
  | .openSensor true true => true
  | _ => false

/-- `n` timers are armed; the sensor is open while a living process reads it, and, as long as no
call of the driver has faulted, the interrupt line is held for that process alone. -/
structure SensorHeld (u : Timers) (reading : Bool) (n : Nat) : Prop where
  inserted : u.inserted = true
  armed : u.armed.length = n
  distinct : u.armed.Nodup
  known : ∀ b ∈ u.armed, b < u.next
  opens : u.opens = reading.toNat
  held : u.faulted = false → u.irqHeld = reading

structure SensorInv (s : Board) (n : Nat) : Prop where
  held : SensorHeld s.sensor (decide (s.ultra = .reading)) n
  serving : s.ultra ≠ .absent → s.stage = .serving

theorem timeover_perm {s : Timers} {b : Nat} (hb : b ∈ s.armed) (hnodup : s.armed.Nodup) :
    (TriggerTimer.kerneltimerTimeover s b).armed.Perm s.armed := by
  have herase : s.armed.filter (· ≠ b) = s.armed.erase b := by
    rw [hnodup.erase_eq_filter]
    refine List.filter_congr fun c _ => ?_
    by_cases hcb : c = b <;> simp [hcb]
  show (s.armed.filter (· ≠ b) ++ [b]).Perm s.armed
  rw [herase]
  exact (List.perm_append_singleton b _).trans (List.perm_cons_erase hb).symm

theorem SensorHeld.release {u : Timers} {n : Nat} (h : SensorHeld u true n) :
    SensorHeld { ultrasonicRelease u with opens := u.opens - 1 } false n where
  inserted := h.inserted
  armed := h.armed
  distinct := h.distinct
  known := h.known
  opens := by
    show u.opens - 1 = 0
    rw [h.opens]
    rfl
  held := fun _ => rfl

theorem sensorHeld_leave {s : Board} {n : Nat}
    (h : SensorHeld s.sensor (decide (s.ultra = .reading)) n) : SensorInv s.leave n := by
  refine ⟨?_, fun hne => absurd rfl hne⟩
  show SensorHeld (if s.ultra = .reading then _ else s.sensor) false n
  by_cases hreading : s.ultra = .reading
  · rw [if_pos hreading]
    rw [decide_eq_true hreading] at h
    exact h.release
  · rw [if_neg hreading]
    rwa [decide_eq_false hreading] at h

theorem SensorHeld.arm {s : Timers} {n : Nat} (h : SensorHeld s false n) {u : Timers}
    (hin : u.inserted = s.inserted) (harmed : u.armed = s.armed ++ [s.next])
    (hnext : u.next = s.next + 1) (hopens : u.opens = s.opens + 1) (hirq : u.irqHeld = true) :
    SensorHeld u true (n + 1) where
  inserted := hin.trans h.inserted
  armed := by simp [harmed, h.armed]
  distinct := by
    rw [harmed, ← List.concat_eq_append]
    exact (List.nodup_concat _ _).mpr
      ⟨fun hmem => absurd (h.known _ hmem) (Nat.lt_irrefl _), h.distinct⟩
  known := by
    intro b hb
    rw [harmed] at hb
    rw [hnext]
    rcases List.mem_append.mp hb with hb | hb
    · exact Nat.lt_succ_of_lt (h.known b hb)
    · exact List.mem_singleton.mp hb ▸ Nat.lt_succ_self _
  opens := by simp [hopens, h.opens]
  held := fun _ => hirq

theorem SensorHeld.openDevice {s u : Timers} {n : Nat} {kmalloc irq : Bool}
    (h : SensorHeld s false n) (hu : timerStep s (.openDevice kmalloc irq) = some u) :
    ((kmalloc = true ∧ irq = true) ∧ u.faulted = false ∧ s.opens < u.opens ∧
        SensorHeld u true (n + 1)) ∨
      (¬ (kmalloc = true ∧ irq = true) ∧ ¬ s.opens < u.opens ∧ SensorHeld u false n) := by
  simp only [timerStep] at hu
  split_ifs at hu with hcond
  have hfree := h.held hcond.2
  have hcode : (-ENOENT : Int) ≠ 0 := by decide
  cases kmalloc <;> cases irq <;>
    simp [ultrasonicOpen, kerneltimerInit, hfree, hcode] at hu <;> subst hu
  · exact Or.inr ⟨by simp, by simp, h.inserted, h.armed, h.distinct, h.known, h.opens,
      fun _ => rfl⟩
  · exact Or.inr ⟨by simp, by simp, h.inserted, h.armed, h.distinct, h.known, h.opens,
      fun hfine => by cases hfine⟩
  · exact Or.inr ⟨by simp, by simp, h.inserted, h.armed, h.distinct,
      fun b hb => Nat.lt_succ_of_lt (h.known b hb), h.opens, fun _ => rfl⟩
  · exact Or.inl ⟨⟨rfl, rfl⟩, hcond.2, Nat.lt_succ_self _, h.arm rfl rfl rfl rfl rfl⟩

theorem ungranted {kmalloc irq : Bool} (h : ¬ (kmalloc = true ∧ irq = true)) :
    sensorGranted (.openSensor kmalloc irq) = false ∧
      BoardEvent.openSensor kmalloc irq ≠ .openSensor true true := by
  refine ⟨?_, by simpa using h⟩
  cases kmalloc with
  | false => rfl
  | true =>
    cases irq with
    | false => rfl
    | true => exact absurd ⟨rfl, rfl⟩ h

theorem sensorInv_step {hasLed : Bool} {s t : Board} {e : BoardEvent} {n : Nat}
    (h : SensorInv s n) (hstep : boardStep hasLed s e = some t) :
    SensorInv t (n + (sensorGranted e).toNat) ∧
      (e = .openSensor true true → t.ultra = .reading) := by
  have hheld := h.held
  have hout : s.stage ≠ .serving → s.ultra = .absent := fun hs => by
    by_contra hne
    exact hs (h.serving hne)
  cases boardStep_inv hstep with
  | connect hstage =>
    refine ⟨⟨?_, fun _ => rfl⟩, nofun⟩
    simpa [hout (by simp [hstage]), sensorGranted] using hheld
  | refuse r _ _ => exact ⟨sensorHeld_leave hheld, nofun⟩
  | timer _ => exact ⟨⟨hheld, h.serving⟩, nofun⟩
  | motion e m _ _ _ => exact ⟨⟨hheld, h.serving⟩, nofun⟩
  | exit e m _ _ _ => exact ⟨sensorHeld_leave hheld, nofun⟩
  | openFault kmalloc irq u hstage hultra hu hfault =>
    rw [hultra] at hheld
    rcases hheld.openDevice hu with ⟨_, hfine, _⟩ | ⟨hnot, _, hnext⟩
    · cases hfine.symm.trans hfault
    · obtain ⟨hnone, hother⟩ := ungranted hnot
      exact ⟨⟨by simpa [hnone] using hnext, nofun⟩, fun he => absurd he hother⟩
  | openSensor kmalloc irq u hstage hultra hu hfine hmore =>
    rw [hultra] at hheld
    rcases hheld.openDevice hu with ⟨⟨rfl, rfl⟩, _, _, hnext⟩ | ⟨_, hsame, _⟩
    · exact ⟨⟨hnext, fun _ => hstage⟩, fun _ => rfl⟩
    · exact absurd hmore hsame
  | openFailed kmalloc irq u hstage hultra hu hfine hsame =>
    rw [hultra] at hheld
    rcases hheld.openDevice hu with ⟨_, _, hmore, _⟩ | ⟨hnot, _, hnext⟩
    · exact absurd hmore hsame
    · obtain ⟨hnone, hother⟩ := ungranted hnot
      exact ⟨⟨by simpa [hnone] using hnext, fun _ => hstage⟩, fun he => absurd he hother⟩
  | exitSensor _ _ => exact ⟨sensorHeld_leave hheld, nofun⟩
  | brokenPipe _ _ => exact ⟨sensorHeld_leave hheld, nofun⟩
  | expire b u hu =>
    obtain ⟨_, hb, rfl⟩ := timerStep_expire hu
    have hperm := timeover_perm hb hheld.distinct
    refine ⟨⟨⟨hheld.inserted, ?_, ?_, ?_, hheld.opens, hheld.held⟩, h.serving⟩, nofun⟩
    · exact hperm.length_eq.trans hheld.armed
    · exact hperm.nodup_iff.mpr hheld.distinct
    · exact fun c hc => hheld.known c (hperm.mem_iff.mp hc)
  | respawn hstage =>
    have habsent := hout (by simp [hstage])
    exact ⟨⟨hheld, fun hne => absurd habsent hne⟩, nofun⟩

theorem sensorInv_boot (pins : Pins) (l : LedDev) : SensorInv (.boot pins l) 0 :=
  ⟨⟨rfl, rfl, List.nodup_nil, by simp [Board.boot, Timers.insmod], rfl, fun _ => rfl⟩,
    fun h => absurd rfl h⟩

/-- After this event the thread of the sensor has its device open. -/
def Reads (hasLed : Bool) (s : Board) (e : BoardEvent) : Prop :=
  e = .openSensor true true → ∀ t, boardStep hasLed s e = some t → t.ultra = .reading

/-- Over any number of server processes: each one whose thread opens the sensor gets it, the line
being held for a reading thread of the living process alone, and each such open leaves one more
trigger timer armed, which nothing ever stops. -/
theorem triggers_over_restarts {hasLed : Bool} {pins : Pins} {l : LedDev} {es : List BoardEvent}
    {s : Board} (hrun : run (boardStep hasLed) (.boot pins l) es = some s) :
    s.sensor.armed.length = es.countP sensorGranted ∧ s.sensor.armed.Nodup ∧
      (s.sensor.faulted = false → (s.sensor.irqHeld = true ↔ s.ultra = .reading)) ∧
      EachStep (boardStep hasLed) (Reads hasLed) (.boot pins l) es := by
  have hinv : ∀ {fs : List BoardEvent} {t : Board},
      run (boardStep hasLed) (.boot pins l) fs = some t →
        SensorInv t (fs.countP sensorGranted) := by
    intro fs t hfs
    refine run_induction (I := fun fs t => SensorInv t (fs.countP sensorGranted))
      (sensorInv_boot pins l) ?_ hfs
    intro gs e u v _ ih hv
    have hstep := (sensorInv_step ih hv).1
    rw [List.countP_append, List.countP_singleton]
    cases he : sensorGranted e <;> simpa [he] using hstep
  have hs := hinv hrun
  refine ⟨hs.held.armed, hs.held.distinct, fun hfine => ?_, ?_⟩
  · rw [hs.held.held hfine, decide_eq_true_iff]
  · intro pre e t _ ht he u hu
    exact (sensorInv_step (hinv ht) hu).2 he

/-- Three processes, one after the other, with the sensor open in each of them. -/
def threeSessions : List BoardEvent :=
  [.startUp .connected, .openSensor true true, .motion (.read .closed), .motion .exitMain,
    .respawn, .startUp .connected, .openSensor true true, .motion (.read .closed),
    .motion .exitMain, .respawn, .startUp .connected, .openSensor true true]

theorem triggers_over_restarts_threeSessions :
    ∃ s, run (boardStep true) (.boot Pins.low ledInit) threeSessions = some s ∧
      s.sensor.armed.length = 3 := by
  have hrun : ∃ s, run (boardStep true) (.boot Pins.low ledInit) threeSessions = some s := ⟨_, rfl⟩
  obtain ⟨s, hs⟩ := hrun
  exact ⟨s, hs, (triggers_over_restarts hs).1⟩

end MdsBlackbox.Server.Restarts
