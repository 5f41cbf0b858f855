/- module: MdsBlackbox/Server/Lamps
   source: SERVER/rc_server/rc_server.c, SERVER/rc_server/pwm_app.c, SERVER/rc_server/led.c
   digest: The turn indicators against the steering of the wheels, over all server processes. -/

import MdsBlackbox.Server.LedIoctl
import MdsBlackbox.Server.Restarts

set_option autoImplicit false
set_option relaxedAutoImplicit false

namespace MdsBlackbox.Server.Lamps

open MdsBlackbox.Server.PwmDev
open MdsBlackbox.Server.PwmApp
open MdsBlackbox.Server.CommandLoop
open MdsBlackbox.Server.Led
open MdsBlackbox.Server.LedIoctl
open MdsBlackbox.Server.LedThreads
open MdsBlackbox.Server.LedFailure
open MdsBlackbox.Server.BoardSteps
open MdsBlackbox.Server.Restarts

/-! What a lamp shows. -/

/-- The next two expiries of the blink timer leave the lamp at different levels. -/
def Flashes (d : LedDev) (pin : LedPin) : Prop :=
  (kerneltimerTimeover d).level pin ≠ (kerneltimerTimeover (kerneltimerTimeover d)).level pin

theorem flashes_iff {d : LedDev} {pin : LedPin} : Flashes d pin ↔ d.ledFlag = pin.flag := by
  have hnext : (kerneltimerTimeover d).ledFlag = d.ledFlag := kerneltimerTimeover_ledFlag d
  constructor
  · intro hflash
    by_contra hflag
    refine hflash ?_
    have hnext' : (kerneltimerTimeover d).ledFlag ≠ pin.flag := hnext ▸ hflag
    exact (timeover_level_of_ne hnext').symm
  · intro hflag
    unfold Flashes
    rw [timeover_level hflag, timeover_level (hnext.trans hflag), timeover_highLow hflag]
    by_cases hphase : d.ledHighLow = 0 <;> simp [hphase]

theorem owned_ioctl {pin : LedPin} {d : LedDev} (h : Owned pin d) (cmd : UInt32) :
    Owned pin (d.ioctl cmd) := by
  unfold LedDev.ioctl ledIoctl
  split_ifs <;> cases pin <;> intro hon <;> first | rfl | cases hon

/-- The pins steer to the side that `n` names as a flag of the indicators or as a `cmd`. -/
def Steers (n : Int) (p : Pins) : Prop := (n = 5 ↔ p.gpg4 = true) ∧ (n = 6 ↔ p.gpg7 = true)

theorem steers_selectedFlag {n : Int} {p : Pins} : Steers (selectedFlag n) p ↔ Steers n p := by
  unfold Steers selectedFlag
  split_ifs <;> simp_all

theorem steers_dispatch {b : UInt8} {cmd k : Int} (h : dispatch b = some (cmd, k)) (p : Pins) :
    Steers cmd (moterPins p k) := by
  unfold dispatch at h
  split_ifs at h <;> obtain ⟨rfl, rfl⟩ := Prod.mk.inj (Option.some.inj h) <;>
    simp [Steers, Pins.low]

/-! One process. -/

/-- The pins as they will be when the main thread is back at its read. -/
def ahead (m : Motion) : Pins :=
  match m.main with
  | .reading | .creating | .exiting _ => m.server.dev.pins
  | .opening k => moterPins m.server.dev.pins k
  | .driving cs => cs.foldl (fun p c => ioctlPins p c.1) m.server.dev.pins

/-- No command is under way in the main thread. -/
def idle : MainThread → Bool
  | .reading | .exiting _ => true
  | .opening _ | .driving _ | .creating => false

/-- The main thread has not touched the pins since its last command. -/
def untouched : MainThread → Bool
  | .reading | .opening _ | .exiting _ => true
  | .driving _ | .creating => false

/-- No command is under way in the main thread or in a LED thread. -/
def AtRest (m : Motion) : Prop := idle m.main = true ∧ ∀ t ∈ m.threads, t = .returned

/-- The wheels go where `cmd` says as soon as a command has been read, the LED threads follow, and
before the next one touches the pins the flag of the indicators names the side of the wheels. -/
structure Signals (m : Motion) : Prop where
  agrees : untouched m.main = true → (∀ t ∈ m.threads, t = .returned) →
    Steers m.led.ledFlag m.server.dev.pins
  steers : idle m.main = false ∨ m.main = .reading ∧ m.threads ≠ [] →
    Steers m.server.cmd (ahead m)
  alone : m.main ≠ .reading → ∀ t ∈ m.threads, t = .returned
  loaded : ∀ v, .loaded v ∈ m.threads → v = m.server.cmd
  present : .failed ∉ m.threads

/-- A read finds all LED threads returned, and the first read of a process finds a command, with
which every frame of a client begins. -/
def Calm (m : Motion) : MotionEvent → Prop
  | .read (.data b) =>
    (∀ t ∈ m.threads, t = .returned) ∧ (m.threads = [] → dispatch b ≠ none)
  | .read .closed | .read .error => ∀ t ∈ m.threads, t = .returned
  | .openPwm _ | .pwmIoctl | .closePwm | .create | .exitMain | .openLed _ | .exitLed _ | .load _
  | .ledIoctl _ | .timer => True

instance (m : Motion) : Decidable (AtRest m) :=
  inferInstanceAs (Decidable (idle m.main = true ∧ ∀ t ∈ m.threads, t = .returned))

theorem busy_set {m : Motion} {i : Nat} {t u : LedThread} (hi : m.threads[i]? = some t)
    (hu : u ≠ .returned) : ¬ ∀ t ∈ m.threads.set i u, t = .returned :=
  fun h => hu (h u (mem_set_of_getElem? hi))

theorem Signals.reading {m : Motion} (h : Signals m) {i : Nat} {t : LedThread}
    (hi : m.threads[i]? = some t) (hbusy : t ≠ .returned) : m.main = .reading := by
  by_contra hmain
  exact hbusy (h.alone hmain t (List.mem_of_getElem? hi))

theorem Signals.advance {m : Motion} (h : Signals m) {i : Nat} {t u : LedThread}
    (hi : m.threads[i]? = some t) (ht : t ≠ .returned) (hu : u ≠ .returned) (hfine : u ≠ .failed)
    (hload : ∀ v, u = .loaded v → v = m.server.cmd) :
    Signals { m with threads := m.threads.set i u } := by
  have hmain := h.reading hi ht
  have hsome : m.threads ≠ [] := List.ne_nil_of_mem (List.mem_of_getElem? hi)
  refine ⟨fun _ hall => absurd hall (busy_set hi hu), fun _ => h.steers (Or.inr ⟨hmain, hsome⟩),
    fun hne => absurd hmain hne, fun v hv => ?_, fun hfailed => ?_⟩
  · rcases List.mem_or_eq_of_mem_set hv with hv | hv
    · exact h.loaded v hv
    · exact hload v hv.symm
  · rcases List.mem_or_eq_of_mem_set hfailed with hfailed | hfailed
    · exact h.present hfailed
    · exact hfine hfailed.symm

theorem Signals.drive {m u : Motion} (h : Signals m)
    (hbusy : idle m.main = false ∨ m.main = .reading ∧ m.threads ≠ [])
    (hall : ∀ t ∈ m.threads, t = .returned) (hmain : untouched u.main = false)
    (hcmd : u.server.cmd = m.server.cmd) (hthreads : u.threads = m.threads)
    (hahead : ahead u = ahead m) : Signals u := by
  refine ⟨fun hsame => ?_, fun _ => ?_, fun _ => ?_, fun v hv => ?_, ?_⟩
  · rw [hmain] at hsame
    cases hsame
  · rw [hcmd, hahead]
    exact h.steers hbusy
  · rwa [hthreads]
  · rw [hcmd]
    exact h.loaded v (hthreads ▸ hv)
  · rw [hthreads]
    exact h.present

theorem Signals.giveUp {m u : Motion} (h : Signals m) (hmain : untouched m.main = true)
    (hall : ∀ t ∈ m.threads, t = .returned) {why : Ending} (hexit : u.main = .exiting why)
    (hpins : u.server.dev.pins = m.server.dev.pins) (hled : u.led = m.led)
    (hthreads : u.threads = m.threads) : Signals u := by
  refine ⟨fun _ _ => ?_, fun hbusy => ?_, fun _ => ?_, fun v hv => ?_, ?_⟩
  · rw [hpins, hled]
    exact h.agrees hmain hall
  · simp [hexit, idle] at hbusy
  · rwa [hthreads]
  · cases hall _ (hthreads ▸ hv)
  · rw [hthreads]
    exact h.present

theorem signals_step {m u : Motion} {e : MotionEvent} (h : Signals m) (hcalm : Calm m e)
    (hstep : ProcessStep (ledFails true) m e u) (hlive : u.server.ended = none) : Signals u := by
  have hloads : ∀ {ts : List LedThread}, (∀ t ∈ ts, t = .returned) → ∀ v, .loaded v ∉ ts :=
    fun hall v hv => absurd (hall _ hv) (by simp)
  cases hstep with
  | readFailed r hmain hr =>
    have hall : ∀ t ∈ m.threads, t = .returned := by
      cases r with
      | closed => exact hcalm
      | error => exact hcalm
      | data b => exact absurd rfl (hr b)
    exact h.giveUp (by simp [hmain, untouched]) hall rfl rfl rfl rfl
  | readOther b hmain hd =>
    have hsome : m.threads ≠ [] := fun hnil => hcalm.2 hnil hd
    exact h.drive (Or.inr ⟨hmain, hsome⟩) hcalm.1 rfl rfl rfl (by simp [ahead, hmain])
  | readCommand b cmd k hmain hd =>
    refine ⟨fun _ hall => ?_, fun _ => steers_dispatch hd _, fun _ => hcalm.1,
      fun v hv => absurd hv (hloads hcalm.1 v), h.present⟩
    exact h.agrees (by simp [hmain, untouched]) hall
  | openGranted o k hmain _ =>
    refine h.drive (Or.inl (by simp [hmain, idle])) (h.alone (by simp [hmain])) rfl rfl rfl ?_
    simp only [ahead, hmain, openPwm_pins]
    rfl
  | openRefused o k hmain _ =>
    exact h.giveUp (by simp [hmain, untouched]) (h.alone (by simp [hmain])) rfl (openPwm_pins _ _)
      rfl rfl
  | pwmIoctl c cs hmain =>
    refine h.drive (Or.inl (by simp [hmain, idle])) (h.alone (by simp [hmain])) rfl rfl rfl ?_
    simp only [ahead, hmain, ioctl_pins, List.foldl_cons]
  | closePwm hmain =>
    refine h.drive (Or.inl (by simp [hmain, idle])) (h.alone (by simp [hmain])) rfl rfl rfl ?_
    simp only [ahead, hmain, pwmRelease_pins, List.foldl_nil]
  | create hmain =>
    refine ⟨fun _ hall => ?_, fun _ => ?_, fun hne => absurd rfl hne, fun v hv => ?_, ?_⟩
    · have hnew : LedThread.created = .returned := hall _ (by simp)
      cases hnew
    · have hsteers := h.steers (Or.inl (by simp [hmain, idle]))
      simpa only [ahead, hmain] using hsteers
    · exact h.loaded v (by simpa using hv)
    · simpa using h.present
  | exitMain why _ => simp [Process.exit] at hlive
  | exitLed i _ => simp [Process.exit] at hlive
  | ledMissing i _ hf => cases hf
  | openLed i hi _ =>
    exact h.advance hi (by simp) (by simp) (by simp) fun v hv => by cases hv
  | load i hi =>
    exact h.advance hi (by simp) (by simp) (by simp) fun v hv => (LedThread.loaded.inj hv).symm
  | ledIoctl i v hi =>
    have hmain := h.reading hi (by simp)
    have hmem := List.mem_of_getElem? hi
    have hsteers : Steers m.server.cmd m.server.dev.pins := by
      simpa only [ahead, hmain] using h.steers (Or.inr ⟨hmain, List.ne_nil_of_mem hmem⟩)
    refine ⟨fun _ _ => ?_, fun _ => ?_, fun hne => absurd hmain hne, fun w hw => ?_,
      fun hfailed => ?_⟩
    · -- the last value that was loaded is that of the command that steers
      obtain rfl := h.loaded v hmem
      show Steers (m.led.ioctl (ledRequest m.server.cmd)).ledFlag m.server.dev.pins
      rw [ioctl_ledFlag]
      exact steers_selectedFlag.mpr hsteers
    · simpa only [ahead, hmain] using hsteers
    · rcases List.mem_or_eq_of_mem_set hw with hw | hw
      · exact h.loaded w hw
      · cases hw
    · rcases List.mem_or_eq_of_mem_set hfailed with hfailed | hfailed
      · exact h.present hfailed
      · cases hfailed

/-! The board. -/

/-- Without a process nothing is under way either. -/
def Quiet (s : Board) : Prop := s.stage = .serving → AtRest s.motion

/-- The sensor thread ends the process only between two commands. -/
def CalmBoard (s : Board) : BoardEvent → Prop
  | .motion e => Calm s.motion e
  | .exitSensor | .brokenPipe => Quiet s
  | .startUp _ | .openSensor _ _ | .expire _ | .respawn => True

instance (s : Board) : Decidable (Quiet s) :=
  inferInstanceAs (Decidable (s.stage = .serving → AtRest s.motion))

structure LampInv (s : Board) : Prop where
  staged : Staged s
  serving : s.stage = .serving → Signals s.motion
  apart : s.stage ≠ .serving → Steers s.motion.led.ledFlag s.motion.server.dev.pins
  owned : ∀ pin, Owned pin s.motion.led

theorem LampInv.agrees {s : Board} (h : LampInv s) (hquiet : Quiet s) :
    Steers s.motion.led.ledFlag s.motion.server.dev.pins := by
  by_cases hstage : s.stage = .serving
  · obtain ⟨hidle, hall⟩ := hquiet hstage
    refine (h.serving hstage).agrees ?_ hall
    cases hmain : s.motion.main <;> simp [hmain, idle, untouched] at hidle ⊢
  · exact h.apart hstage

theorem process_owned {fails : Nat → Bool} {m u : Motion} {e : MotionEvent} {pin : LedPin}
    (h : Owned pin m.led) (hstep : ProcessStep fails m e u) : Owned pin u.led := by
  cases hstep with
  | ledIoctl i v _ => exact owned_ioctl h _
  | _ => exact h

theorem lampInv_boot (pins : Pins) : LampInv (.boot pins ledInit) where
  staged := staged_boot pins ledInit
  serving := fun hstage => by cases hstage
  apart := fun _ => by
    show Steers 0 (pwmInit pins).pins
    rw [pwmInit_pins]
    simp [Steers, Pins.low]
  owned := fun pin hon => by cases pin <;> cases hon

theorem lampInv_step {s t : Board} {e : BoardEvent} (h : LampInv s) (hcalm : CalmBoard s e)
    (hstep : boardStep true s e = some t) : LampInv t := by
  have hstaged := staged_step h.staged hstep
  cases boardStep_inv hstep with
  | connect hstage =>
    have hfresh := h.staged.fresh hstage
    have hmain : s.motion.main = .reading := congrArg Motion.main hfresh
    have hnone : s.motion.threads = [] := congrArg Motion.threads hfresh
    refine ⟨hstaged, fun _ => ?_, fun hne => absurd rfl hne, h.owned⟩
    exact ⟨fun _ _ => h.apart (by simp [hstage]), by simp [hmain, hnone, idle], by simp [hmain],
      by simp [hnone], by simp [hnone]⟩
  | refuse r hstage _ =>
    exact ⟨hstaged, fun hs => (by cases hs), fun _ => h.apart (by simp [hstage]), h.owned⟩
  | timer _ =>
    refine ⟨hstaged, fun hs => ?_, fun hs => ?_, fun pin => owned_timeover (h.owned pin)⟩
    · obtain ⟨hagrees, hsteers, halone, hloaded, hpresent⟩ := h.serving hs
      refine ⟨fun hmain hall => ?_, hsteers, halone, hloaded, hpresent⟩
      simpa only [kerneltimerTimeover_ledFlag] using hagrees hmain hall
    · simpa only [kerneltimerTimeover_ledFlag] using h.apart hs
  | motion e m hstage hm hlive =>
    refine ⟨hstaged, fun _ => signals_step (h.serving hstage) hcalm hm hlive,
      fun hne => absurd hstage hne, fun pin => process_owned (h.owned pin) hm⟩
  | exit e m hstage hm hended =>
    refine ⟨hstaged, fun hs => (by cases hs), fun _ => ?_,
      fun pin => process_owned (h.owned pin) hm⟩
    have hsignals := h.serving hstage
    cases hm with
    | exitMain why hmain =>
      have hall := hsignals.alone (by simp [hmain])
      show Steers s.motion.led.ledFlag (s.motion.server.exit why).dev.pins
      rw [exit_pins]
      exact hsignals.agrees (by simp [hmain, untouched]) hall
    | exitLed i hi => exact absurd (List.mem_of_getElem? hi) hsignals.present
    | ledMissing i _ hf => cases hf
    | _ => exact absurd (h.staged.live hstage) hended
  | exitSensor _ _ =>
    refine ⟨hstaged, fun hs => (by cases hs), fun _ => ?_, h.owned⟩
    show Steers s.motion.led.ledFlag (pwmRelease^[s.motion.server.pwmFds] s.motion.server.dev).pins
    rw [release_iterate_pins]
    exact h.agrees hcalm
  | brokenPipe _ _ =>
    refine ⟨hstaged, fun hs => (by cases hs), fun _ => ?_, h.owned⟩
    show Steers s.motion.led.ledFlag (pwmRelease^[s.motion.server.pwmFds] s.motion.server.dev).pins
    rw [release_iterate_pins]
    exact h.agrees hcalm
  | respawn hstage =>
    exact ⟨hstaged, fun hs => (by cases hs), fun _ => h.apart (by simp [hstage]), h.owned⟩
  | _ => exact ⟨hstaged, h.serving, h.apart, h.owned⟩

theorem LampInv.flashes {s : Board} (h : LampInv s) (hquiet : Quiet s) :
    (Flashes s.motion.led .gpg12 ↔ s.motion.server.dev.pins.gpg4 = true) ∧
      (Flashes s.motion.led .gpg11 ↔ s.motion.server.dev.pins.gpg7 = true) ∧
      ∀ pin, s.motion.led.level pin = true → Flashes s.motion.led pin := by
  obtain ⟨hleft, hright⟩ := h.agrees hquiet
  exact ⟨flashes_iff.trans hleft, flashes_iff.trans hright,
    fun pin hon => flashes_iff.mpr (h.owned pin hon)⟩

end MdsBlackbox.Server.Lamps
