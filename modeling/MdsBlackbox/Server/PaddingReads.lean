/- module: MdsBlackbox/Server/PaddingReads
   source: SERVER/rc_server/rc_server.c, SERVER/rc_server/th_led.c, SERVER/rc_server/led.c
   digest: Reads that carry no command, when each LED thread ends before the next event. -/

import MdsBlackbox.Server.LedIoctl
import MdsBlackbox.Server.LedThreads

set_option autoImplicit false
set_option relaxedAutoImplicit false

namespace MdsBlackbox.Server.PaddingReads

open MdsBlackbox.Lib.Transition
open MdsBlackbox.Server.PwmDev
open MdsBlackbox.Server.PwmApp
open MdsBlackbox.Server.CommandLoop
open MdsBlackbox.Server.Led
open MdsBlackbox.Server.LedIoctl
open MdsBlackbox.Server.LedThreads

structure Served where
  server : Process
  led : LedDev
  deriving DecidableEq

def Served.start (d : Motor) (l : LedDev) : Served := ⟨.start d, l⟩

/-- A read with its first byte, which may need the motor device, or a blink timer callback. -/
inductive ServedEvent
  | read (b : UInt8) (o : OpenResult)
  | timer
  deriving DecidableEq

/-- A pass of the loop together with the whole LED thread that it creates. -/
def servedStep (s : Served) : ServedEvent → Option Served
  | .read b o => (loopStep s.server ⟨.data b, o⟩).map fun q =>
      ⟨q, if q.ended = none then s.led.ioctl (ledRequest q.cmd) else s.led⟩
  | .timer => some { s with led := kerneltimerTimeover s.led }

/-! The schedule of the threads that these steps stand for. -/

/-- Thread `n` is created, opens, loads and does its ioctl right after its pass. -/
def schedule (n : Nat) (q : Process) : ServedEvent → List ThreadEvent
  | .read b o =>
    .pass ⟨.data b, o⟩ ::
      if q.ended = none then [.create, .openLed n true, .load n, .ioctl n] else []
  | .timer => [.timer]

theorem thread_completes {s : Threads} (hlive : s.server.ended = none)
    (hcreate : s.creating = true) :
    run threadStep s [.create, .openLed s.threads.length true, .load s.threads.length,
        .ioctl s.threads.length] =
      some { s with
        creating := false
        threads := s.threads ++ [.returned]
        led := s.led.ioctl (ledRequest s.server.cmd) } := by
  have hset : ∀ t u : LedThread, (s.threads ++ [t]).set s.threads.length u = s.threads ++ [u] := by
    intro t u
    rw [List.set_append_right _ _ (Nat.le_refl _), Nat.sub_self]
    rfl
  simp [run, threadStep, hlive, hcreate, hset]

theorem served_step_runs {s : Threads} {t : Served} {e : ServedEvent} (hcreate : s.creating = false)
    (hstep : servedStep ⟨s.server, s.led⟩ e = some t) :
    ∃ u, run threadStep s (schedule s.threads.length t.server e) = some u ∧ u.creating = false ∧
      u.server = t.server ∧ u.led = t.led := by
  cases e with
  | timer =>
    obtain rfl := Option.some.inj hstep
    exact ⟨_, rfl, hcreate, rfl, rfl⟩
  | read b o =>
    obtain ⟨q, hq, rfl⟩ := Option.map_eq_some_iff.mp hstep
    have hq : loopStep s.server ⟨.data b, o⟩ = some q := hq
    have hpass : threadStep s (.pass ⟨.data b, o⟩) =
        some { s with server := q, creating := q.ended.isNone } := by
      simp [threadStep, hcreate, hq]
    by_cases hend : q.ended = none
    · have hthread := thread_completes
        (s := { s with server := q, creating := q.ended.isNone }) hend (by simp [hend])
      refine ⟨{ s with
          server := q
          creating := false
          threads := s.threads ++ [.returned]
          led := s.led.ioctl (ledRequest q.cmd) },
        run_cons_eq_some.mpr ⟨_, hpass, ?_⟩, rfl, rfl, ?_⟩
      · rw [if_pos hend]
        exact hthread
      · rw [if_pos hend]
    · refine ⟨{ s with server := q, creating := q.ended.isNone },
        run_cons_eq_some.mpr ⟨_, hpass, ?_⟩, ?_, rfl, ?_⟩
      · rw [if_neg hend]
        rfl
      · exact Option.isNone_eq_false_iff.mpr (Option.isSome_iff_ne_none.mpr hend)
      · rw [if_neg hend]

theorem served_runs {d : Motor} {l : LedDev} {es : List ServedEvent} {t : Served}
    (hrun : run servedStep (.start d l) es = some t) :
    ∃ fs u, run threadStep (.start d l) fs = some u ∧ u.creating = false ∧
      u.server = t.server ∧ u.led = t.led := by
  refine run_induction (I := fun _ t => ∃ fs u, run threadStep (.start d l) fs = some u ∧
    u.creating = false ∧ u.server = t.server ∧ u.led = t.led) ⟨[], _, rfl, rfl, rfl, rfl⟩ ?_ hrun
  rintro _ e t v _ ⟨fs, u, hu, hcreate, hserver, hled⟩ hv
  have hv : servedStep ⟨u.server, u.led⟩ e = some v := by
    rw [hserver, hled]
    exact hv
  obtain ⟨w, hw, hend⟩ := served_step_runs hcreate hv
  exact ⟨fs ++ schedule u.threads.length v.server e, w, run_append_eq_some.mpr ⟨u, hu, hw⟩, hend⟩

/-! Two runs. -/

/-- The read carries one of the five commands. -/
def ServedEvent.isCommand : ServedEvent → Bool
  | .read b _ => decide ('1'.toUInt8 ≤ b ∧ b ≤ '5'.toUInt8)
  | .timer => true

theorem dispatch_eq_none_iff (b : UInt8) :
    dispatch b = none ↔ ¬ ('1'.toUInt8 ≤ b ∧ b ≤ '5'.toUInt8) := by
  have hcode : ∀ n : UInt8, b = n ↔ b.toNat = n.toNat := fun n => UInt8.toNat_inj.symm
  have h1 : '1'.toUInt8.toNat = 49 := rfl
  have h2 : '2'.toUInt8.toNat = 50 := rfl
  have h3 : '3'.toUInt8.toNat = 51 := rfl
  have h4 : '4'.toUInt8.toNat = 52 := rfl
  have h5 : '5'.toUInt8.toNat = 53 := rfl
  unfold dispatch
  simp only [hcode, UInt8.le_iff_toNat_le, h1, h2, h3, h4, h5]
  split_ifs <;> simp <;> omega

/-- `led_flag` with the values 0 and 1 identified. -/
def quiet (v : Int) : Int := if v = 0 then 1 else v

structure SameLed (d e : LedDev) : Prop where
  gpg11 : d.gpg11 = e.gpg11
  gpg12 : d.gpg12 = e.gpg12
  highLow : d.ledHighLow = e.ledHighLow
  flag : quiet d.ledFlag = quiet e.ledFlag

theorem SameLed.trans {d e f : LedDev} (h : SameLed d e) (h' : SameLed e f) : SameLed d f :=
  ⟨h.gpg11.trans h'.gpg11, h.gpg12.trans h'.gpg12, h.highLow.trans h'.highLow,
    h.flag.trans h'.flag⟩

theorem quiet_eq_iff {v w : Int} (h : quiet v = quiet w) {n : Int} (hn : 1 < n) :
    v = n ↔ w = n := by
  unfold quiet at h
  split_ifs at h <;> omega

theorem SameLed.ioctl {d e : LedDev} (h : SameLed d e) (cmd : UInt32) :
    SameLed (d.ioctl cmd) (e.ioctl cmd) := by
  unfold LedDev.ioctl ledIoctl
  split_ifs
  · exact ⟨rfl, h.gpg12, h.highLow, rfl⟩
  · exact ⟨h.gpg11, rfl, h.highLow, rfl⟩
  · exact ⟨rfl, rfl, h.highLow, rfl⟩

theorem SameLed.timeover {d e : LedDev} (h : SameLed d e) :
    SameLed (kerneltimerTimeover d) (kerneltimerTimeover e) := by
  have h5 : d.ledFlag = 5 ↔ e.ledFlag = 5 := quiet_eq_iff h.flag (by decide)
  have h6 : d.ledFlag = 6 ↔ e.ledFlag = 6 := quiet_eq_iff h.flag (by decide)
  unfold kerneltimerTimeover
  simp only [h5, h6, h.highLow]
  split_ifs
  · exact ⟨h.gpg11, rfl, rfl, h.flag⟩
  · exact ⟨h.gpg11, rfl, rfl, h.flag⟩
  · exact ⟨rfl, h.gpg12, rfl, h.flag⟩
  · exact ⟨rfl, h.gpg12, rfl, h.flag⟩
  · exact h

/-- The driver is as the last LED thread for this value of `cmd` has left it, up to blinking. -/
structure Settled (cmd : Int) (d : LedDev) : Prop where
  flag : quiet d.ledFlag = selectedFlag cmd
  owned : ∀ pin, Owned pin d

theorem settled_ioctl (cmd : Int) (d : LedDev) : Settled cmd (d.ioctl (ledRequest cmd)) := by
  unfold LedDev.ioctl
  refine ⟨?_, fun pin hon => ?_⟩
  · unfold ledRequest selectedFlag
    split_ifs <;> rfl
  · unfold ledRequest at hon ⊢
    split_ifs at hon ⊢ <;> cases pin <;> first | rfl | cases hon

theorem Settled.timeover {cmd : Int} {d : LedDev} (h : Settled cmd d) :
    Settled cmd (kerneltimerTimeover d) :=
  ⟨by rw [kerneltimerTimeover_ledFlag]; exact h.flag, fun pin => owned_timeover (h.owned pin)⟩

theorem Settled.ioctl_same {cmd : Int} {d : LedDev} (h : Settled cmd d) :
    SameLed (d.ioctl (ledRequest cmd)) d := by
  -- a second thread for the same value changes nothing, in whatever phase the blinking is
  have hoff : ∀ pin : LedPin, d.ledFlag ≠ pin.flag → d.level pin = false := by
    intro pin hne
    by_contra hon
    exact hne (h.owned pin (by simpa using hon))
  have hflag := h.flag
  unfold LedDev.ioctl ledRequest
  unfold selectedFlag at hflag
  split_ifs at hflag ⊢
  · have h5 : d.ledFlag = 5 := (quiet_eq_iff (w := 5) hflag (by decide)).mpr rfl
    exact ⟨(hoff .gpg11 (by rw [h5]; decide)).symm, rfl, rfl, hflag.symm⟩
  · have h6 : d.ledFlag = 6 := (quiet_eq_iff (w := 6) hflag (by decide)).mpr rfl
    exact ⟨rfl, (hoff .gpg12 (by rw [h6]; decide)).symm, rfl, hflag.symm⟩
  · have hne : ∀ pin : LedPin, d.ledFlag ≠ pin.flag := by
      intro pin hpin
      rw [hpin] at hflag
      cases pin <;> cases hflag
    exact ⟨(hoff .gpg11 (hne _)).symm, (hoff .gpg12 (hne _)).symm, rfl, hflag.symm⟩

/-- The run with all reads on the left, the run without padding on the right. -/
structure Alike (s t : Served) : Prop where
  server : s.server = t.server
  led : SameLed s.led t.led
  settled : s.server.ended = none → Settled s.server.cmd s.led

theorem alike_visible {s t u : Served} {e : ServedEvent} (h : Alike s t)
    (hstep : servedStep s e = some u) : ∃ v, servedStep t e = some v ∧ Alike u v := by
  cases e with
  | timer =>
    obtain rfl := Option.some.inj hstep
    exact ⟨_, rfl, h.server, h.led.timeover, fun hlive => (h.settled hlive).timeover⟩
  | read b o =>
    obtain ⟨q, hq, rfl⟩ := Option.map_eq_some_iff.mp hstep
    have hread : servedStep t (.read b o) =
        some ⟨q, if q.ended = none then t.led.ioctl (ledRequest q.cmd) else t.led⟩ := by
      rw [h.server] at hq
      simp [servedStep, hq]
    refine ⟨_, hread, rfl, ?_, fun hlive => ?_⟩
    · by_cases hend : q.ended = none
      · simp only [if_pos hend]
        exact h.led.ioctl _
      · simp only [if_neg hend]
        exact h.led
    · have hlive : q.ended = none := hlive
      simp only [if_pos hlive]
      exact settled_ioctl _ _

theorem alike_hidden {s t u : Served} {e : ServedEvent} (h : Alike s t)
    (hpad : e.isCommand = false) (hstep : servedStep s e = some u) : Alike u t := by
  cases e with
  | timer => cases hpad
  | read b o =>
    obtain ⟨q, hq, rfl⟩ := Option.map_eq_some_iff.mp hstep
    have hlive : s.server.ended = none := (loopStep_cases hq).1
    have hnone : dispatch b = none :=
      (dispatch_eq_none_iff b).mpr (by simpa [ServedEvent.isCommand] using hpad)
    have hsame : q = s.server := by
      simpa [loopStep, hlive, hnone, eq_comm] using hq
    subst hsame
    simp only [if_pos hlive]
    exact ⟨h.server, (h.settled hlive).ioctl_same.trans h.led, fun _ => settled_ioctl _ _⟩

/-- Deleting all reads that carry no command changes neither the motor pins nor the indicators, up
to the values 0 and 1 of `led_flag`. -/
theorem padding_invisible {d : Motor} {es : List ServedEvent} {s : Served}
    (hrun : run servedStep (.start d ledInit) es = some s) :
    ∃ t, run servedStep (.start d ledInit) (es.filter ServedEvent.isCommand) = some t ∧
      t.server.dev.pins = s.server.dev.pins ∧ t.led.gpg11 = s.led.gpg11 ∧
      t.led.gpg12 = s.led.gpg12 ∧ t.led.ledHighLow = s.led.ledHighLow ∧
      quiet t.led.ledFlag = quiet s.led.ledFlag := by
  have hstart : Alike (.start d ledInit) (.start d ledInit) := by
    refine ⟨rfl, ⟨rfl, rfl, rfl, rfl⟩, fun _ => ⟨rfl, fun pin hon => ?_⟩⟩
    cases pin <;> cases hon
  have hvisible : ∀ s t e u, Alike s t → e.isCommand = true → servedStep s e = some u →
      ∃ v, servedStep t e = some v ∧ Alike u v := fun _ _ _ _ h _ he => alike_visible h he
  have hhidden : ∀ s t e u, Alike s t → e.isCommand = false → servedStep s e = some u →
      Alike u t := fun _ _ _ _ h hpad he => alike_hidden h hpad he
  obtain ⟨t, ht, hsame⟩ := run_filter hvisible hhidden hstart hrun
  exact ⟨t, ht, by rw [hsame.server], hsame.led.gpg11.symm, hsame.led.gpg12.symm,
    hsame.led.highLow.symm, hsame.led.flag.symm⟩

/-- A turn whose frame leaves two reads of padding in the connection, between which it blinks. -/
def paddedTurn : List ServedEvent :=
  [.read 0 .granted, .read '3'.toUInt8 .granted, .timer, .read 0 .granted, .timer,
    .read 0 .granted, .timer]

theorem padding_invisible_paddedTurn : ∃ t,
    run servedStep (.start (pwmInit Pins.low) ledInit)
      [.read '3'.toUInt8 .granted, .timer, .timer, .timer] = some t ∧ t.led.gpg12 = true := by
  have hrun : ∃ s, run servedStep (.start (pwmInit Pins.low) ledInit) paddedTurn = some s ∧
      s.led.gpg12 = true := ⟨_, rfl, by decide⟩
  obtain ⟨s, hs, hon⟩ := hrun
  obtain ⟨t, ht, _, _, h12, _⟩ := padding_invisible hs
  exact ⟨t, ht, h12.trans hon⟩

end MdsBlackbox.Server.PaddingReads
