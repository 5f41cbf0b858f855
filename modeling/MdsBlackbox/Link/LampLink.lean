/- module: MdsBlackbox/Link/LampLink
   source: CLIENT/rc_client/rc_client.c, SERVER/rc_server/rc_server.c, SERVER/rc_server/th_led.c
   digest: The turn indicators of a car that is driven by remote controls, over all processes. -/

import MdsBlackbox.Link.Clients
import MdsBlackbox.Server.Lamps

set_option autoImplicit false
set_option relaxedAutoImplicit false

namespace MdsBlackbox.Link.LampLink

open MdsBlackbox.Lib.Transition
open MdsBlackbox.Client.Remote
open MdsBlackbox.Server.PwmDev
open MdsBlackbox.Server.CommandLoop
open MdsBlackbox.Server.Led
open MdsBlackbox.Server.LedThreads
open MdsBlackbox.Server.BoardSteps
open MdsBlackbox.Server.Lamps
open MdsBlackbox.Link.Clients

/-! What a process reads first. -/

/-- Whole frames, from the start of one on. -/
def Whole (socket : List UInt8) : Prop := ∃ ks : List Button, socket = ks.flatMap frame

theorem whole_nil : Whole [] := ⟨[], rfl⟩

theorem Whole.press {socket : List UInt8} (h : Whole socket) (k : Button) :
    Whole (socket ++ frame k) := by
  obtain ⟨ks, rfl⟩ := h
  exact ⟨ks ++ [k], by simp⟩

theorem Whole.head {socket : List UInt8} (h : Whole socket) {b : UInt8}
    (hb : socket[0]? = some b) : dispatch b ≠ none := by
  obtain ⟨ks, rfl⟩ := h
  cases ks with
  | nil => cases hb
  | cons k ks =>
    obtain rfl : k.text = b := by simpa [frame] using hb
    cases k <;> decide

/-- A process that has not read yet. -/
def Unused (s : Board) : Prop :=
  s.stage = .serving ∧ s.motion.main = .reading ∧ s.motion.threads = []

theorem unused_of_internal {hasLed : Bool} {s t : Board} {e : BoardEvent} (he : internal e = true)
    (hstep : boardStep hasLed s e = some t) (h : Unused t) : Unused s := by
  obtain ⟨hstage, hmain, hthreads⟩ := h
  cases boardStep_inv hstep with
  | connect _ => cases he
  | motion e m hserving hm hlive =>
    have hset : ∀ {ts : List LedThread} {i : Nat} {u : LedThread}, ts.set i u = [] → ts = [] :=
      fun hnil => (List.set_eq_nil_iff _ _).mp hnil
    cases hm with
    | create _ => simp at hthreads
    | exitMain why _ => simp [Process.exit] at hlive
    | exitLed i _ => simp [Process.exit] at hlive
    | ledMissing i _ _ => exact ⟨hserving, hmain, hset hthreads⟩
    | openLed i _ _ => exact ⟨hserving, hmain, hset hthreads⟩
    | load i _ => exact ⟨hserving, hmain, hset hthreads⟩
    | ledIoctl i v _ => exact ⟨hserving, hmain, hset hthreads⟩
    | _ => cases hmain
  | timer _ => exact ⟨hstage, hmain, hthreads⟩
  | openFault _ _ u hserving _ _ _ => exact ⟨hstage, hmain, hthreads⟩
  | openSensor _ _ u _ _ _ _ _ => exact ⟨hstage, hmain, hthreads⟩
  | openFailed _ _ u _ _ _ _ _ => exact ⟨hstage, hmain, hthreads⟩
  | expire b u _ => exact ⟨hstage, hmain, hthreads⟩
  | _ => cases hstage

theorem read_data {hasLed : Bool} {s t : Board} {b : UInt8}
    (hstep : boardStep hasLed s (.motion (.read (.data b))) = some t) :
    s.stage = .serving ∧ s.motion.main = .reading ∧ ¬ Unused t := by
  cases boardStep_inv hstep with
  | motion e m hstage hm _ =>
    cases hm with
    | readFailed r _ hr => exact absurd rfl (hr b)
    | readOther b hmain _ => exact ⟨hstage, hmain, fun h => by cases h.2.1⟩
    | readCommand b cmd k hmain _ => exact ⟨hstage, hmain, fun h => by cases h.2.1⟩
  | exit e m hstage hm _ =>
    have hmain : s.motion.main = .reading := by
      cases hm with
      | readFailed r hmain _ => exact hmain
      | readOther b hmain _ => exact hmain
      | readCommand b cmd k hmain _ => exact hmain
    exact ⟨hstage, hmain, fun h => by cases h.1⟩

/-- Nothing has been read of a connection that waits, nor of that of a process that has not read
yet. -/
structure Unread (s : Service) : Prop where
  waiting : ∀ l ∈ s.lines, l.stage = .waiting → Whole l.socket
  unused : Unused s.board →
    ∃ i l, s.current = some i ∧ s.lines[i]? = some l ∧ Whole l.socket

theorem unread_boot (pins : Pins) (l : LedDev) : Unread (.boot pins l) where
  waiting := fun _ hl => by cases hl
  unused := fun h => by cases h.1

theorem Unread.set {s : Service} (h : Unread s) {i : Nat} {l m : Line}
    (hwhole : Whole l.socket → Whole m.socket) (hl : s.lines[i]? = some l)
    (hstage : m.stage = .waiting → l.stage = .waiting) :
    Unread { s with lines := s.lines.set i m } := by
  have hlt := (List.getElem?_eq_some_iff.mp hl).1
  refine ⟨fun k hk hwaits => ?_, fun hunused => ?_⟩
  · rcases List.mem_or_eq_of_mem_set hk with hk | rfl
    · exact h.waiting k hk hwaits
    · exact hwhole (h.waiting l (List.mem_of_getElem? hl) (hstage hwaits))
  · obtain ⟨j, k, hcurrent, hk, hsocket⟩ := h.unused hunused
    by_cases hij : i = j
    · subst hij
      obtain rfl : l = k := Option.some.inj (hl.symm.trans hk)
      exact ⟨i, m, hcurrent, by simp [hlt], hwhole hsocket⟩
    · exact ⟨j, k, hcurrent, by simpa [List.getElem?_set_ne hij] using hk, hsocket⟩

theorem unread_step {hasLed : Bool} {s t : Service} {e : ServiceEvent} (hturn : InTurn s)
    (h : Unread s) (hstep : serviceStep hasLed s e = some t) : Unread t := by
  cases serviceStep_inv hstep with
  | connect _ =>
    refine ⟨fun l hl hwaits => ?_, fun hunused => ?_⟩
    · rcases List.mem_append.mp hl with hl | hl
      · exact h.waiting l hl hwaits
      · obtain rfl := List.mem_singleton.mp hl
        exact whole_nil
    · obtain ⟨i, l, hcurrent, hl, hwhole⟩ := h.unused hunused
      have hlt := (List.getElem?_eq_some_iff.mp hl).1
      exact ⟨i, l, hcurrent, by rw [List.getElem?_append_left hlt, hl], hwhole⟩
  | beside i x y _ => exact h
  | press i x y l k hl _ => exact h.set (fun hwhole => hwhole.press k) hl id
  | accept i l u hl hwaits _ _ =>
    have hwhole := h.waiting l (List.mem_of_getElem? hl) hwaits
    have hlt := (List.getElem?_eq_some_iff.mp hl).1
    refine ⟨fun m hm hwaiting => ?_, fun _ =>
      ⟨i, { l with stage := .accepted }, rfl, by simp [hlt], hwhole⟩⟩
    rcases List.mem_or_eq_of_mem_set hm with hm | rfl
    · exact h.waiting m hm hwaiting
    · cases hwaiting
  | read i n b l u hl hcurrent _ _ hu =>
    refine ⟨fun m hm hwaiting => ?_, fun hunused => absurd hunused (read_data hu).2.2⟩
    rcases List.mem_or_eq_of_mem_set hm with hm | rfl
    · exact h.waiting m hm hwaiting
    · -- the connection that is served does not wait
      exact absurd ((hturn.waiting i l hl hwaiting).1 i hcurrent) (Nat.lt_irrefl i)
  | board e u he hu =>
    unfold Service.settle
    split_ifs with hgone
    · refine ⟨fun m hm hwaiting => ?_, fun hunused => ?_⟩
      · obtain ⟨l, _, rfl⟩ := List.mem_map.mp hm
        cases hwaiting
      · cases hunused.1.symm.trans hgone
    · exact ⟨h.waiting, fun hunused => h.unused (unused_of_internal he hu hunused)⟩

/-! The indicators. -/

/-- A read finds all LED threads returned, and the sensor thread ends the process, after an open
that failed or a lost client, only between two commands. -/
def Prompt (s : Service) : ServiceEvent → Prop
  | .read _ _ _ | .board (.motion (.read _)) => ∀ t ∈ s.board.motion.threads, t = .returned
  | .board .exitSensor | .board .brokenPipe => Quiet s.board
  | _ => True

theorem calm_of_prompt {s : Service} (hunread : Unread s) {hasLed : Bool} {t : Service}
    {e : ServiceEvent} (hprompt : Prompt s e) (hstep : serviceStep hasLed s e = some t)
    {f : BoardEvent} (hf : e.onBoard = some f) : CalmBoard s.board f := by
  cases serviceStep_inv hstep with
  | connect _ => cases hf
  | beside i x y _ => cases hf
  | press i x y l k _ _ => cases hf
  | accept i l u _ _ _ _ =>
    obtain rfl := Option.some.inj hf
    trivial
  | read i n b l u hl hcurrent hb _ hu =>
    obtain rfl := Option.some.inj hf
    refine ⟨hprompt, fun hnone => ?_⟩
    obtain ⟨hstage, hmain, _⟩ := read_data hu
    have hunused : Unused s.board := ⟨hstage, hmain, hnone⟩
    obtain ⟨j, m, hj, hm, hwhole⟩ := hunread.unused hunused
    obtain rfl : i = j := Option.some.inj (hcurrent.symm.trans hj)
    obtain rfl : l = m := Option.some.inj (hl.symm.trans hm)
    exact hwhole.head hb
  | board e u he hu =>
    obtain rfl := Option.some.inj hf
    cases e with
    | motion e =>
      cases e with
      | read r =>
        cases r with
        | data b => cases he
        | closed => exact hprompt
        | error => exact hprompt
      | _ => trivial
    | exitSensor => exact hprompt
    | brokenPipe => exact hprompt
    | _ => trivial

/-- What is kept in every run in which the LED threads are prompt. -/
structure Shown (s : Service) : Prop where
  turn : InTurn s
  unread : Unread s
  lamps : LampInv s.board

theorem shown_step {s t : Service} {e : ServiceEvent} (h : Shown s) (hprompt : Prompt s e)
    (hstep : serviceStep true s e = some t) : Shown t := by
  refine ⟨inTurn_step h.turn hstep, unread_step h.turn h.unread hstep, ?_⟩
  have hcalm : ∀ f, e.onBoard = some f → CalmBoard s.board f :=
    fun _ hf => calm_of_prompt h.unread hprompt hstep hf
  cases serviceStep_inv hstep with
  | accept i l u _ _ _ hu => exact lampInv_step h.lamps (hcalm _ rfl) hu
  | read i n b l u _ _ _ _ hu => exact lampInv_step h.lamps (hcalm _ rfl) hu
  | board e u _ hu =>
    rw [settle_board]
    exact lampInv_step h.lamps (hcalm _ rfl) hu
  | _ => exact h.lamps

/-- With any number of remote controls and of server processes, as long as the LED threads are done
before the next read returns: whenever nothing is under way, also between two processes, a lamp
flashes exactly when the wheels are turned to its side, and no other lamp is lit. -/
theorem lamps_follow_wheels {pins : Pins} {es : List ServiceEvent} {s : Service}
    (hrun : run (serviceStep true) (.boot pins ledInit) es = some s)
    (guard : EachStep (serviceStep true) Prompt (.boot pins ledInit) es) (hquiet : Quiet s.board) :
    (Flashes s.board.motion.led .gpg12 ↔ s.board.motion.server.dev.pins.gpg4 = true) ∧
      (Flashes s.board.motion.led .gpg11 ↔ s.board.motion.server.dev.pins.gpg7 = true) ∧
      ∀ pin, s.board.motion.led.level pin = true → Flashes s.board.motion.led pin := by
  have hshown : Shown s :=
    guarded_induction (I := fun _ => Shown)
      ⟨inTurn_boot pins ledInit, unread_boot pins ledInit, lampInv_boot pins⟩
      (fun _ _ _ _ h hprompt hu => shown_step h hprompt hu) guard hrun
  exact hshown.lamps.flashes hquiet

instance (s : Service) : (e : ServiceEvent) → Decidable (Prompt s e)
  | .read _ _ _ | .board (.motion (.read _)) =>
    inferInstanceAs (Decidable (∀ t ∈ s.board.motion.threads, t = .returned))
  | .board .exitSensor | .board .brokenPipe => inferInstanceAs (Decidable (Quiet s.board))
  | .connect | .click _ _ _ | .accept _ | .board (.startUp _) | .board (.openSensor _ _)
  | .board (.expire _) | .board .respawn | .board (.motion (.openPwm _))
  | .board (.motion .pwmIoctl) | .board (.motion .closePwm) | .board (.motion .create)
  | .board (.motion .exitMain) | .board (.motion (.openLed _)) | .board (.motion (.exitLed _))
  | .board (.motion (.load _)) | .board (.motion (.ledIoctl _)) | .board (.motion .timer) =>
    isTrue trivial

/-- `Right`, its LED thread, two expiries of the blink timer, a lost connection, and the next
process with the next client. -/
def rightThenRestart : List ServiceEvent :=
  [.connect, .click 0 400 150, .accept 0, .board (.openSensor true true),
    .read 0 20 '3'.toUInt8, .board (.motion (.openPwm .granted)), .board (.motion .pwmIoctl),
    .board (.motion .pwmIoctl), .board (.motion .pwmIoctl), .board (.motion .closePwm),
    .board (.motion .create), .board (.motion (.openLed 0)), .board (.motion (.load 0)),
    .board (.motion (.ledIoctl 0)), .board (.motion .timer), .board (.motion .timer),
    .board (.motion (.read .closed)), .board (.motion .exitMain), .board .respawn, .connect,
    .accept 1]

theorem lamps_follow_wheels_rightThenRestart :
    ∃ s, run (serviceStep true) (.boot Pins.low ledInit) rightThenRestart = some s ∧
      Flashes s.board.motion.led .gpg12 := by
  have hrun : ∃ s, run (serviceStep true) (.boot Pins.low ledInit) rightThenRestart = some s ∧
      Quiet s.board ∧ s.board.motion.server.dev.pins.gpg4 = true := ⟨_, rfl, by decide, rfl⟩
  obtain ⟨s, hs, hquiet, hturned⟩ := hrun
  exact ⟨s, hs, (lamps_follow_wheels hs (by decide) hquiet).1.mpr hturned⟩

end MdsBlackbox.Link.LampLink
