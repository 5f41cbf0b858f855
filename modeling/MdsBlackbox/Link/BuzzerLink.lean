/- module: MdsBlackbox/Link/BuzzerLink
   source: CLIENT/rc_client/rc_client.c, CLIENT/rc_client/th_buzzer.c, CLIENT/rc_client/buzzer.c,
     SERVER/rc_server/th_ultra.c, SERVER/rc_server/ultrasonic.c
   digest: From the echoes at the car to the sound of the buzzer at the remote control. -/

import MdsBlackbox.Client.Buzzer
import MdsBlackbox.Drivers.Modules
import MdsBlackbox.Link.AlarmLink

set_option autoImplicit false
set_option relaxedAutoImplicit false

namespace MdsBlackbox.Link.BuzzerLink

open MdsBlackbox.Lib.Transition
open MdsBlackbox.Client.TcpRead
open MdsBlackbox.Client.Buzzer
open MdsBlackbox.Drivers.Modules
open MdsBlackbox.Server.PwmDev
open MdsBlackbox.Server.Ultrasonic
open MdsBlackbox.Link.AlarmLink

/-! The statements of the driver's ioctl. -/

inductive BuzzerStmt
  | config
  | enable
  | delay
  | disable
  deriving DecidableEq

def BuzzerStmt.exec (s : BuzzerModule) : BuzzerStmt → BuzzerModule
  | .config => { s with bzPwm := { s.bzPwm with config := s.pwmDuty } }
  | .enable => { s with bzPwm := { s.bzPwm with enabled := true } }
  | .delay => s
  | .disable => { s with bzPwm := { s.bzPwm with enabled := false } }

/-- The case `BUZZER_SIG` with its `mdelay(200)`, and the `pwm_disable` behind the `switch`. -/
def buzzerStmts (cmd : UInt32) : List BuzzerStmt :=
  if cmd = BUZZER_SIG then [.config, .enable, .delay, .disable] else [.disable]

theorem foldl_buzzerStmts (s : BuzzerModule) (cmd : UInt32) :
    (buzzerStmts cmd).foldl BuzzerStmt.exec s = buzzerIoctl s cmd := by
  unfold buzzerStmts buzzerIoctl
  split_ifs <;> rfl

/-! The remote control and the car. -/

/-- `fd` is the descriptor of the buzzer in the client's table, `dev` the driver behind it, and
`rest` what the ioctl in progress has still to execute. -/
structure Siren where
  alarm : AlarmState
  buzzer : BuzzerState
  fd : Option Nat
  dev : BuzzerModule
  rest : List BuzzerStmt
  deriving DecidableEq

/-- The driver as `insmod` leaves it. -/
def buzzerLoaded : BuzzerModule := ⟨⟨false, false, ⟨0, 0⟩, false⟩, ⟨0, 0⟩, 0⟩

def Siren.start (cnt : Int32) : Siren := ⟨.start cnt, .start cnt, none, buzzerLoaded, []⟩

inductive SirenEvent
  | alarm (e : AlarmEvent)
  | openBuzzer (fd : Option Nat)
  | activation
  | signal
  | clear
  | buzzerFunc
  | stmt
  | buzzerReturns
  deriving DecidableEq

/-- What a read of the client's thread hands to its counter. -/
def readBy (s : AlarmState) : AlarmEvent → Option BuzzerEvent
  | .clientRead n => some (.read (s.socket.take n))
  | .clientReadFails => some (.read [])
  | .echo _ _ | .deviceOpen _ | .deviceRead | .socketWrite _ => none

def Siren.withBuzzer (s : Siren) (e : BuzzerEvent) : Option Siren :=
  (buzzerStep s.buzzer e).map fun b => { s with buzzer := b }

/-- An open that fails leaves -1 in `buzzer_fd`; an ioctl reaches the driver through the descriptor
of the buzzer alone. -/
def sirenStep (s : Siren) : SirenEvent → Option Siren
  | .alarm e =>
    (alarmStep s.alarm e).bind fun a =>
      match readBy s.alarm e with
      | none => some { s with alarm := a }
      | some b => { s with alarm := a }.withBuzzer b
  | .openBuzzer fd =>
    (buzzerModuleStep s.dev (.openDevice fd.isSome)).bind fun d =>
      { s with fd := fd, dev := d }.withBuzzer (.openBuzzer (fd.elim (-1) fun n => (n : Int)))
  | .activation => s.withBuzzer .activation
  | .signal => s.withBuzzer .signal
  | .clear => s.withBuzzer .clear
  | .buzzerFunc =>
    { s with
      rest := if s.fd.map (fun n => (n : Int)) = some s.buzzer.buzzerFd then buzzerStmts BUZZER_SIG
        else [] }.withBuzzer .buzzerFunc
  | .stmt =>
    match s.rest with
    | [] => none
    | c :: cs => some { s with dev := c.exec s.dev, rest := cs }
  | .buzzerReturns => if s.rest = [] then s.withBuzzer .buzzerReturns else none

def SirenEvent.onAlarm : SirenEvent → Option AlarmEvent
  | .alarm e => some e
  | .openBuzzer _ | .activation | .signal | .clear | .buzzerFunc | .stmt | .buzzerReturns => none

/-- What the car and the connection do, and what the client reads. -/
def atAlarm (es : List SirenEvent) : List AlarmEvent := es.filterMap SirenEvent.onAlarm

def countBeep (s : Siren) (e : SirenEvent) (n : Nat) : Nat :=
  if e = .stmt ∧ s.rest.head? = some .enable then n + 1 else n

/-- How often the buzzer has begun to sound. -/
def beeps (cnt : Int32) (es : List SirenEvent) : Nat :=
  history sirenStep countBeep (.start cnt) 0 es

/-! The invariant. -/

/-- The tone that `buzzer_open` sets. -/
def tone : PwmPulse := ⟨150000, 200000⟩

/-- The driver against the call of the handler that has reached it. -/
structure Tuned (s : Siren) : Prop where
  suffix : s.rest <:+ buzzerStmts BUZZER_SIG
  called : s.buzzer.handler ≠ .buzzing ∨ s.fd = none → s.rest = []
  sounding : s.dev.bzPwm.enabled = true ↔ s.rest = [.delay, .disable] ∨ s.rest = [.disable]
  tuned : s.fd.isSome → s.dev.pwmDuty = tone ∧ s.dev.bzPwm.config = tone

/-- The activations and the calls of `buzzer_func` are those of the client. -/
structure Counted (es : List SirenEvent) (bs : List BuzzerEvent) : Prop where
  activation : bs.count .activation = es.count .activation
  buzzerFunc : bs.count .buzzerFunc = es.count .buzzerFunc

/-- The activations on a record. -/
def alarmsOf (h : Provenance) : Nat := h.gaps.length + h.activated.toNat

/-- The run as the car and the connection see it, and as the client's flag sees it: `bs` are the
statements of its thread and of its handler. -/
structure Rings (cnt : Int32) (es : List SirenEvent) (s : Siren) (bs : List BuzzerEvent) :
    Prop where
  alarm : run alarmStep (.start cnt) (atAlarm es) = some s.alarm
  buzzer : run buzzerStep (.start cnt) bs = some s.buzzer
  cnt_eq : s.buzzer.cnt = s.alarm.cnt
  activations : bs.count .activation + (if s.buzzer.thread = .alarming then 1 else 0) =
    alarmsOf (provenance cnt (atAlarm es))
  counted : Counted es bs
  unopened : s.buzzer.thread = .opening → s.fd = none ∧ bs.count .activation = 0
  opened : s.buzzer.thread ≠ .opening → s.buzzer.buzzerFd = s.fd.elim (-1) fun n => (n : Int)
  tuned : Tuned s
  beeps : beeps cnt es + (if .enable ∈ s.rest then 1 else 0) =
    if s.fd.isSome then bs.count .buzzerFunc else 0

theorem heard_run {cnt : Int32} {bs : List BuzzerEvent} {b : BuzzerState}
    (hrun : run buzzerStep (.start cnt) bs = some b) : Heard bs b :=
  run_induction (heard_start cnt) (fun _ _ _ _ _ h he => heard_step h he) hrun

theorem rings_start (cnt : Int32) : Rings cnt [] (.start cnt) [] where
  alarm := rfl
  buzzer := rfl
  cnt_eq := rfl
  activations := rfl
  counted := ⟨rfl, rfl⟩
  unopened := fun _ => ⟨rfl, rfl⟩
  opened := fun h => absurd rfl h
  tuned := ⟨List.nil_suffix, fun _ => rfl, by simp [Siren.start, buzzerLoaded],
    by simp [Siren.start]⟩
  beeps := rfl

theorem atAlarm_alarm (es : List SirenEvent) (e : AlarmEvent) :
    atAlarm (es ++ [.alarm e]) = atAlarm es ++ [e] := List.filterMap_append

theorem atAlarm_other (es : List SirenEvent) {e : SirenEvent} (he : e.onAlarm = none) :
    atAlarm (es ++ [e]) = atAlarm es := by
  rw [atAlarm, List.filterMap_append, List.filterMap_cons_none he]
  exact List.append_nil _

section
variable {cnt : Int32} {es : List SirenEvent} {s t : Siren} {bs : List BuzzerEvent}

theorem beeps_concat (hrun : run sirenStep (.start cnt) es = some s) {e : SirenEvent}
    (hstep : sirenStep s e = some t) : beeps cnt (es ++ [e]) = countBeep s e (beeps cnt es) :=
  history_concat hrun hstep

theorem beeps_silent (hrun : run sirenStep (.start cnt) es = some s) {e : SirenEvent}
    (hstep : sirenStep s e = some t) (he : e ≠ .stmt) : beeps cnt (es ++ [e]) = beeps cnt es := by
  rw [beeps_concat hrun hstep, countBeep, if_neg fun h => he h.1]

theorem Counted.keep (h : Counted es bs) {e : SirenEvent} (hact : e ≠ .activation)
    (hfunc : e ≠ .buzzerFunc) : Counted (es ++ [e]) bs where
  activation := by
    rw [List.count_append, List.count_singleton, h.activation]
    simp [hact]
  buzzerFunc := by
    rw [List.count_append, List.count_singleton, h.buzzerFunc]
    simp [hfunc]

theorem Counted.both (h : Counted es bs) {e : SirenEvent} {z : BuzzerEvent}
    (hact : z = .activation ↔ e = .activation) (hfunc : z = .buzzerFunc ↔ e = .buzzerFunc) :
    Counted (es ++ [e]) (bs ++ [z]) where
  activation := by
    rw [List.count_append, List.count_append, h.activation, List.count_singleton,
      List.count_singleton]
    simp [hact]
  buzzerFunc := by
    rw [List.count_append, List.count_append, h.buzzerFunc, List.count_singleton,
      List.count_singleton]
    simp [hfunc]

theorem alarms_hidden {a b : AlarmState} {e : AlarmEvent} (h : Provenance)
    (hstep : alarmStep a e = some b) (he : readBy a e = none) :
    alarmsOf (record a e h) = alarmsOf h ∧ b.cnt = a.cnt := by
  cases e with
  | echo level now =>
    obtain rfl := Option.some.inj hstep
    cases level <;> exact ⟨rfl, rfl⟩
  | deviceOpen ok =>
    simp only [alarmStep] at hstep
    split_ifs at hstep <;> obtain rfl := Option.some.inj hstep <;> exact ⟨rfl, rfl⟩
  | deviceRead =>
    simp only [alarmStep] at hstep
    split_ifs at hstep
    obtain rfl := Option.some.inj hstep
    exact ⟨rfl, rfl⟩
  | socketWrite ok =>
    simp only [alarmStep] at hstep
    split at hstep
    · rename_i payload hp
      obtain rfl := Option.some.inj hstep
      cases ok <;> simp [record, hp, alarmsOf]
    · cases hstep
  | clientRead n => cases he
  | clientReadFails => cases he

theorem alarms_read {a b : AlarmState} {e : AlarmEvent} (h : Provenance) {z : BuzzerEvent}
    (hstep : alarmStep a e = some b) (he : readBy a e = some z) :
    ∃ buf, z = .read buf ∧ b.cnt = (tcpRead a.cnt buf).1 ∧
      alarmsOf (record a e h) =
        alarmsOf h + if (tcpRead a.cnt buf).2 then 1 else 0 := by
  cases e with
  | clientRead n =>
    obtain rfl := Option.some.inj he
    simp only [alarmStep] at hstep
    split_ifs at hstep
    obtain rfl := Option.some.inj hstep
    refine ⟨_, rfl, rfl, ?_⟩
    simp only [record, alarmsOf, Provenance.receive]
    cases (tcpRead a.cnt (a.socket.take n)).2 <;> cases h.activated <;> simp
  | clientReadFails =>
    obtain rfl := Option.some.inj he
    obtain rfl := Option.some.inj hstep
    exact ⟨[], rfl, rfl, rfl⟩
  | _ => cases he

theorem Rings.alarm_step (h : Rings cnt es s bs) {e : AlarmEvent}
    (hrun : run sirenStep (.start cnt) es = some s) (hstep : sirenStep s (.alarm e) = some t) :
    ∃ bs', Rings cnt (es ++ [.alarm e]) t bs' := by
  have hbeeps := beeps_silent hrun hstep (by simp)
  obtain ⟨a, ha, hnext⟩ := Option.bind_eq_some_iff.mp hstep
  have halarm : run alarmStep (.start cnt) (atAlarm (es ++ [.alarm e])) = some a := by
    rw [atAlarm_alarm]
    exact run_concat_eq_some.mpr ⟨s.alarm, h.alarm, ha⟩
  have hrecord : provenance cnt (atAlarm (es ++ [.alarm e])) =
      record s.alarm e (provenance cnt (atAlarm es)) := by
    rw [atAlarm_alarm]
    exact history_concat h.alarm ha
  cases he : readBy s.alarm e with
  | none =>
    obtain ⟨halarms, hcnt⟩ := alarms_hidden (provenance cnt (atAlarm es)) ha he
    simp only [he, Option.some.injEq] at hnext
    subst hnext
    refine ⟨bs, halarm, h.buzzer, h.cnt_eq.trans hcnt.symm, ?_,
      h.counted.keep (by simp) (by simp), h.unopened, h.opened,
      ⟨h.tuned.suffix, h.tuned.called, h.tuned.sounding, h.tuned.tuned⟩, ?_⟩
    · rw [hrecord]
      exact h.activations.trans halarms.symm
    · rw [hbeeps]
      exact h.beeps
  | some z =>
    obtain ⟨buf, rfl, hcnt, halarms⟩ := alarms_read (provenance cnt (atAlarm es)) ha he
    simp only [he] at hnext
    obtain ⟨b, hb, rfl⟩ := Option.map_eq_some_iff.mp hnext
    have hbuzzer : run buzzerStep (.start cnt) (bs ++ [.read buf]) = some b :=
      run_concat_eq_some.mpr ⟨s.buzzer, h.buzzer, hb⟩
    have hreading : s.buzzer.thread = .reading := by
      by_contra hne
      simp [buzzerStep, hne] at hb
    rw [buzzerStep, if_pos hreading] at hb
    obtain rfl := Option.some.inj hb
    have hopened := h.opened (by simp [hreading])
    have hactivations := h.activations
    rw [hreading] at hactivations
    refine ⟨bs ++ [.read buf], halarm, hbuzzer, ?_, ?_,
      h.counted.both (by simp) (by simp), ?_, fun _ => hopened,
      ⟨h.tuned.suffix, h.tuned.called, h.tuned.sounding, h.tuned.tuned⟩, ?_⟩
    · rw [hcnt, ← h.cnt_eq]
    · rw [hrecord]
      refine Eq.trans ?_ halarms.symm
      rw [← h.cnt_eq, count_concat]
      simp only [reduceCtorEq, if_false, Nat.add_zero] at hactivations ⊢
      rw [hactivations]
      cases (tcpRead s.buzzer.cnt buf).2 <;> rfl
    · cases (tcpRead s.buzzer.cnt buf).2 <;> simp
    · rw [hbeeps, count_concat]
      exact h.beeps

theorem flag_cases {b c : BuzzerState} {z : BuzzerEvent} (hz : z ∈ [.activation, .signal, .clear])
    (hstep : buzzerStep b z = some c) :
    c.buzzerFd = b.buzzerFd ∧ c.cnt = b.cnt ∧ (c.handler = .buzzing ↔ b.handler = .buzzing) ∧
      (c.thread = .opening ↔ b.thread = .opening) ∧
      ((if z = .activation then 1 else 0) + (if c.thread = .alarming then 1 else 0) =
        if b.thread = .alarming then 1 else 0) := by
  simp only [List.mem_cons, List.not_mem_nil, or_false] at hz
  rcases hz with rfl | rfl | rfl
  · simp only [buzzerStep] at hstep
    split_ifs at hstep with halarming
    obtain rfl := Option.some.inj hstep
    simp [halarming]
  · simp only [buzzerStep] at hstep
    split_ifs at hstep with hidle honoff <;> obtain rfl := Option.some.inj hstep <;> simp [hidle]
  · simp only [buzzerStep] at hstep
    split_ifs at hstep with htested
    obtain rfl := Option.some.inj hstep
    simp [htested]

theorem Rings.flag_step (h : Rings cnt es s bs) {e : SirenEvent} {z : BuzzerEvent}
    (hrun : run sirenStep (.start cnt) es = some s) (hstep : sirenStep s e = some t)
    (hz : s.withBuzzer z = some t) (he : z ∈ [.activation, .signal, .clear])
    (hother : e.onAlarm = none) (hstmt : e ≠ .stmt) (hact : z = .activation ↔ e = .activation)
    (hfunc : e ≠ .buzzerFunc) : Rings cnt (es ++ [e]) t (bs ++ [z]) := by
  have hbeeps := beeps_silent hrun hstep hstmt
  obtain ⟨b, hb, rfl⟩ := Option.map_eq_some_iff.mp hz
  obtain ⟨hfd, hcnt, hhandler, hopening, halarming⟩ := flag_cases he hb
  have hnot : z ≠ .buzzerFunc := by
    rintro rfl
    simp at he
  refine ⟨?_, run_concat_eq_some.mpr ⟨s.buzzer, h.buzzer, hb⟩, hcnt.trans h.cnt_eq, ?_,
    h.counted.both hact (iff_of_false hnot hfunc), ?_, ?_,
    ⟨h.tuned.suffix, ?_, h.tuned.sounding, h.tuned.tuned⟩, ?_⟩
  · rw [atAlarm_other es hother]
    exact h.alarm
  · rw [atAlarm_other es hother, ← h.activations, count_concat, Nat.add_assoc, halarming]
  · intro hopen
    obtain ⟨hnone, hzero⟩ := h.unopened (hopening.mp hopen)
    have hsame : z ≠ .activation := by
      rintro rfl
      simp [hopening.mp hopen] at halarming
    refine ⟨hnone, ?_⟩
    rw [count_concat, if_neg hsame]
    exact hzero
  · exact fun hopen => hfd.trans (h.opened (mt hopening.mpr hopen))
  · exact fun hcall => h.tuned.called (hcall.imp (mt hhandler.mpr) id)
  · rw [hbeeps, count_concat, if_neg hnot]
    exact h.beeps

theorem Rings.openBuzzer_step (h : Rings cnt es s bs) {fd : Option Nat}
    (hrun : run sirenStep (.start cnt) es = some s)
    (hstep : sirenStep s (.openBuzzer fd) = some t) :
    ∃ bs', Rings cnt (es ++ [.openBuzzer fd]) t bs' := by
  -- the open comes before all activations, so that no call of the handler can have missed it
  have hbeeps := beeps_silent hrun hstep (by simp)
  rw [sirenStep] at hstep
  obtain ⟨d, hd, hnext⟩ := Option.bind_eq_some_iff.mp hstep
  obtain ⟨b, hb, rfl⟩ := Option.map_eq_some_iff.mp hnext
  have hbuzzer := run_concat_eq_some.mpr ⟨s.buzzer, h.buzzer, hb⟩
  have hopening : s.buzzer.thread = .opening := by
    by_contra hne
    simp [buzzerStep, hne] at hb
  rw [buzzerStep, if_pos hopening] at hb
  obtain rfl := Option.some.inj hb
  obtain ⟨hnone, hzero⟩ := h.unopened hopening
  have hrest : s.rest = [] := h.tuned.called (Or.inr hnone)
  have hcount : bs.count .buzzerFunc = 0 := by
    have hheard := (heard_run h.buzzer).counted
    omega
  have hactivations := h.activations
  have hsilent : s.dev.bzPwm.enabled = false := by
    simpa [hrest] using h.tuned.sounding
  obtain rfl := Option.some.inj hd
  refine ⟨_, ?_, hbuzzer, h.cnt_eq, ?_, h.counted.both (by simp) (by simp), by simp, fun _ => rfl,
    ⟨?_, ?_, ?_, ?_⟩, ?_⟩
  · rw [atAlarm_other es rfl]
    exact h.alarm
  · rw [atAlarm_other es rfl, ← h.activations, count_concat, hopening]
    rfl
  · exact h.tuned.suffix
  · exact fun _ => hrest
  · cases fd <;> simp [buzzerOpen, hrest, hsilent]
  · cases fd <;> simp [buzzerOpen, tone]
  · have hbefore := h.beeps
    simp only [hrest, hnone, List.not_mem_nil, if_false, Option.isSome_none] at hbefore
    rw [hbeeps, count_concat, hcount, hrest]
    simpa using hbefore

theorem Rings.called_rest (h : Rings cnt es s bs) :
    (if s.fd.map (fun n => (n : Int)) = some s.buzzer.buzzerFd then buzzerStmts BUZZER_SIG
      else []) = if s.fd.isSome then buzzerStmts BUZZER_SIG else [] := by
  cases hfd : s.fd with
  | none => rfl
  | some n =>
    have hopen : s.buzzer.thread ≠ .opening := fun hopening => by
      simp [(h.unopened hopening).1] at hfd
    have hdescriptor : s.buzzer.buzzerFd = n := by
      rw [h.opened hopen, hfd]
      rfl
    simp [hdescriptor]

theorem Rings.buzzerFunc_step (h : Rings cnt es s bs)
    (hrun : run sirenStep (.start cnt) es = some s) (hstep : sirenStep s .buzzerFunc = some t) :
    Rings cnt (es ++ [.buzzerFunc]) t (bs ++ [.buzzerFunc]) := by
  have hbeeps := beeps_silent hrun hstep (by simp)
  rw [sirenStep, h.called_rest] at hstep
  obtain ⟨b, hb, rfl⟩ := Option.map_eq_some_iff.mp hstep
  have hbuzzer := run_concat_eq_some.mpr ⟨s.buzzer, h.buzzer, hb⟩
  have hcleared : s.buzzer.handler = .cleared := by
    by_contra hne
    simp [buzzerStep, hne] at hb
  rw [buzzerStep, if_pos hcleared] at hb
  obtain rfl := Option.some.inj hb
  have hrest : s.rest = [] := h.tuned.called (Or.inl (by simp [hcleared]))
  have hsilent : s.dev.bzPwm.enabled = false := by
    simpa [hrest] using h.tuned.sounding
  have hbefore := h.beeps
  simp only [hrest, List.not_mem_nil, if_false, Nat.add_zero] at hbefore
  refine ⟨?_, hbuzzer, h.cnt_eq, ?_, h.counted.both (by simp) (by simp), ?_, h.opened,
    ⟨?_, ?_, ?_, h.tuned.tuned⟩, ?_⟩
  · rw [atAlarm_other es rfl]
    exact h.alarm
  · rw [atAlarm_other es rfl, ← h.activations, count_concat]
    rfl
  · rw [count_concat]
    exact h.unopened
  · show (if s.fd.isSome then buzzerStmts BUZZER_SIG else []) <:+ _
    split_ifs
    · exact List.suffix_refl _
    · exact List.nil_suffix
  · intro hcall
    have hnone : s.fd = none := hcall.resolve_left fun hnot => hnot rfl
    simp [hnone]
  · cases s.fd <;> simp [hsilent, buzzerStmts]
  · rw [hbeeps, hbefore, count_concat]
    cases s.fd <;> simp [buzzerStmts]

theorem suffix_cases {rest : List BuzzerStmt} (h : rest <:+ buzzerStmts BUZZER_SIG) :
    rest = [.config, .enable, .delay, .disable] ∨ rest = [.enable, .delay, .disable] ∨
      rest = [.delay, .disable] ∨ rest = [.disable] ∨ rest = [] := by
  simpa [buzzerStmts, List.suffix_cons_iff] using h

theorem Tuned.stmt (h : Tuned s) {c : BuzzerStmt} {cs : List BuzzerStmt}
    (hrest : s.rest = c :: cs) :
    Tuned { s with dev := c.exec s.dev, rest := cs } := by
  have hsuffix := h.suffix
  have hsounding := h.sounding
  have htuned := h.tuned
  have hcalled : ¬ (s.buzzer.handler ≠ .buzzing ∨ s.fd = none) := fun hcall => by
    simp [h.called hcall] at hrest
  rw [hrest] at hsuffix hsounding
  refine ⟨(List.suffix_cons c cs).trans hsuffix, fun hcall => absurd hcall hcalled, ?_, ?_⟩
  · rcases suffix_cases hsuffix with he | he | he | he | he <;> cases he <;>
      simp_all [BuzzerStmt.exec]
  · intro hfd
    obtain ⟨hduty, hconfig⟩ := htuned hfd
    cases c <;> exact ⟨hduty, by first | exact hconfig | exact hduty⟩

theorem Rings.stmt_step (h : Rings cnt es s bs) (hrun : run sirenStep (.start cnt) es = some s)
    (hstep : sirenStep s .stmt = some t) : Rings cnt (es ++ [.stmt]) t bs := by
  have hbeeps := beeps_concat hrun hstep
  have hbefore := h.beeps
  cases hrest : s.rest with
  | nil => simp [sirenStep, hrest] at hstep
  | cons c cs =>
    simp only [sirenStep, hrest, Option.some.injEq] at hstep
    subst hstep
    refine ⟨?_, h.buzzer, h.cnt_eq, ?_, h.counted.keep (by simp) (by simp), h.unopened, h.opened,
      h.tuned.stmt hrest, ?_⟩
    · rw [atAlarm_other es rfl]
      exact h.alarm
    · rw [atAlarm_other es rfl]
      exact h.activations
    · have hsuffix := h.tuned.suffix
      rw [hrest] at hsuffix hbefore
      rw [hbeeps, countBeep, hrest]
      rcases suffix_cases hsuffix with he | he | he | he | he <;> cases he <;>
        simpa using hbefore

theorem Rings.return_step (h : Rings cnt es s bs) (hrun : run sirenStep (.start cnt) es = some s)
    (hstep : sirenStep s .buzzerReturns = some t) :
    Rings cnt (es ++ [.buzzerReturns]) t (bs ++ [.buzzerReturns]) := by
  have hbeeps := beeps_silent hrun hstep (by simp)
  rw [sirenStep] at hstep
  split_ifs at hstep with hrest
  obtain ⟨b, hb, rfl⟩ := Option.map_eq_some_iff.mp hstep
  have hbuzzer := run_concat_eq_some.mpr ⟨s.buzzer, h.buzzer, hb⟩
  have hbuzzing : s.buzzer.handler = .buzzing := by
    by_contra hne
    simp [buzzerStep, hne] at hb
  rw [buzzerStep, if_pos hbuzzing] at hb
  obtain rfl := Option.some.inj hb
  refine ⟨?_, hbuzzer, h.cnt_eq, ?_, h.counted.both (by simp) (by simp), ?_, h.opened,
    ⟨h.tuned.suffix, fun _ => hrest, h.tuned.sounding, h.tuned.tuned⟩, ?_⟩
  · rw [atAlarm_other es rfl]
    exact h.alarm
  · rw [atAlarm_other es rfl, ← h.activations, count_concat]
    rfl
  · rw [count_concat]
    exact h.unopened
  · rw [hbeeps, count_concat]
    exact h.beeps

theorem rings_run (hrun : run sirenStep (.start cnt) es = some s) : ∃ bs, Rings cnt es s bs := by
  refine run_induction (I := fun es s => ∃ bs, Rings cnt es s bs) ⟨[], rings_start cnt⟩ ?_ hrun
  rintro es e s t hs ⟨bs, h⟩ hstep
  cases e with
  | alarm e => exact h.alarm_step hs hstep
  | openBuzzer fd => exact h.openBuzzer_step hs hstep
  | activation => exact ⟨_, h.flag_step hs hstep hstep (by simp) rfl (by simp) (by simp) (by simp)⟩
  | signal => exact ⟨_, h.flag_step hs hstep hstep (by simp) rfl (by simp) (by simp) (by simp)⟩
  | clear => exact ⟨_, h.flag_step hs hstep hstep (by simp) rfl (by simp) (by simp) (by simp)⟩
  | buzzerFunc => exact ⟨_, h.buzzerFunc_step hs hstep⟩
  | stmt => exact ⟨bs, h.stmt_step hs hstep⟩
  | buzzerReturns => exact ⟨_, h.return_step hs hstep⟩

end

/-! What is heard. -/

theorem fifty_mul_length_le {gaps : List (List (UInt8 × Origin))}
    (h : ∀ g ∈ gaps, 50 ≤ g.length) : 50 * gaps.length ≤ gaps.flatten.length := by
  induction gaps with
  | nil => exact Nat.le_refl _
  | cons g gaps ih =>
    have hfirst := h g List.mem_cons_self
    have hrest := ih fun g' hg' => h g' (List.mem_cons_of_mem g hg')
    rw [List.flatten_cons, List.length_append, List.length_cons]
    omega

theorem signals_of_alarms {cnt : Int32} {as : List AlarmEvent} {a : AlarmState}
    (hrun : run alarmStep (.start cnt) as = some a) :
    50 * (alarmsOf (provenance cnt as) - 1) ≤ (provenance cnt as).gaps.flatten.length ∧
      (∀ x ∈ (provenance cnt as).gaps.flatten, x.1 = ULTRA_SIG ∧ x.2.Genuine) ∧
      ((provenance cnt as).gaps.flatten.map fun x => x.2.iteration).Nodup := by
  have hI : Inv a (provenance cnt as) :=
    history_induction (I := Inv) (inv_start cnt) (fun _ e _ _ hI he => inv_step (e := e) hI he) hrun
  refine ⟨?_, fun x hx => ?_, ?_⟩
  · have hactivated := Bool.toNat_le (provenance cnt as).activated
    have hlong := fifty_mul_length_le fun g hg => (hI.gaps g hg).1
    refine Nat.le_trans (Nat.mul_le_mul_left 50 ?_) hlong
    rw [alarmsOf]
    omega
  · obtain ⟨g, hg, hxg⟩ := List.mem_flatten.mp hx
    exact (hI.gaps g hg).2 x hxg
  · have hsub : ((provenance cnt as).gaps.flatten.map Prod.snd).Sublist
        (provenance cnt as).origins := by
      simp [Provenance.origins]
    have hlt := (hI.ordered.sublist hsub).map Origin.iteration fun _ _ h => h
    rw [List.map_map] at hlt
    exact hlt.imp fun h => Nat.ne_of_lt h

/-- The signals that the client has received between its first activation and its last. -/
def signalsHeard (cnt : Int32) (es : List SirenEvent) : List (UInt8 × Origin) :=
  (provenance cnt (atAlarm es)).gaps.flatten

/-- In every interleaving of echoes, device reads, writes, reads of the client, timer signals and
statements of the buzzer driver: the buzzer sounds only inside a call of `buzzer_func`, at the tone
of its open; if the open has succeeded, every call that has returned has sounded it once; and to
the beeps after the first there are fifty signals each, sent by as many iterations at the car, of
which each had seen six near measurements in a row. -/
theorem buzzer_sounds_for_obstacles {cnt : Int32} {es : List SirenEvent} {s : Siren}
    (hrun : run sirenStep (.start cnt) es = some s) :
    (s.dev.bzPwm.enabled = true → s.buzzer.handler = .buzzing ∧ s.dev.bzPwm.config = tone) ∧
      (s.buzzer.handler ≠ .buzzing →
        beeps cnt es = if s.fd.isSome then es.count .buzzerFunc else 0) ∧
      50 * (beeps cnt es - 1) ≤ (signalsHeard cnt es).length ∧
      (∀ x ∈ signalsHeard cnt es, x.1 = ULTRA_SIG ∧ x.2.Genuine) ∧
      ((signalsHeard cnt es).map fun x => x.2.iteration).Nodup := by
  obtain ⟨bs, h⟩ := rings_run hrun
  obtain ⟨hlong, hgenuine⟩ := signals_of_alarms h.alarm
  refine ⟨fun hon => ?_, fun hidle => ?_, ?_, hgenuine⟩
  · have hrest : s.rest ≠ [] := by
      rcases h.tuned.sounding.mp hon with he | he <;> simp [he]
    have hcall : ¬ (s.buzzer.handler ≠ .buzzing ∨ s.fd = none) := mt h.tuned.called hrest
    rw [not_or, not_not] at hcall
    exact ⟨hcall.1, (h.tuned.tuned (Option.isSome_iff_ne_none.mpr hcall.2)).2⟩
  · have hcount := h.beeps
    rwa [h.tuned.called (Or.inl hidle), h.counted.buzzerFunc] at hcount
  · have hheard := (heard_run h.buzzer).counted
    have hcount := h.beeps
    have hactivations := h.activations
    have hle : beeps cnt es ≤ bs.count .buzzerFunc := by
      split_ifs at hcount <;> omega
    refine Nat.le_trans (Nat.mul_le_mul_left 50 ?_) hlong
    omega

/-- The handler from its test to its return. -/
def beep : List SirenEvent :=
  [.signal, .clear, .buzzerFunc, .stmt, .stmt, .stmt, .stmt, .buzzerReturns]

/-- Six near echoes and fifty-one signals, with a beep after the first and after the last. -/
def beepTwice : List SirenEvent :=
  (List.replicate 6 [.alarm (.echo true ⟨0, 0⟩), .alarm (.echo false ⟨0, 580⟩)]).flatten ++
    [.alarm (.deviceOpen true), .openBuzzer (some 5)] ++
    (List.replicate 51 [.alarm .deviceRead, .alarm (.socketWrite true)]).flatten ++
    [.alarm (.clientRead 1), .activation] ++ beep ++ List.replicate 50 (.alarm (.clientRead 1)) ++
    [.activation] ++ beep

theorem buzzer_sounds_for_obstacles_beepTwice :
    beeps 49 beepTwice = 2 ∧ 50 ≤ (signalsHeard 49 beepTwice).length := by
  have hend : (run sirenStep (.start 49) beepTwice).map (fun s => (s.buzzer.handler, s.fd)) =
      some (.idle, some 5) := by decide +kernel
  obtain ⟨s, hs, hpair⟩ := Option.map_eq_some_iff.mp hend
  obtain ⟨hidle, hfd⟩ := Prod.mk.inj hpair
  obtain ⟨_, hbeeps, hsignals, _⟩ := buzzer_sounds_for_obstacles hs
  have htwo : beeps 49 beepTwice = 2 := by
    rw [hbeeps (by simp [hidle]), hfd]
    decide
  rw [htwo] at hsignals
  exact ⟨htwo, hsignals⟩

end MdsBlackbox.Link.BuzzerLink
