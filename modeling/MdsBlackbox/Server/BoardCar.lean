/- module: MdsBlackbox/Server/BoardCar
   source: SERVER/rc_server/rc_server.c, SERVER/rc_server/pwm_app.c, SERVER/rc_server/pwm_dev.c
   digest: The car that the board keeps, one system call at a time and over all processes. -/

import MdsBlackbox.Server.BoardSteps
import MdsBlackbox.Server.CarRefinement
import MdsBlackbox.Server.Restarts

set_option autoImplicit false
set_option relaxedAutoImplicit false

namespace MdsBlackbox.Server.BoardCar

open MdsBlackbox.Lib.Transition
open MdsBlackbox.Server.PwmDev
open MdsBlackbox.Server.PwmApp
open MdsBlackbox.Server.CommandLoop
open MdsBlackbox.Server.CarRefinement
open MdsBlackbox.Server.Led
open MdsBlackbox.Server.LedFailure
open MdsBlackbox.Server.BoardSteps
open MdsBlackbox.Server.Restarts

/-! What becomes of the commands. -/

/-- The commands that were carried out, those that went with their process, and the one that the
main thread is carrying out. -/
structure Orders where
  done : List UInt8
  lost : List UInt8
  current : Option UInt8
  deriving DecidableEq

def Orders.start : Orders := ⟨[], [], none⟩

def Orders.read (o : Orders) : ReadResult → Orders
  | .data b => if dispatch b = none then o else { o with current := some b }
  | .closed | .error => o

/-- A command has been carried out with the last of its ioctls. -/
def Orders.ioctl (o : Orders) : MainThread → Orders
  | .driving cs =>
    if cs.length = 1 then { o with done := o.done ++ o.current.toList, current := none } else o
  | .reading | .opening _ | .creating | .exiting _ => o

def Orders.step (o : Orders) (m : Motion) : MotionEvent → Orders
  | .read r => o.read r
  | .pwmIoctl => o.ioctl m.main
  | .openPwm _ | .closePwm | .create | .exitMain | .openLed _ | .exitLed _ | .load _ | .ledIoctl _
  | .timer => o

/-- The next process knows nothing of the command of the last one. -/
def boardOrder (s : Board) : BoardEvent → Orders → Orders
  | .motion e, o => o.step s.motion e
  | .respawn, o => { o with lost := o.lost ++ o.current.toList, current := none }
  | _, o => o

def orders (hasLed : Bool) (pins : Pins) (l : LedDev) (es : List BoardEvent) : Orders :=
  history (boardStep hasLed) boardOrder (.boot pins l) .start es

def command : BoardEvent → Option UInt8
  | .motion (.read (.data b)) => if dispatch b = none then none else some b
  | _ => none

/-- The command bytes that any of the processes has read. -/
def commandsRead (es : List BoardEvent) : List UInt8 := es.filterMap command

def car (bs : List UInt8) : Car := bs.foldl act parked

/-! One process. -/

/-- Only the last of the ioctls changes a pin. -/
def LastOnly (cs : List MotorCall) : Prop := ∀ c ∈ cs.dropLast, ∀ p, ioctlPins p c.1 = p

theorem lastOnly_pulsesThen (cmd : UInt32) : LastOnly (pulsesThen cmd) := by
  intro c hc p
  rcases List.mem_pair.mp hc with rfl | rfl <;> rfl

theorem moterIoctls_dispatch {b : UInt8} {cmd k : Int} (h : dispatch b = some (cmd, k)) :
    moterIoctls k ≠ [] ∧ LastOnly (moterIoctls k) := by
  have hpulses : ∀ c, pulsesThen c ≠ [] ∧ LastOnly (pulsesThen c) := fun c =>
    ⟨List.cons_ne_nil _ _, lastOnly_pulsesThen c⟩
  unfold dispatch at h
  split_ifs at h <;> obtain ⟨rfl, rfl⟩ := Prod.mk.inj (Option.some.inj h)
  · exact hpulses FRONT
  · exact hpulses BACK
  · exact hpulses LEFT
  · exact hpulses RIGHT
  · exact ⟨List.cons_ne_nil _ _, fun c hc => by cases hc⟩

/-- How far the main thread is with the command that it carries out. -/
def Carries (m : Motion) (o : Orders) : Prop :=
  match m.main with
  | .opening k => ∃ b cmd, o.current = some b ∧ dispatch b = some (cmd, k)
  | .driving (c :: cs) => ∃ b, o.current = some b ∧ LastOnly (c :: cs) ∧
      (c :: cs).foldl (fun p c => ioctlPins p c.1) m.server.dev.pins = encode (act (car o.done) b)
  | .reading | .creating | .driving [] => o.current = none
  | .exiting _ => True

theorem car_concat (bs : List UInt8) (b : UInt8) : car (bs ++ [b]) = act (car bs) b :=
  List.foldl_append

theorem process_car {fails : Nat → Bool} {m u : Motion} {e : MotionEvent} {o : Orders}
    (hpins : m.server.dev.pins = encode (car o.done)) (hcarries : Carries m o)
    (hstep : ProcessStep fails m e u) :
    u.server.dev.pins = encode (car (o.step m e).done) ∧
      (u.server.ended = none → Carries u (o.step m e)) := by
  unfold Carries at hcarries
  cases hstep with
  | readFailed r hmain hr =>
    have horder : o.step m (.read r) = o := by
      cases r with
      | data b => exact absurd rfl (hr b)
      | _ => rfl
    rw [horder]
    exact ⟨hpins, fun _ => trivial⟩
  | readOther b hmain hd =>
    simp only [hmain] at hcarries
    simp only [Orders.step, Orders.read, hd, if_true]
    exact ⟨hpins, fun _ => hcarries⟩
  | readCommand b cmd k hmain hd =>
    have hne : dispatch b ≠ none := by simp [hd]
    simp only [Orders.step, Orders.read, hne, if_false]
    exact ⟨hpins, fun _ => ⟨b, cmd, rfl, hd⟩⟩
  | openGranted r k hmain _ =>
    simp only [hmain] at hcarries
    obtain ⟨b, cmd, hcurrent, hd⟩ := hcarries
    refine ⟨(openPwm_pins _ _).trans hpins, fun _ => ?_⟩
    obtain ⟨hsome, hlast⟩ := moterIoctls_dispatch hd
    have hcar : (moterIoctls k).foldl (fun p c => ioctlPins p c.1) (encode (car o.done)) =
        encode (act (car o.done) b) := moterPins_encode _ hd
    cases hcalls : moterIoctls k with
    | nil => exact absurd hcalls hsome
    | cons c cs =>
      rw [hcalls] at hlast hcar
      refine ⟨b, hcurrent, hlast, ?_⟩
      rw [openPwm_pins, hpins]
      exact hcar
  | openRefused r k _ _ =>
    exact ⟨(openPwm_pins _ _).trans hpins, fun _ => trivial⟩
  | pwmIoctl c cs hmain =>
    simp only [hmain] at hcarries
    obtain ⟨b, hcurrent, hlast, hcar⟩ := hcarries
    cases cs with
    | nil =>
      simp only [Orders.step, Orders.ioctl, hmain, hcurrent, List.length_singleton, if_true,
        Option.toList_some, car_concat, ioctl_pins]
      exact ⟨hcar, fun _ => rfl⟩
    | cons c' cs =>
      have hsilent : ioctlPins m.server.dev.pins c.1 = m.server.dev.pins :=
        hlast c (by simp) _
      have hmore : ¬ (c :: c' :: cs).length = 1 := by simp
      simp only [Orders.step, Orders.ioctl, hmain, ioctl_pins, hsilent, hmore, if_false]
      refine ⟨hpins, fun _ => ⟨b, hcurrent, ?_, ?_⟩⟩
      · intro d hd
        exact hlast d (by simp [List.dropLast_cons_of_ne_nil, hd])
      · simpa only [List.foldl_cons, hsilent, ioctl_pins] using hcar
  | closePwm hmain =>
    simp only [hmain] at hcarries
    exact ⟨(pwmRelease_pins _).trans hpins, fun _ => hcarries⟩
  | create hmain =>
    simp only [hmain] at hcarries
    exact ⟨hpins, fun _ => hcarries⟩
  | exitMain why _ =>
    exact ⟨(exit_pins _ _).trans hpins, fun hlive => by simp [Process.exit] at hlive⟩
  | exitLed i _ =>
    exact ⟨(exit_pins _ _).trans hpins, fun hlive => by simp [Process.exit] at hlive⟩
  | _ => exact ⟨hpins, fun _ => hcarries⟩

theorem ordersStep_cases {fails : Nat → Bool} {m u : Motion} {e : MotionEvent} {o : Orders}
    (hcarries : Carries m o) (hstep : ProcessStep fails m e u) :
    (∃ b, command (.motion e) = some b ∧ o.current = none ∧
      o.step m e = { o with current := some b }) ∨
    (command (.motion e) = none ∧ (o.step m e = o ∨
      o.step m e = { o with done := o.done ++ o.current.toList, current := none })) := by
  unfold Carries at hcarries
  cases hstep with
  | readFailed r hmain hr =>
    cases r with
    | data b => exact absurd rfl (hr b)
    | _ => exact Or.inr ⟨rfl, Or.inl rfl⟩
  | readOther b hmain hd =>
    exact Or.inr ⟨by simp [command, hd], Or.inl (by simp [Orders.step, Orders.read, hd])⟩
  | readCommand b cmd k hmain hd =>
    simp only [hmain] at hcarries
    exact Or.inl ⟨b, by simp [command, hd], hcarries, by simp [Orders.step, Orders.read, hd]⟩
  | pwmIoctl c cs hmain =>
    cases cs with
    | nil => exact Or.inr ⟨rfl, Or.inr (by simp [Orders.step, Orders.ioctl, hmain])⟩
    | cons c' cs => exact Or.inr ⟨rfl, Or.inl (by simp [Orders.step, Orders.ioctl, hmain])⟩
  | _ => exact Or.inr ⟨rfl, Or.inl rfl⟩

theorem ordersStep_lost (m : Motion) (e : MotionEvent) (o : Orders) :
    (o.step m e).lost = o.lost := by
  cases e with
  | read r =>
    cases r with
    | data b => simp only [Orders.step, Orders.read]; split_ifs <;> rfl
    | _ => rfl
  | pwmIoctl =>
    cases hmain : m.main with
    | driving cs => simp only [Orders.step, Orders.ioctl, hmain]; split_ifs <;> rfl
    | _ => simp only [Orders.step, Orders.ioctl, hmain]
  | _ => rfl

/-- Every command that was read is carried out, lost, or the current one, and those carried out are
in the order of the reads. -/
structure Accounted (read : List UInt8) (o : Orders) : Prop where
  all : (o.done ++ o.lost ++ o.current.toList).Perm read
  inOrder : (o.done ++ o.current.toList).Sublist read

theorem Accounted.process {fails : Nat → Bool} {m u : Motion} {e : MotionEvent} {o : Orders}
    {read : List UInt8} (h : Accounted read o) (hcarries : Carries m o)
    (hstep : ProcessStep fails m e u) :
    Accounted (read ++ (command (.motion e)).toList) (o.step m e) := by
  obtain ⟨hall, horder⟩ := h
  rcases ordersStep_cases hcarries hstep with ⟨b, hb, hfree, ho⟩ | ⟨hb, ho | ho⟩
  · rw [hfree, Option.toList_none, List.append_nil] at hall horder
    rw [hb, ho]
    exact ⟨hall.append_right _, horder.append_right _⟩
  · rw [hb, ho, Option.toList_none, List.append_nil]
    exact ⟨hall, horder⟩
  · rw [hb, ho, Option.toList_none, List.append_nil]
    refine ⟨?_, by simpa using horder⟩
    refine List.Perm.trans ?_ hall
    simp only [Option.toList_none, List.append_nil, List.append_assoc]
    exact List.perm_append_comm.append_left _

/-! The board. -/

structure Kept (es : List BoardEvent) (s : Board) (o : Orders) : Prop where
  pins : s.motion.server.dev.pins = encode (car o.done)
  serving : s.stage = .serving → Carries s.motion o
  starting : s.stage = .starting → o.current = none
  accounted : Accounted (commandsRead es) o
  lost : o.lost.length ≤ es.count .respawn

theorem commandsRead_concat (es : List BoardEvent) (e : BoardEvent) :
    commandsRead (es ++ [e]) = commandsRead es ++ (command e).toList := by
  cases h : command e <;> simp [commandsRead, List.filterMap_append, h]

theorem kept_step {hasLed : Bool} {es : List BoardEvent} {s t : Board} {e : BoardEvent}
    {o : Orders} (h : Kept es s o) (hstaged : Staged s) (hstep : boardStep hasLed s e = some t) :
    Kept (es ++ [e]) t (boardOrder s e o) := by
  obtain ⟨hpins, hserving, hstarting, haccounted, hlost⟩ := h
  have hcount : o.lost.length ≤ (es ++ [e]).count .respawn :=
    Nat.le_trans hlost (by rw [List.count_append]; exact Nat.le_add_right _ _)
  have hsilent : command e = none → Accounted (commandsRead (es ++ [e])) o := fun he => by
    rw [commandsRead_concat, he, Option.toList_none, List.append_nil]
    exact haccounted
  cases boardStep_inv hstep with
  | connect hstage =>
    refine ⟨hpins, fun _ => ?_, fun hs => (by cases hs), hsilent rfl, hcount⟩
    have hmain : s.motion.main = .reading := congrArg Motion.main (hstaged.fresh hstage)
    show Carries s.motion o
    simp only [Carries, hmain]
    exact hstarting hstage
  | refuse r hstage _ =>
    exact ⟨hpins, fun hs => (by cases hs), fun hs => (by cases hs), hsilent rfl, hcount⟩
  | timer _ =>
    exact ⟨hpins, hserving, hstarting, hsilent rfl, hcount⟩
  | motion e m hstage hm hlive =>
    obtain ⟨hnext, hcarries⟩ := process_car hpins (hserving hstage) hm
    refine ⟨hnext, fun _ => hcarries hlive, fun hs => ?_, ?_, ?_⟩
    · cases hstage.symm.trans hs
    · rw [commandsRead_concat]
      exact haccounted.process (hserving hstage) hm
    · simpa only [boardOrder, ordersStep_lost] using hcount
  | exit e m hstage hm hended =>
    obtain ⟨hnext, _⟩ := process_car hpins (hserving hstage) hm
    refine ⟨hnext, fun hs => (by cases hs), fun hs => (by cases hs), ?_, ?_⟩
    · rw [commandsRead_concat]
      exact haccounted.process (hserving hstage) hm
    · simpa only [boardOrder, ordersStep_lost] using hcount
  | openFault _ _ u hstage _ _ _ =>
    exact ⟨hpins, hserving, hstarting, hsilent rfl, hcount⟩
  | openSensor _ _ u _ _ _ _ _ => exact ⟨hpins, hserving, hstarting, hsilent rfl, hcount⟩
  | openFailed _ _ u _ _ _ _ _ => exact ⟨hpins, hserving, hstarting, hsilent rfl, hcount⟩
  | exitSensor _ _ =>
    refine ⟨?_, fun hs => (by cases hs), fun hs => (by cases hs), hsilent rfl, hcount⟩
    exact (release_iterate_pins _ _).trans hpins
  | brokenPipe _ _ =>
    refine ⟨?_, fun hs => (by cases hs), fun hs => (by cases hs), hsilent rfl, hcount⟩
    exact (release_iterate_pins _ _).trans hpins
  | expire b u _ => exact ⟨hpins, hserving, hstarting, hsilent rfl, hcount⟩
  | respawn hstage =>
    obtain ⟨hall, hinOrder⟩ := hsilent rfl
    refine ⟨hpins, fun hs => (by cases hs), fun _ => rfl, ⟨?_, ?_⟩, ?_⟩
    · simpa only [boardOrder, Option.toList_none, List.append_nil, List.append_assoc] using hall
    · simp only [boardOrder, Option.toList_none, List.append_nil]
      exact (List.sublist_append_left _ _).trans hinOrder
    · have hone : o.current.toList.length ≤ 1 := by cases o.current <;> simp
      simp only [boardOrder, List.length_append, List.count_append, List.count_singleton_self]
      omega

theorem kept_run {hasLed : Bool} {pins : Pins} {l : LedDev} {es : List BoardEvent} {s : Board}
    (hrun : run (boardStep hasLed) (.boot pins l) es = some s) :
    Kept es s (orders hasLed pins l es) := by
  refine run_induction (I := fun es s => Kept es s (orders hasLed pins l es)) ?_ ?_ hrun
  · exact ⟨pwmInit_pins pins, fun hs => (by cases hs), fun _ => rfl,
      ⟨List.Perm.refl _, List.Sublist.refl _⟩, Nat.le_refl _⟩
  · intro es e t u ht ih hu
    rw [orders, history_concat ht hu]
    exact kept_step ih (staged_run ht) hu

/-- In every interleaving of the threads, the timers and the restarts, system call by system call:
the pins always spell the car that the commands carried out so far make of a parked one. These are
in the order in which they were read, each process takes at most one with it when it ends, and no
other is ever missing, apart from the one that is being carried out. -/
theorem board_refines_car {hasLed : Bool} {pins : Pins} {l : LedDev} {es : List BoardEvent}
    {s : Board} (hrun : run (boardStep hasLed) (.boot pins l) es = some s) :
    s.motion.server.dev.pins = encode ((orders hasLed pins l es).done.foldl act parked) ∧
      (orders hasLed pins l es).done.Sublist (commandsRead es) ∧
      ((orders hasLed pins l es).done ++ (orders hasLed pins l es).lost ++
        (orders hasLed pins l es).current.toList).Perm (commandsRead es) ∧
      (orders hasLed pins l es).lost.length ≤ es.count .respawn ∧
      (s.stage = .serving → s.motion.main = .reading →
        (orders hasLed pins l es).current = none) := by
  have hkept := kept_run hrun
  refine ⟨hkept.pins, ?_, hkept.accounted.all, hkept.lost, fun hstage hmain => ?_⟩
  · exact (List.sublist_append_left _ _).trans hkept.accounted.inOrder
  · have hcarries := hkept.serving hstage
    simpa only [Carries, hmain] using hcarries

/-- `Right` is carried out, `Up` is lost: the thread of the first command, which finds no driver of
the indicators, ends the process before the last ioctl of the second one. -/
def secondLost : List BoardEvent :=
  [.startUp .connected, .openSensor true true, .motion (.read (.data '3'.toUInt8)),
    .motion (.openPwm .granted), .motion .pwmIoctl, .motion .pwmIoctl, .motion .pwmIoctl,
    .motion .closePwm, .motion .create, .motion (.openLed 0),
    .motion (.read (.data '1'.toUInt8)), .motion (.openPwm .granted), .motion .pwmIoctl,
    .motion (.exitLed 0), .respawn]

theorem board_refines_car_secondLost :
    ∃ s, run (boardStep false) (.boot Pins.low ledInit) secondLost = some s ∧
      s.motion.server.dev.pins = encode ⟨.stopped, .sideA⟩ := by
  have hrun : ∃ s, run (boardStep false) (.boot Pins.low ledInit) secondLost = some s := ⟨_, rfl⟩
  obtain ⟨s, hs⟩ := hrun
  exact ⟨s, hs, (board_refines_car hs).1.trans (by decide)⟩

end MdsBlackbox.Server.BoardCar
