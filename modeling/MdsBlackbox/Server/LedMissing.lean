/- module: MdsBlackbox/Server/LedMissing
   source: SERVER/rc_server/rc_server.c, SERVER/rc_server/th_led.c, SERVER/nfsroot/etc/profile
   digest: A board whose start-up script does not insert the driver of the indicators. -/

import MdsBlackbox.Lib.Fairness
import MdsBlackbox.Server.Restarts

set_option autoImplicit false
set_option relaxedAutoImplicit false

namespace MdsBlackbox.Server.LedMissing

open MdsBlackbox.Lib.Transition
open MdsBlackbox.Lib.Fairness
open MdsBlackbox.Server.PwmDev
open MdsBlackbox.Server.PwmApp
open MdsBlackbox.Server.CommandLoop
open MdsBlackbox.Server.Led
open MdsBlackbox.Server.LedThreads
open MdsBlackbox.Server.LedFailure
open MdsBlackbox.Server.BoardSteps
open MdsBlackbox.Server.Restarts

inductive Actor
  | main
  | led (i : Nat)
  deriving DecidableEq

/-- The thread whose step this is, a read apart: it waits for a client, who need not write. -/
def actor : BoardEvent → Option Actor
  | .motion (.openPwm _) | .motion .pwmIoctl | .motion .closePwm | .motion .create
  | .motion .exitMain => some .main
  | .motion (.openLed i) | .motion (.exitLed i) | .motion (.load i)
  | .motion (.ledIoctl i) => some (.led i)
  | _ => none

def Of (a : Actor) (e : BoardEvent) : Prop := actor e = some a

/-- Every LED thread is before its open or behind one that failed, and the indicators are as they
were at first. -/
def Unlit (l : LedDev) (m : Motion) : Prop :=
  m.led = l ∧ ∀ t ∈ m.threads, t = .created ∨ t = .failed

theorem unlit_step {l : LedDev} {m u : Motion} {e : MotionEvent} (h : Unlit l m)
    (hstep : ProcessStep (ledFails false) m e u) : Unlit l u := by
  obtain ⟨hled, hthreads⟩ := h
  have hother : ∀ {i : Nat} {t : LedThread}, m.threads[i]? = some t → t = .created ∨ t = .failed :=
    fun hi => hthreads _ (List.mem_of_getElem? hi)
  cases hstep with
  | create hmain =>
    refine ⟨hled, ?_⟩
    intro t ht
    rcases List.mem_append.mp ht with ht | ht
    · exact hthreads t ht
    · exact Or.inl (List.mem_singleton.mp ht)
  | ledMissing i hi _ =>
    refine ⟨hled, ?_⟩
    intro t ht
    rcases List.mem_or_eq_of_mem_set ht with ht | ht
    · exact hthreads t ht
    · exact Or.inr ht
  | openLed i _ hf => cases hf
  | load i hi => rcases hother hi with ho | ho <;> cases ho
  | ledIoctl i v hi => rcases hother hi with ho | ho <;> cases ho
  | _ => exact ⟨hled, hthreads⟩

theorem unlit_board {l : LedDev} {s t : Board} {e : BoardEvent} (h : Unlit l s.motion)
    (hstep : boardStep false s e = some t) : Unlit l t.motion := by
  cases boardStep_inv hstep with
  | timer hhas => cases hhas
  | motion e m _ hm _ => exact unlit_step h hm
  | exit e m _ hm _ => exact unlit_step h hm
  | respawn _ => exact ⟨h.1, by simp [Motion.start]⟩
  | _ => exact h

/-! What is left of a process. -/

/-- How many steps the main thread and then its first LED thread take at most. -/
def mainLeft : MainThread → Nat
  | .reading => 0
  | .exiting _ => 1
  | .creating => 3
  | .driving cs => cs.length + 4
  | .opening k => (moterIoctls k).length + 5

def ledLeft : LedThread → Nat
  | .created => 2
  | .failed => 1
  | .opened | .loaded _ | .returned => 0

/-- Once there is a LED thread, the first one ends the process, whatever the others do. -/
def left (m : Motion) : Nat :=
  match m.threads with
  | [] => mainLeft m.main
  | t :: _ => ledLeft t

def helper (m : Motion) : Actor := if m.threads = [] then .main else .led 0

/-- The process has read something. -/
def Begun (m : Motion) : Prop := m.main ≠ .reading ∨ m.threads ≠ []

/-- The step has brought the end nearer, or the thread that helps has not moved. -/
def Nearer (m : Motion) (e : BoardEvent) (u : Motion) : Prop :=
  left u < left m ∨ left u = left m ∧ helper u = helper m ∧ ¬ Of (helper m) e

theorem first_kept {m u : Motion} {e : MotionEvent} {t : LedThread} {ts rest : List LedThread}
    (hm : m.threads = t :: ts) (hu : u.threads = t :: rest)
    (he : actor (.motion e) ≠ some (.led 0)) : Begun u ∧ Nearer m (.motion e) u := by
  refine ⟨Or.inr (by simp [hu]), Or.inr ⟨by simp [left, hm, hu], by simp [helper, hm, hu], ?_⟩⟩
  simpa [Of, helper, hm] using he

theorem main_moves {m u : Motion} {e : MotionEvent} (hthreads : u.threads = m.threads)
    (he : actor (.motion e) ≠ some (.led 0))
    (hmain : m.threads = [] → u.main ≠ .reading ∧ mainLeft u.main < mainLeft m.main) :
    Begun u ∧ Nearer m (.motion e) u := by
  cases hts : m.threads with
  | nil =>
    obtain ⟨hne, hless⟩ := hmain hts
    exact ⟨Or.inl hne, Or.inl (by simpa [left, hthreads, hts] using hless)⟩
  | cons t ts => exact first_kept hts (hthreads.trans hts) he

theorem process_progress {l : LedDev} {m u : Motion} {e : MotionEvent} (h : Begun m)
    (hunlit : Unlit l m) (hstep : ProcessStep (ledFails false) m e u)
    (hlive : u.server.ended = none) : Begun u ∧ Nearer m (.motion e) u := by
  have hother : ∀ {i : Nat} {t : LedThread}, m.threads[i]? = some t → t = .created ∨ t = .failed :=
    fun hi => hunlit.2 _ (List.mem_of_getElem? hi)
  -- a process that has begun reads again beside its first LED thread
  have hread : m.main = .reading → m.threads ≠ [] := fun hmain => h.resolve_left (absurd hmain)
  cases hstep with
  | readFailed r hmain _ =>
    exact main_moves rfl (by simp [actor]) fun hts => absurd hts (hread hmain)
  | readOther b hmain _ =>
    exact main_moves rfl (by simp [actor]) fun hts => absurd hts (hread hmain)
  | readCommand b cmd k hmain _ =>
    exact main_moves rfl (by simp [actor]) fun hts => absurd hts (hread hmain)
  | openGranted o k hmain _ =>
    exact main_moves rfl (by simp [actor]) fun _ => by simp [hmain, mainLeft]
  | openRefused o k hmain _ =>
    exact main_moves rfl (by simp [actor]) fun _ => by simp [hmain, mainLeft]
  | pwmIoctl c cs hmain =>
    exact main_moves rfl (by simp [actor]) fun _ => by simp [hmain, mainLeft]
  | closePwm hmain => exact main_moves rfl (by simp [actor]) fun _ => by simp [hmain, mainLeft]
  | create hmain =>
    cases hts : m.threads with
    | nil => exact ⟨Or.inr (by simp), Or.inl (by simp [left, hts, hmain, mainLeft, ledLeft])⟩
    | cons t ts => exact first_kept hts (List.cons_append ..) (by simp [actor])
  | exitMain why _ => simp [Process.exit] at hlive
  | exitLed i _ => simp [Process.exit] at hlive
  | ledMissing i hi _ =>
    cases hts : m.threads with
    | nil => simp [hts] at hi
    | cons t ts =>
      cases i with
      | zero =>
        obtain rfl : t = .created := by simpa [hts] using hi
        exact ⟨Or.inr (by simp), Or.inl (by simp [left, hts, ledLeft])⟩
      | succ i => exact first_kept hts (List.set_cons_succ ..) (by simp [actor])
  | openLed i _ hf => cases hf
  | load i hi => rcases hother hi with ho | ho <;> cases ho
  | ledIoctl i v hi => rcases hother hi with ho | ho <;> cases ho

/-! What is left of a session. -/

/-- The client has written, or is gone, and the process still lives. -/
structure Committed (l : LedDev) (s : Board) : Prop where
  staged : Staged s
  unlit : Unlit l s.motion
  serving : s.stage = .serving
  begun : Begun s.motion

theorem committed_step {l : LedDev} {s t : Board} {e : BoardEvent} (h : Committed l s)
    (hstep : boardStep false s e = some t) :
    t.stage = .gone ∨ Committed l t ∧ Nearer s.motion e t.motion := by
  have hstaged := staged_step h.staged hstep
  have hunlit := unlit_board h.unlit hstep
  have hserving := h.serving
  cases boardStep_inv hstep with
  | connect hstage => simp [hserving] at hstage
  | refuse r hstage _ => simp [hserving] at hstage
  | respawn hstage => simp [hserving] at hstage
  | timer hhas => cases hhas
  | motion e m _ hm hlive =>
    obtain ⟨hbegun, hnearer⟩ := process_progress h.begun h.unlit hm hlive
    exact Or.inr ⟨⟨hstaged, hunlit, hserving, hbegun⟩, hnearer⟩
  | exit e m _ _ _ => exact Or.inl rfl
  | exitSensor _ _ => exact Or.inl rfl
  | brokenPipe _ _ => exact Or.inl rfl
  | _ =>
    refine Or.inr ⟨⟨hstaged, hunlit, hserving, h.begun⟩, Or.inr ⟨rfl, rfl, ?_⟩⟩
    simp [Of, actor]

theorem enabled_of_process {s : Board} {a : Actor} (e : MotionEvent) (hserving : s.stage = .serving)
    (hlive : s.motion.server.ended = none) (ha : Of a (.motion e))
    (he : (processStep (ledFails false) s.motion e).isSome) :
    Enabled (boardStep false) (Of a) s := by
  obtain ⟨m, hm⟩ := Option.isSome_iff_exists.mp he
  refine ⟨.motion e, ha, ?_⟩
  cases e with
  | timer => cases hm
  | _ => simp [boardStep, hserving, motionEvent, motionStep, hlive, hm]

theorem committed_enabled {l : LedDev} {s : Board} (h : Committed l s) :
    Enabled (boardStep false) (Of (helper s.motion)) s := by
  have hlive := h.staged.live h.serving
  cases hts : s.motion.threads with
  | nil =>
    rw [helper, if_pos hts]
    cases hm : s.motion.main with
    | reading => exact absurd hm (h.begun.resolve_right (by simp [hts]))
    | opening k =>
      have hopen := openPwm_granted s.motion.server.dev
      exact enabled_of_process (.openPwm .granted) h.serving hlive rfl
        (by simp [processStep, hm, hopen])
    | driving cs =>
      cases cs with
      | nil => exact enabled_of_process .closePwm h.serving hlive rfl (by simp [processStep, hm])
      | cons c cs =>
        exact enabled_of_process .pwmIoctl h.serving hlive rfl (by simp [processStep, hm])
    | creating => exact enabled_of_process .create h.serving hlive rfl (by simp [processStep, hm])
    | exiting why =>
      exact enabled_of_process .exitMain h.serving hlive rfl (by simp [processStep, hm])
  | cons t ts =>
    rw [helper, if_neg (by simp [hts])]
    rcases h.unlit.2 t (by simp [hts]) with rfl | rfl
    · exact enabled_of_process (.openLed 0) h.serving hlive rfl (by simp [processStep, hts])
    · exact enabled_of_process (.exitLed 0) h.serving hlive rfl (by simp [processStep, hts])

theorem committed_kept {l : LedDev} (s : Board) (e : BoardEvent) (t : Board) (h : Committed l s)
    (hstep : boardStep false s e = some t) : t.stage = .gone ∨ Committed l t ∧
      (left t.motion < left s.motion ∨ left t.motion = left s.motion ∧
        helper t.motion = helper s.motion) :=
  (committed_step h hstep).imp_right fun ⟨ht, hnearer⟩ =>
    ⟨ht, hnearer.imp_right fun ⟨hsame, hhelper, _⟩ => ⟨hsame, hhelper⟩⟩

theorem committed_helps {l : LedDev} (s : Board) (e : BoardEvent) (t : Board) (h : Committed l s)
    (hstep : boardStep false s e = some t) (he : Of (helper s.motion) e) :
    t.stage = .gone ∨ Committed l t ∧ left t.motion < left s.motion :=
  (committed_step h hstep).imp_right fun ⟨ht, hnearer⟩ =>
    ⟨ht, hnearer.resolve_right fun ⟨_, _, hnot⟩ => hnot he⟩

/-- From a read of the command loop to the end of the process. -/
def sessionEnd (l : LedDev) :
    Progress (boardStep false) Of (Committed l) (fun s => s.stage = .gone) where
  measure s := left s.motion
  helpful s := helper s.motion
  enabled _ h := committed_enabled h
  kept := committed_kept
  helps := committed_helps

theorem begun_of_read {m u : Motion} {r : ReadResult}
    (hstep : ProcessStep (ledFails false) m (.read r) u) :
    Begun u ∧ u.server.ended = m.server.ended := by
  cases hstep with
  | _ => exact ⟨Or.inl (by simp), rfl⟩

theorem committed_of_read {l : LedDev} {s t : Board} {r : ReadResult} (hstaged : Staged s)
    (hunlit : Unlit l s.motion) (hstep : boardStep false s (.motion (.read r)) = some t) :
    s.stage = .serving ∧ Committed l t := by
  have hstaged' := staged_step hstaged hstep
  have hunlit' := unlit_board hunlit hstep
  cases boardStep_inv hstep with
  | motion _ m hstage hm _ => exact ⟨hstage, hstaged', hunlit', hstage, (begun_of_read hm).1⟩
  | exit _ m hstage hm hended =>
    exact absurd ((begun_of_read hm).2.trans (hstaged.live hstage)) hended

/-- Without the driver of the indicators, which the start-up script of the board does not insert,
no LED thread gets past its open and the indicators never change; and where no thread is kept from
running for ever, every process whose command loop has read anything ends: its first LED thread
sees to that, whatever the client does. -/
theorem session_ends {pins : Pins} {l : LedDev} {b : Behaviour (boardStep false)}
    (hstart : b.state 0 = .boot pins l) (hfair : ∀ a, b.WeaklyFair (Of a)) :
    (∀ n, Unlit l (b.state n).motion) ∧
      ∀ n r, b.event n = some (.motion (.read r)) → ∃ m, n < m ∧ (b.state m).stage = .gone ∧
        ∀ k, n ≤ k → k < m → (b.state k).stage = .serving := by
  have hinv : ∀ n, Staged (b.state n) ∧ Unlit l (b.state n).motion := by
    apply b.invariant (I := fun s => Staged s ∧ Unlit l s.motion)
    · rw [hstart]
      exact ⟨staged_boot pins l, rfl, by simp [Board.boot, Motion.start]⟩
    · intro s e t h he
      exact ⟨staged_step h.1 he, unlit_board h.2 he⟩
  refine ⟨fun n => (hinv n).2, ?_⟩
  intro n r he
  obtain ⟨hserving, hcommitted⟩ := committed_of_read (hinv n).1 (hinv n).2 (b.taken n _ he)
  obtain ⟨m, hm, hgone, hbefore⟩ := (sessionEnd l).eventually hfair hcommitted
  refine ⟨m, hm, hgone, ?_⟩
  intro k hnk hkm
  rcases Nat.eq_or_lt_of_le hnk with rfl | hlt
  · exact hserving
  · exact (hbefore k hlt hkm).serving

theorem not_enabled_of_gone {s : Board} (hgone : s.stage = .gone) (a : Actor) :
    ¬ Enabled (boardStep false) (Of a) s := by
  rintro ⟨e, he, hsome⟩
  cases e with
  | motion e => cases e <;> simp [boardStep, hgone] at hsome
  | _ => simp [Of, actor] at he

/-- Front, and the LED thread that ends the process. -/
def frontWithoutLed : List BoardEvent :=
  [.startUp .connected, .motion (.read (.data '1'.toUInt8)), .motion (.openPwm .granted),
    .motion .pwmIoctl, .motion .pwmIoctl, .motion .pwmIoctl, .motion .closePwm, .motion .create,
    .motion (.openLed 0), .motion (.exitLed 0)]

theorem session_ends_front : ∃ b : Behaviour (boardStep false),
    b.event 1 = some (.motion (.read (.data '1'.toUInt8))) ∧
      ∃ m, 1 < m ∧ (b.state m).stage = .gone := by
  have hrun : ∃ s, run (boardStep false) (.boot Pins.low ledInit) frontWithoutLed = some s ∧
      s.stage = .gone := ⟨_, rfl, rfl⟩
  obtain ⟨s, hs, hgone⟩ := hrun
  have hfair : ∀ a, (Behaviour.ofRun hs).WeaklyFair (Of a) := by
    intro a n henabled
    have hlate := henabled (n + frontWithoutLed.length) (Nat.le_add_right _ _)
    rw [ofRun_state hs (Nat.le_add_left _ _)] at hlate
    exact absurd hlate (not_enabled_of_gone hgone a)
  obtain ⟨m, hm, hend, _⟩ :=
    (session_ends (b := Behaviour.ofRun hs) rfl hfair).2 1 (.data '1'.toUInt8) rfl
  exact ⟨Behaviour.ofRun hs, rfl, m, hm, hend⟩

end MdsBlackbox.Server.LedMissing
