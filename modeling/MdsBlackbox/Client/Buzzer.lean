/- module: MdsBlackbox/Client/Buzzer
   source: CLIENT/rc_client/rc_client.c, CLIENT/rc_client/th_buzzer.c
   digest: The alarm flag between the reading thread and the handler of the buzzer timer. -/

import MdsBlackbox.Client.TcpRead
import MdsBlackbox.Lib.Transition

set_option autoImplicit false
set_option relaxedAutoImplicit false

namespace MdsBlackbox.Client.Buzzer

open MdsBlackbox.Lib.Transition
open MdsBlackbox.Client.TcpRead

/-- `buzzer_timer_func`: not running, after its test, after `buzzer_onoff = 0`, or in the
`buzzer_func` that it has called. -/
inductive Handler
  | idle
  | tested
  | cleared
  | buzzing
  deriving DecidableEq

/-- `tcp_read_thread`: before its open of the buzzer, before a read, or in the branch
`cnt >= 50` before `buzzer_onoff = 1`. -/
inductive ReadThread
  | opening
  | reading
  | alarming
  deriving DecidableEq

structure BuzzerState where
  buzzerOnoff : Int
  buzzerFd : Int
  handler : Handler
  thread : ReadThread
  cnt : Int32
  deriving DecidableEq

/-- Both globals are zero when the program starts; `cnt` is whatever its stack slot holds. -/
def BuzzerState.start (cnt : Int32) : BuzzerState := ⟨0, 0, .idle, .opening, cnt⟩

inductive BuzzerEvent
  | openBuzzer (fd : Int)
  | read (buf : List UInt8)
  | activation
  | signal
  | clear
  | buzzerFunc
  | buzzerReturns
  deriving DecidableEq

/-- The statements of the thread and of the handler. The handler is not nested in itself, and
`signal` is its entry together with its test. -/
def buzzerStep (s : BuzzerState) : BuzzerEvent → Option BuzzerState
  | .openBuzzer fd =>
    if s.thread = .opening then some { s with buzzerFd := fd, thread := .reading } else none
  | .read buf =>
    if s.thread = .reading then
      let r := tcpRead s.cnt buf
      some { s with cnt := r.1, thread := if r.2 then .alarming else .reading }
    else none
  | .activation =>
    if s.thread = .alarming then some { s with buzzerOnoff := 1, thread := .reading } else none
  | .signal =>
    if s.handler = .idle then
      some { s with handler := if s.buzzerOnoff = 1 then .tested else .idle }
    else none
  | .clear =>
    if s.handler = .tested then some { s with buzzerOnoff := 0, handler := .cleared } else none
  | .buzzerFunc => if s.handler = .cleared then some { s with handler := .buzzing } else none
  | .buzzerReturns => if s.handler = .buzzing then some { s with handler := .idle } else none

/-- The latest activation has not been followed by a call of `buzzer_func`. -/
def Unanswered (es : List BuzzerEvent) : Prop :=
  ∃ pre post, es = pre ++ .activation :: post ∧ .activation ∉ post ∧ .buzzerFunc ∉ post

theorem unanswered_concat {es : List BuzzerEvent} {e : BuzzerEvent}
    (h : Unanswered (es ++ [e])) : e = .activation ∨ Unanswered es ∧ e ≠ .buzzerFunc := by
  obtain ⟨pre, post, hes, hlatest, hnone⟩ := h
  rcases List.eq_nil_or_concat post with rfl | ⟨rest, d, rfl⟩
  · left
    exact (List.append_singleton_inj.mp hes).2
  · right
    have hsplit : es ++ [e] = (pre ++ .activation :: rest) ++ [d] := by
      simpa [List.append_assoc] using hes
    obtain ⟨rfl, rfl⟩ := List.append_singleton_inj.mp hsplit
    refine ⟨⟨pre, rest, rfl, ?_, ?_⟩, ?_⟩
    · intro hmem
      apply hlatest
      simp [hmem]
    · intro hmem
      apply hnone
      simp [hmem]
    · rintro rfl
      apply hnone
      simp

/-- An unanswered activation is visible in the flag or in the handler, and each call of
`buzzer_func` made or still to come has used up an activation of its own. -/
structure Heard (es : List BuzzerEvent) (s : BuzzerState) : Prop where
  answered : Unanswered es → s.buzzerOnoff = 1 ∨ s.handler = .tested ∨ s.handler = .cleared
  tested : s.handler = .tested → s.buzzerOnoff = 1
  counted : es.count .buzzerFunc + (if s.handler = .cleared then 1 else 0) +
    (if s.buzzerOnoff = 1 then 1 else 0) ≤ es.count .activation

theorem heard_start (cnt : Int32) : Heard [] (.start cnt) where
  answered := by
    rintro ⟨pre, post, hes, _⟩
    simp at hes
  tested := by simp [BuzzerState.start]
  counted := by simp [BuzzerState.start]

theorem count_concat (es : List BuzzerEvent) (e d : BuzzerEvent) :
    (es ++ [e]).count d = es.count d + if e = d then 1 else 0 := by
  rw [List.count_append, List.count_singleton]
  simp

theorem Heard.frame {es : List BuzzerEvent} {s t : BuzzerState} {e : BuzzerEvent} (h : Heard es s)
    (honoff : t.buzzerOnoff = s.buzzerOnoff) (hhandler : t.handler = s.handler)
    (hact : e ≠ .activation) (hfunc : e ≠ .buzzerFunc) : Heard (es ++ [e]) t := by
  refine ⟨fun hun => ?_, fun ht => ?_, ?_⟩
  · rw [honoff, hhandler]
    rcases unanswered_concat hun with he | ⟨hun, _⟩
    · exact absurd he hact
    · exact h.answered hun
  · rw [honoff]
    exact h.tested (hhandler.symm.trans ht)
  · rw [count_concat, count_concat, if_neg hact, if_neg hfunc, honoff, hhandler]
    exact h.counted

theorem heard_step {es : List BuzzerEvent} {s t : BuzzerState} {e : BuzzerEvent}
    (h : Heard es s) (hstep : buzzerStep s e = some t) : Heard (es ++ [e]) t := by
  have hcount := h.counted
  cases e with
  | openBuzzer fd =>
    simp only [buzzerStep] at hstep
    split_ifs at hstep
    obtain rfl := Option.some.inj hstep
    exact h.frame rfl rfl (by simp) (by simp)
  | read buf =>
    simp only [buzzerStep] at hstep
    split_ifs at hstep <;> obtain rfl := Option.some.inj hstep <;>
      exact h.frame rfl rfl (by simp) (by simp)
  | activation =>
    simp only [buzzerStep] at hstep
    split_ifs at hstep
    obtain rfl := Option.some.inj hstep
    refine ⟨fun _ => Or.inl rfl, fun _ => rfl, ?_⟩
    simp only [count_concat, if_true, reduceCtorEq, if_false]
    split_ifs at hcount ⊢ <;> omega
  | signal =>
    simp only [buzzerStep] at hstep
    split_ifs at hstep with hidle hon
    · obtain rfl := Option.some.inj hstep
      refine ⟨fun _ => Or.inl hon, fun _ => hon, ?_⟩
      simpa [count_concat, hidle] using hcount
    · obtain rfl := Option.some.inj hstep
      refine ⟨fun hun => ?_, by simp, by simpa [count_concat, hidle] using hcount⟩
      rcases unanswered_concat hun with he | ⟨hun, _⟩
      · cases he
      · -- an idle handler leaves only the flag, which is not set
        rcases h.answered hun with honoff | htested | hcleared
        · exact absurd honoff hon
        · exact absurd (hidle.symm.trans htested) (by decide)
        · exact absurd (hidle.symm.trans hcleared) (by decide)
  | clear =>
    simp only [buzzerStep] at hstep
    split_ifs at hstep with htested
    obtain rfl := Option.some.inj hstep
    refine ⟨fun _ => Or.inr (Or.inr rfl), by simp, ?_⟩
    simp only [h.tested htested, htested, if_true, reduceCtorEq, if_false] at hcount
    simpa [count_concat] using hcount
  | buzzerFunc =>
    simp only [buzzerStep] at hstep
    split_ifs at hstep with hcleared
    obtain rfl := Option.some.inj hstep
    refine ⟨fun hun => ?_, by simp, ?_⟩
    · rcases unanswered_concat hun with he | ⟨_, hne⟩
      · cases he
      · exact absurd rfl hne
    · simp only [hcleared, if_true] at hcount
      simpa [count_concat] using hcount
  | buzzerReturns =>
    simp only [buzzerStep] at hstep
    split_ifs at hstep with hbuzzing
    obtain rfl := Option.some.inj hstep
    refine ⟨fun hun => ?_, by simp, by simpa [count_concat, hbuzzing] using hcount⟩
    rcases unanswered_concat hun with he | ⟨hun, _⟩
    · cases he
    · rcases h.answered hun with honoff | htested | hcleared
      · exact Or.inl honoff
      · exact absurd (hbuzzing.symm.trans htested) (by decide)
      · exact absurd (hbuzzing.symm.trans hcleared) (by decide)

/-- No activation is lost, and none is answered twice. -/
theorem alarm_not_lost {cnt : Int32} {es : List BuzzerEvent} {s : BuzzerState}
    (hrun : run buzzerStep (.start cnt) es = some s) :
    (Unanswered es → s.buzzerOnoff = 1 ∨ s.handler = .tested ∨ s.handler = .cleared) ∧
      es.count .buzzerFunc ≤ es.count .activation := by
  have h : Heard es s :=
    run_induction (heard_start cnt) (fun _ _ _ _ _ hI he => heard_step hI he) hrun
  refine ⟨h.answered, ?_⟩
  have hcount := h.counted
  omega

/-- A second activation comes between the clearing of the flag and the beep for the first one. -/
def overlappingAlarms : List BuzzerEvent :=
  [.openBuzzer 5, .read [6], .activation, .signal, .clear] ++ List.replicate 50 (.read [6]) ++
    [.activation, .buzzerFunc, .buzzerReturns]

theorem alarm_not_lost_overlapping :
    ∃ s, run buzzerStep (.start 49) overlappingAlarms = some s ∧ s.buzzerOnoff = 1 ∧
      overlappingAlarms.count .buzzerFunc ≤ overlappingAlarms.count .activation := by
  have hrun : ∃ s, run buzzerStep (.start 49) overlappingAlarms = some s ∧ s.buzzerOnoff = 1 :=
    ⟨_, rfl, by decide⟩
  obtain ⟨s, hs, hon⟩ := hrun
  exact ⟨s, hs, hon, (alarm_not_lost hs).2⟩

end MdsBlackbox.Client.Buzzer
