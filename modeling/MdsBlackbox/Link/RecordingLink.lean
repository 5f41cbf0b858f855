/- module: MdsBlackbox/Link/RecordingLink
   source: CLIENT/rc_client/rc_client.c, SERVER/rc_server/th_ultra.c, SERVER/rc_server/ultrasonic.c
   digest: From the echoes at the car to the recordings on the SD card of the remote control. -/

import MdsBlackbox.Client.BlackBox
import MdsBlackbox.Link.BuzzerLink

set_option autoImplicit false
set_option relaxedAutoImplicit false

namespace MdsBlackbox.Link.RecordingLink

open MdsBlackbox.Lib.Transition
open MdsBlackbox.Client.Buzzer
open MdsBlackbox.Client.Episodes
open MdsBlackbox.Client.Recordings
open MdsBlackbox.Client.BlackBox
open MdsBlackbox.Server.Ultrasonic
open MdsBlackbox.Link.AlarmLink
open MdsBlackbox.Link.BuzzerLink

/-- The car with the alarm of the client, the client's episodes with their files, and whether
`tcp_read_thread` is in the branch `cnt >= 50` before its test of `dumping`. -/
structure System where
  siren : Siren
  box : Box
  entered : Bool

def System.start (cnt : Int32) (self : Nat) (disk : Disk) : System :=
  ⟨.start cnt, .start self disk, false⟩

inductive SystemEvent
  | siren (e : SirenEvent)
  | box (e : BoxEvent)
  deriving DecidableEq

/-- One thread goes through both parts of the branch: it tests `dumping`, creates the two threads if
need be, and then sets `buzzer_onoff`. -/
def systemStep (s : System) : SystemEvent → Option System
  | .siren e =>
    if e = .activation ∧ (s.entered = true ∨ s.box.client.tcp ≠ .waiting) then none
    else
      (sirenStep s.siren e).map fun t =>
        { s with
          siren := t
          entered := s.entered ||
            decide (s.siren.buzzer.thread = .reading ∧ t.buzzer.thread = .alarming) }
  | .box e =>
    if e = .client .activation ∧ s.entered = false then none
    else
      (boxStep s.box e).map fun b =>
        { s with box := b, entered := s.entered && decide (e ≠ .client .activation) }

def SystemEvent.onSiren : SystemEvent → Option SirenEvent
  | .siren e => some e
  | .box _ => none

def SystemEvent.onBox : SystemEvent → Option BoxEvent
  | .siren _ => none
  | .box e => some e

def atSiren (es : List SystemEvent) : List SirenEvent := es.filterMap SystemEvent.onSiren

def atBox (es : List SystemEvent) : List BoxEvent := es.filterMap SystemEvent.onBox

def OrderlyBox (s : System) : SystemEvent → Prop
  | .siren _ => True
  | .box e => Orderly s.box e

theorem siren_step {s t : System} {e : SirenEvent} (h : systemStep s (.siren e) = some t) :
    sirenStep s.siren e = some t.siren ∧ t.box = s.box ∧
      (e = .activation → s.entered = false) ∧
      t.entered = (s.entered ||
        decide (s.siren.buzzer.thread = .reading ∧ t.siren.buzzer.thread = .alarming)) := by
  simp only [systemStep] at h
  split_ifs at h with hblocked
  obtain ⟨u, hu, rfl⟩ := Option.map_eq_some_iff.mp h
  refine ⟨hu, rfl, fun he => ?_, rfl⟩
  by_contra hentered
  exact hblocked ⟨he, Or.inl (by simpa using hentered)⟩

theorem box_step {s t : System} {e : BoxEvent} (h : systemStep s (.box e) = some t) :
    boxStep s.box e = some t.box ∧ t.siren = s.siren ∧
      (e = .client .activation → s.entered = true) ∧
      t.entered = (s.entered && decide (e ≠ .client .activation)) := by
  simp only [systemStep] at h
  split_ifs at h with hblocked
  obtain ⟨u, hu, rfl⟩ := Option.map_eq_some_iff.mp h
  refine ⟨hu, rfl, fun he => ?_, rfl⟩
  by_contra hentered
  exact hblocked ⟨he, by simpa using hentered⟩

/-! The thread in its branch. -/

/-- What a step makes of the thread: it leaves the branch, enters it, or does neither. -/
def Passes (before after : ReadThread) (leaves : Prop) : Prop :=
  (leaves ∧ before = .alarming ∧ after = .reading) ∨
    (¬ leaves ∧ before = .reading ∧ after = .alarming) ∨
    (¬ leaves ∧ (after = .alarming ↔ before = .alarming))

theorem buzzerStep_passes {b c : BuzzerState} {z : BuzzerEvent} (h : buzzerStep b z = some c) :
    Passes b.thread c.thread (z = .activation) := by
  cases z with
  | openBuzzer fd =>
    simp only [buzzerStep] at h
    split_ifs at h with hopening
    obtain rfl := Option.some.inj h
    exact Or.inr (Or.inr ⟨by simp, by simp [hopening]⟩)
  | read buf =>
    simp only [buzzerStep] at h
    split_ifs at h with hreading hfifty <;> obtain rfl := Option.some.inj h
    · exact Or.inr (Or.inl ⟨by simp, hreading, rfl⟩)
    · exact Or.inr (Or.inr ⟨by simp, by simp [hreading]⟩)
  | activation =>
    simp only [buzzerStep] at h
    split_ifs at h with halarming
    obtain rfl := Option.some.inj h
    exact Or.inl ⟨rfl, halarming, rfl⟩
  | signal =>
    simp only [buzzerStep] at h
    split_ifs at h <;> obtain rfl := Option.some.inj h <;>
      exact Or.inr (Or.inr ⟨by simp, Iff.rfl⟩)
  | clear =>
    simp only [buzzerStep] at h
    split_ifs at h
    obtain rfl := Option.some.inj h
    exact Or.inr (Or.inr ⟨by simp, Iff.rfl⟩)
  | buzzerFunc =>
    simp only [buzzerStep] at h
    split_ifs at h
    obtain rfl := Option.some.inj h
    exact Or.inr (Or.inr ⟨by simp, Iff.rfl⟩)
  | buzzerReturns =>
    simp only [buzzerStep] at h
    split_ifs at h
    obtain rfl := Option.some.inj h
    exact Or.inr (Or.inr ⟨by simp, Iff.rfl⟩)

theorem withBuzzer_passes {s t : Siren} {b : BuzzerState} {z : BuzzerEvent} {leaves : Prop}
    (h : s.withBuzzer z = some t) (hb : s.buzzer = b) (hz : z = .activation ↔ leaves) :
    Passes b.thread t.buzzer.thread leaves := by
  subst hb
  obtain ⟨b, hb, rfl⟩ := Option.map_eq_some_iff.mp h
  exact propext hz ▸ buzzerStep_passes hb

theorem sirenStep_passes {s t : Siren} {e : SirenEvent} (h : sirenStep s e = some t) :
    Passes s.buzzer.thread t.buzzer.thread (e = .activation) := by
  cases e with
  | alarm e =>
    obtain ⟨a, _, hnext⟩ := Option.bind_eq_some_iff.mp h
    cases hread : readBy s.alarm e with
    | none =>
      simp only [hread, Option.some.injEq] at hnext
      subst hnext
      exact Or.inr (Or.inr ⟨by simp, Iff.rfl⟩)
    | some z =>
      simp only [hread] at hnext
      refine withBuzzer_passes hnext rfl (iff_of_false ?_ (by simp))
      cases e <;> cases hread <;> simp
  | openBuzzer fd =>
    rw [sirenStep] at h
    obtain ⟨d, _, hnext⟩ := Option.bind_eq_some_iff.mp h
    exact withBuzzer_passes hnext rfl (by simp)
  | activation => exact withBuzzer_passes h rfl (by simp)
  | signal => exact withBuzzer_passes h rfl (by simp)
  | clear => exact withBuzzer_passes h rfl (by simp)
  | buzzerFunc => exact withBuzzer_passes h rfl (by simp)
  | stmt =>
    simp only [sirenStep] at h
    split at h
    · cases h
    · obtain rfl := Option.some.inj h
      exact Or.inr (Or.inr ⟨by simp, Iff.rfl⟩)
  | buzzerReturns =>
    rw [sirenStep] at h
    split_ifs at h
    exact withBuzzer_passes h rfl (by simp)

section
variable {cnt : Int32} {self : Nat} {disk : Disk} {es : List SystemEvent} {s : System}

theorem siren_run (hrun : run systemStep (.start cnt self disk) es = some s) :
    run sirenStep (.start cnt) (atSiren es) = some s.siren := by
  refine run_simulates (f := System.siren) (g := SystemEvent.onSiren) (I := fun _ => True) trivial
    (fun _ _ _ _ _ => trivial) ?_ ?_ hrun
  · intro t e u z _ hu he
    cases e with
    | siren e =>
      obtain rfl := Option.some.inj he
      exact (siren_step hu).1
    | box e => cases he
  · intro t e u _ hu he
    cases e with
    | siren e => cases he
    | box e => exact (box_step hu).2.1

theorem box_visible {t u : System} {e : SystemEvent} {z : BoxEvent}
    (hu : systemStep t e = some u) (he : e.onBox = some z) : boxStep t.box z = some u.box := by
  cases e with
  | siren e => cases he
  | box e =>
    obtain rfl := Option.some.inj he
    exact (box_step hu).1

theorem box_hidden {t u : System} {e : SystemEvent} (hu : systemStep t e = some u)
    (he : e.onBox = none) : u.box = t.box := by
  cases e with
  | siren e => exact (siren_step hu).2.1
  | box e => cases he

theorem box_run (hrun : run systemStep (.start cnt self disk) es = some s) :
    run boxStep (.start self disk) (atBox es) = some s.box :=
  run_simulates (f := System.box) (g := SystemEvent.onBox) (I := fun _ => True) trivial
    (fun _ _ _ _ _ => trivial) (fun _ _ _ _ _ hu he => box_visible hu he)
    (fun _ _ _ _ hu he => box_hidden hu he) hrun

theorem orderly_run (hrun : run systemStep (.start cnt self disk) es = some s)
    (guard : EachStep systemStep OrderlyBox (.start cnt self disk) es) :
    EachStep boxStep Orderly (.start self disk) (atBox es) := by
  refine eachStep_simulates (f := System.box) (g := SystemEvent.onBox) (I := fun _ => True) trivial
    (fun _ _ _ _ _ => trivial) (fun _ _ _ _ _ hu he => box_visible hu he)
    (fun _ _ _ _ hu he => box_hidden hu he) ?_ hrun guard
  intro t e z horderly he
  cases e with
  | siren e => cases he
  | box e =>
    obtain rfl := Option.some.inj he
    exact horderly

/-- The thread's pass through the branch: its test of `dumping` comes once for each activation. -/
structure InBranch (es : List SystemEvent) (s : System) : Prop where
  entered : s.entered = true → s.siren.buzzer.thread = .alarming
  tests : (atBox es).count (.client .activation) + s.entered.toNat =
    (atSiren es).count .activation + if s.siren.buzzer.thread = .alarming then 1 else 0

theorem InBranch.siren_step {t : System} (h : InBranch es s) {e : SirenEvent}
    (hstep : systemStep s (.siren e) = some t) : InBranch (es ++ [.siren e]) t := by
  obtain ⟨hs, _, hnot, hentered⟩ := RecordingLink.siren_step hstep
  have hbox : atBox (es ++ [.siren e]) = atBox es := by
    rw [atBox, List.filterMap_append]
    exact List.append_nil _
  have hsiren : atSiren (es ++ [.siren e]) = atSiren es ++ [e] := List.filterMap_append
  have htests := h.tests
  rcases sirenStep_passes hs with ⟨rfl, hfrom, hto⟩ | ⟨hne, hfrom, hto⟩ | ⟨hne, hsame⟩
  · have hout : s.entered = false := hnot rfl
    rw [hout, hfrom, hto] at hentered
    refine ⟨fun ht => by simp [hentered] at ht, ?_⟩
    rw [hbox, hsiren, hentered, List.count_append, hto]
    simp only [hout, hfrom, if_true, Bool.toNat_false] at htests
    simpa using htests
  · have hout : s.entered = false := by
      by_contra hin
      have halarming := h.entered (by simpa using hin)
      rw [hfrom] at halarming
      cases halarming
    rw [hout, hfrom, hto] at hentered
    refine ⟨fun _ => hto, ?_⟩
    rw [hbox, hsiren, hentered, List.count_append, hto]
    simp only [hout, hfrom, Bool.toNat_false] at htests
    simpa [hne] using htests
  · have hkept : t.entered = s.entered := by
      rw [hentered]
      cases hb : s.siren.buzzer.thread <;> simp_all
    refine ⟨fun ht => hsame.mpr (h.entered (hkept ▸ ht)), ?_⟩
    rw [hbox, hsiren, hkept, List.count_append, htests]
    simp [hne, hsame]

theorem InBranch.box_step {t : System} (h : InBranch es s) {e : BoxEvent}
    (hstep : systemStep s (.box e) = some t) : InBranch (es ++ [.box e]) t := by
  obtain ⟨_, hsiren, hin, hentered⟩ := RecordingLink.box_step hstep
  have hbox : atBox (es ++ [.box e]) = atBox es ++ [e] := List.filterMap_append
  have hother : atSiren (es ++ [.box e]) = atSiren es := by
    rw [atSiren, List.filterMap_append]
    exact List.append_nil _
  refine ⟨fun ht => ?_, ?_⟩
  · rw [hsiren]
    refine h.entered ?_
    rw [hentered] at ht
    exact (Bool.and_eq_true_iff.mp ht).1
  · rw [hother, hbox, hsiren, ← h.tests, hentered, List.count_append]
    by_cases he : e = .client .activation
    · simp [he, hin he]
    · simp [he]

theorem inBranch_run (hrun : run systemStep (.start cnt self disk) es = some s) :
    InBranch es s := by
  refine run_induction (I := InBranch) ⟨by simp [System.start], rfl⟩ ?_ hrun
  intro es e s t _ h hstep
  cases e with
  | siren e => exact h.siren_step hstep
  | box e => exact h.box_step hstep

end

/-! The episodes. -/

/-- The episodes so far, and the one that the thread is about to start. -/
def begun (c : ClientState) : Nat :=
  c.episodes.length + if c.tcp = .tested ∨ c.tcp = .marked then 1 else 0

theorem begun_step {c d : ClientState} {e : ClientEvent} (h : clientStep c e = some d) :
    begun d ≤ begun c + if e = .activation then 1 else 0 := by
  cases clientStep_inv h with
  | activation hfrom => cases hd : c.dumping <;> simp [begun, hfrom]
  | mark hfrom => simp [begun, hfrom]
  | createDump hfrom => simp [begun, hfrom]
  | createResume k ep hfrom _ => simp [begun, hfrom]
  | _ => simp [begun]

theorem begun_run {self : Nat} {disk : Disk} {bs : List BoxEvent} {b : Box}
    (hrun : run boxStep (.start self disk) bs = some b) :
    begun b.client ≤ bs.count (.client .activation) := by
  refine run_induction (I := fun bs (b : Box) => begun b.client ≤ bs.count (.client .activation))
    (Nat.le_refl _) ?_ hrun
  intro bs e b c _ ih hstep
  rw [List.count_append, List.count_singleton]
  cases boxStep_inv hstep with
  | client e d _ hd =>
    have hle := begun_step hd
    by_cases he : e = .activation
    · simp only [he, if_true, BEq.rfl] at hle ⊢
      exact hle.trans (Nat.add_le_add_right ih 1)
    · simp only [he, if_false] at hle
      exact (hle.trans ih).trans (Nat.le_add_right _ _)
  | openDump k _ _ => exact ih.trans (Nat.le_add_right _ _)
  | record k bytes h _ _ => exact ih.trans (Nat.le_add_right _ _)
  | copy k currTime result d hd => exact ((begun_step hd).trans ih).trans (Nat.le_add_right _ _)
  | remove k ok d hd => exact ((begun_step hd).trans ih).trans (Nat.le_add_right _ _)

/-- In every interleaving of the car, the connection, the reading thread and the episodes of the
client, over any disk: to the episodes after the first there are fifty signals each, sent by as many
iterations at the car, of which each had seen six near measurements in a row; and in an orderly run
every recording that has been copied is on the card as its own dump has recorded it. -/
theorem recordings_of_obstacles {cnt : Int32} {self : Nat} {disk : Disk} {es : List SystemEvent}
    {s : System} (hrun : run systemStep (.start cnt self disk) es = some s) :
    50 * (s.box.client.episodes.length - 1) ≤ (signalsHeard cnt (atSiren es)).length ∧
      (∀ x ∈ signalsHeard cnt (atSiren es), x.1 = ULTRA_SIG ∧ x.2.Genuine) ∧
      ((signalsHeard cnt (atSiren es)).map fun x => x.2.iteration).Nodup ∧
      (EachStep systemStep OrderlyBox (.start cnt self disk) es →
        ∀ k time, .box (.copy k time .copied) ∈ es → .box (.openDump k) ∈ es →
          (storage s.box.disk).sdcard (fileName time) = some (recordedBy k (atBox es))) := by
  have hsiren := siren_run hrun
  have hbox := box_run hrun
  obtain ⟨bs, h⟩ := rings_run hsiren
  obtain ⟨hlong, hgenuine, hnodup⟩ := signals_of_alarms h.alarm
  refine ⟨?_, hgenuine, hnodup, fun guard k time hcopy hopen => ?_⟩
  · have hbegun := begun_run hbox
    have htests := (inBranch_run hrun).tests
    have halarms := h.activations
    have hcounted := h.counted.activation
    refine Nat.le_trans (Nat.mul_le_mul_left 50 ?_) hlong
    unfold begun at hbegun
    omega
  · have hmem : ∀ e, SystemEvent.box e ∈ es → e ∈ atBox es := fun e he =>
      List.mem_filterMap.mpr ⟨_, he, rfl⟩
    have hF := faithful_run hbox (orderly_run hrun guard)
    obtain ⟨handle, hh⟩ := hF.opened k (hmem _ hopen)
    exact hF.copied k time handle (hmem _ hcopy) hh

instance (s : System) : (e : SystemEvent) → Decidable (OrderlyBox s e)
  | .siren _ => isTrue trivial
  | .box e => inferInstanceAs (Decidable (Orderly s.box e))

/-- Six near echoes, and the signal of one iteration. -/
def firstSignal : List SirenEvent :=
  (List.replicate 6 [.alarm (.echo true ⟨0, 0⟩), .alarm (.echo false ⟨0, 580⟩)]).flatten ++
    [.alarm (.deviceOpen true), .openBuzzer (some 5), .alarm .deviceRead,
      .alarm (.socketWrite true), .alarm (.clientRead 1)]

/-- The signal meets a count that is already at 49, and an episode starts. -/
def signalAndEpisode : List SystemEvent :=
  firstSignal.map .siren ++ recordedEpisode.map .box ++ [.siren .activation]

theorem recordings_of_obstacles_signalAndEpisode :
    ∃ s, run systemStep (.start 49 100 emptyDisk) signalAndEpisode = some s ∧
      (storage s.box.disk).sdcard (fileName 1400000000) = some [1, 2, 3] := by
  have hrun : ∃ s, run systemStep (.start 49 100 emptyDisk) signalAndEpisode = some s := ⟨_, rfl⟩
  obtain ⟨s, hs⟩ := hrun
  obtain ⟨_, _, _, hcard⟩ := recordings_of_obstacles hs
  exact ⟨s, hs, hcard (by decide) 0 1400000000 (by decide) (by decide)⟩

end MdsBlackbox.Link.RecordingLink
