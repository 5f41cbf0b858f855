/- module: MdsBlackbox/Server/TriggerTimer
   source: SERVER/rc_server/ultrasonic.c, SERVER/rc_server/ultrasonic.h
   digest: The trigger timer of the distance sensor over all opens, releases and expiries. -/

import Mathlib.Data.List.Basic
import MdsBlackbox.Lib.Transition

set_option autoImplicit false
set_option relaxedAutoImplicit false

namespace MdsBlackbox.Server.TriggerTimer

open MdsBlackbox.Lib.Transition

abbrev ENOENT : Int := 2

/-- The driver and what the kernel holds for it: `ptrmng`, the blocks allocated and not freed, the
blocks whose timers are armed, the two GPIO claims, the interrupt line, and the number of open
files. Blocks are numbered in the order of their allocation. -/
structure Timers where
  inserted : Bool
  ptrmng : Option Nat
  next : Nat
  blocks : List Nat
  armed : List Nat
  trig : Bool
  echo : Bool
  irqHeld : Bool
  opens : Nat
  faulted : Bool
  deriving DecidableEq

def Timers.insmod : Timers := ⟨true, none, 0, [], [], false, false, false, 0, false⟩

/-- `kmalloc` may give a null pointer; the block that `ptrmng` pointed to before is not freed. -/
def kerneltimerInit (s : Timers) (kmalloc : Bool) : Timers :=
  if kmalloc then
    { s with ptrmng := some s.next, next := s.next + 1, blocks := s.blocks ++ [s.next] }
  else { s with ptrmng := none }

/-- The body of `ultrasonic_open`, where `irq` says whether a free interrupt line is granted; the
line cannot be requested twice. The result is `none` when `init_timer` gets the null pointer. -/
def ultrasonicOpen (s : Timers) (kmalloc irq : Bool) : Timers × Option Int :=
  let t := { kerneltimerInit s kmalloc with trig := true, echo := true }
  if irq && !t.irqHeld then
    match t.ptrmng with
    | some b => ({ t with irqHeld := true, armed := t.armed ++ [b] }, some 0)
    | none => ({ t with irqHeld := true }, none)
  else (t, some (-ENOENT))

def ultrasonicRelease (s : Timers) : Timers := { s with irqHeld := false }

/-- The timer of a block expires, and its callback registers it again. -/
def kerneltimerTimeover (s : Timers) (b : Nat) : Timers :=
  { s with armed := s.armed.filter (· ≠ b) ++ [b] }

/-- `del_timer` and `kfree` for the one block that `ptrmng` points to. -/
def kerneltimerExit (s : Timers) : Timers :=
  match s.ptrmng with
  | none => s
  | some b => { s with armed := s.armed.filter (· ≠ b), blocks := s.blocks.filter (· ≠ b) }

def ultrasonicExit (s : Timers) : Timers :=
  { kerneltimerExit s with trig := false, echo := false, inserted := false }

inductive TimerEvent
  | openDevice (kmalloc irq : Bool)
  | release
  | expire (b : Nat)
  | rmmod
  deriving DecidableEq

/-- Calls into the module while it is inserted: a file that failed to open is never released, and an
open file keeps the module from being removed. -/
def timerStep (s : Timers) : TimerEvent → Option Timers
  | .openDevice kmalloc irq =>
    if s.inserted ∧ s.faulted = false then
      match ultrasonicOpen s kmalloc irq with
      | (t, some ret) => some (if ret = 0 then { t with opens := t.opens + 1 } else t)
      | (t, none) => some { t with faulted := true }
    else none
  | .release =>
    if s.faulted = false ∧ 0 < s.opens then
      some { ultrasonicRelease s with opens := s.opens - 1 }
    else none
  | .expire b =>
    if s.inserted ∧ s.faulted = false ∧ b ∈ s.armed then some (kerneltimerTimeover s b) else none
  | .rmmod =>
    if s.inserted ∧ s.faulted = false ∧ s.opens = 0 then some (ultrasonicExit s) else none

/-- At most one timer is armed, only while the device is open, and nothing outlives the module. -/
structure Tidy (s : Timers) : Prop where
  single : s.armed.length ≤ 1
  whileOpen : s.armed ≠ [] → 0 < s.opens
  atExit : s.inserted = false → s.armed = [] ∧ s.blocks = []

structure Held (s : Timers) : Prop where
  free : s.irqHeld = false → s.opens = 0
  once : s.opens ≤ 1
  running : 0 < s.opens → s.armed ≠ [] ∧ s.inserted = true

/-- No file is released, and the module is removed only when no block is allocated but the one that
`ptrmng` points to. -/
def Clean (s : Timers) : TimerEvent → Prop
  | .release => False
  | .rmmod => ∀ b ∈ s.blocks, s.ptrmng = some b
  | _ => True

instance (s : Timers) : (e : TimerEvent) → Decidable (Clean s e)
  | .openDevice _ _ => inferInstanceAs (Decidable True)
  | .release => inferInstanceAs (Decidable False)
  | .expire _ => inferInstanceAs (Decidable True)
  | .rmmod => inferInstanceAs (Decidable (∀ b ∈ s.blocks, s.ptrmng = some b))

/-! What the steps do. -/

theorem kerneltimerInit_fields (s : Timers) (kmalloc : Bool) :
    (kerneltimerInit s kmalloc).armed = s.armed ∧ (kerneltimerInit s kmalloc).opens = s.opens ∧
      (kerneltimerInit s kmalloc).irqHeld = s.irqHeld ∧
      (kerneltimerInit s kmalloc).inserted = s.inserted := by
  unfold kerneltimerInit
  split_ifs <;> exact ⟨rfl, rfl, rfl, rfl⟩

theorem ultrasonicOpen_cases (s : Timers) (kmalloc irq : Bool) :
    ((ultrasonicOpen s kmalloc irq).2 = some 0 ∧ s.irqHeld = false ∧
      (ultrasonicOpen s kmalloc irq).1.irqHeld = true ∧
      ∃ b, (ultrasonicOpen s kmalloc irq).1.armed = s.armed ++ [b]) ∨
    ((ultrasonicOpen s kmalloc irq).2 ≠ some 0 ∧
      (ultrasonicOpen s kmalloc irq).1.armed = s.armed ∧
      ((ultrasonicOpen s kmalloc irq).1.irqHeld = false → s.irqHeld = false)) := by
  obtain ⟨harmed, _, hirq, _⟩ := kerneltimerInit_fields s kmalloc
  unfold ultrasonicOpen
  simp only [harmed, hirq]
  split_ifs with hgrant
  · have hfree : s.irqHeld = false := by
      rw [Bool.and_eq_true, Bool.not_eq_true'] at hgrant
      exact hgrant.2
    cases (kerneltimerInit s kmalloc).ptrmng with
    | some b => exact Or.inl ⟨rfl, hfree, rfl, b, rfl⟩
    | none => exact Or.inr ⟨by simp, rfl, fun _ => hfree⟩
  · have hcode : some (-ENOENT) ≠ some 0 := by decide
    exact Or.inr ⟨hcode, rfl, id⟩

theorem ultrasonicOpen_frame (s : Timers) (kmalloc irq : Bool) :
    (ultrasonicOpen s kmalloc irq).1.opens = s.opens ∧
      (ultrasonicOpen s kmalloc irq).1.inserted = s.inserted := by
  obtain ⟨_, hopens, _, hinserted⟩ := kerneltimerInit_fields s kmalloc
  unfold ultrasonicOpen
  simp only
  split_ifs
  · cases (kerneltimerInit s kmalloc).ptrmng <;> exact ⟨hopens, hinserted⟩
  · exact ⟨hopens, hinserted⟩

theorem open_cases {s t : Timers} {kmalloc irq : Bool}
    (hstep : timerStep s (.openDevice kmalloc irq) = some t) :
    s.inserted = true ∧ t.inserted = true ∧
      ((∃ b, s.irqHeld = false ∧ t.irqHeld = true ∧ t.armed = s.armed ++ [b] ∧
          t.opens = s.opens + 1) ∨
       (t.armed = s.armed ∧ t.opens = s.opens ∧ (t.irqHeld = false → s.irqHeld = false))) := by
  simp only [timerStep] at hstep
  split_ifs at hstep with hcond
  obtain ⟨hopens, hinserted⟩ := ultrasonicOpen_frame s kmalloc irq
  have hin : (ultrasonicOpen s kmalloc irq).1.inserted = true := hinserted.trans hcond.1
  refine ⟨hcond.1, ?_⟩
  have hopen := ultrasonicOpen_cases s kmalloc irq
  generalize ultrasonicOpen s kmalloc irq = r at hstep hopen hopens hin
  obtain ⟨u, ret⟩ := r
  rcases hopen with ⟨hret, hfree, hheld, b, harmed⟩ | ⟨hret, harmed, hfree⟩
  · obtain rfl : ret = some 0 := hret
    obtain rfl := Option.some.inj hstep
    exact ⟨hin, Or.inl ⟨b, hfree, hheld, harmed, congrArg (· + 1) hopens⟩⟩
  · cases ret with
    | none =>
      obtain rfl := Option.some.inj hstep
      exact ⟨hin, Or.inr ⟨harmed, hopens, hfree⟩⟩
    | some code =>
      have hcode : code ≠ 0 := fun h => hret (congrArg some h)
      simp only [hcode, if_false, Option.some.injEq] at hstep
      subst hstep
      exact ⟨hin, Or.inr ⟨harmed, hopens, hfree⟩⟩

theorem timerStep_release {s t : Timers} (hstep : timerStep s .release = some t) :
    0 < s.opens ∧ t = { ultrasonicRelease s with opens := s.opens - 1 } := by
  simp only [timerStep] at hstep
  split_ifs at hstep with hcond
  exact ⟨hcond.2, (Option.some.inj hstep).symm⟩

theorem timerStep_expire {s t : Timers} {b : Nat} (hstep : timerStep s (.expire b) = some t) :
    s.inserted = true ∧ b ∈ s.armed ∧ t = kerneltimerTimeover s b := by
  simp only [timerStep] at hstep
  split_ifs at hstep with hcond
  exact ⟨hcond.1, hcond.2.2, (Option.some.inj hstep).symm⟩

theorem timerStep_rmmod {s t : Timers} (hstep : timerStep s .rmmod = some t) :
    s.inserted = true ∧ s.opens = 0 ∧ t = ultrasonicExit s := by
  simp only [timerStep] at hstep
  split_ifs at hstep with hcond
  exact ⟨hcond.1, hcond.2.2, (Option.some.inj hstep).symm⟩

/-! The invariant. -/

theorem held_insmod : Held .insmod := ⟨fun _ => rfl, by decide, by simp [Timers.insmod]⟩

theorem tidy_insmod : Tidy .insmod := ⟨by decide, by simp [Timers.insmod], by simp [Timers.insmod]⟩

theorem kerneltimerExit_opens (s : Timers) : (kerneltimerExit s).opens = s.opens := by
  unfold kerneltimerExit
  split <;> rfl

theorem held_step {s t : Timers} {e : TimerEvent} (hs : Held s) (hstep : timerStep s e = some t) :
    Held t := by
  cases e with
  | openDevice kmalloc irq =>
    obtain ⟨_, hin, ⟨b, hfree, hheld, harmed, hopens⟩ | ⟨harmed, hopens, hfree⟩⟩ := open_cases hstep
    · have hnone : s.opens = 0 := hs.free hfree
      exact ⟨by simp [hheld], by omega, fun _ => ⟨by simp [harmed], hin⟩⟩
    · refine ⟨fun h => hopens.trans (hs.free (hfree h)), hopens ▸ hs.once, fun h => ?_⟩
      rw [hopens] at h
      exact ⟨harmed ▸ (hs.running h).1, hin⟩
  | release =>
    obtain ⟨_, rfl⟩ := timerStep_release hstep
    have honce := hs.once
    refine ⟨fun _ => ?_, ?_, fun h => ?_⟩
    · show s.opens - 1 = 0
      omega
    · show s.opens - 1 ≤ 1
      omega
    · have h : 0 < s.opens - 1 := h
      omega
  | expire b =>
    obtain ⟨_, _, rfl⟩ := timerStep_expire hstep
    exact ⟨hs.free, hs.once, fun h => ⟨by simp [kerneltimerTimeover], (hs.running h).2⟩⟩
  | rmmod =>
    obtain ⟨_, hzero, rfl⟩ := timerStep_rmmod hstep
    have hclosed : (ultrasonicExit s).opens = 0 := (kerneltimerExit_opens s).trans hzero
    refine ⟨fun _ => hclosed, by omega, fun h => by omega⟩

theorem timeover_single {s : Timers} {b : Nat} (hb : b ∈ s.armed) (hs : s.armed.length ≤ 1) :
    (kerneltimerTimeover s b).armed = s.armed := by
  obtain ⟨c, hc⟩ := List.length_eq_one_iff.mp
    (Nat.le_antisymm hs (List.length_pos_of_mem hb))
  rw [hc] at hb
  obtain rfl := List.mem_singleton.mp hb
  simp [kerneltimerTimeover, hc]

theorem kerneltimerExit_eq (s : Timers) : kerneltimerExit s =
    { s with armed := s.armed.filter (fun b => s.ptrmng ≠ some b),
             blocks := s.blocks.filter (fun b => s.ptrmng ≠ some b) } := by
  -- the exit keeps what `ptrmng` does not point to
  obtain ⟨_, ptrmng, _, _, _, _, _, _, _, _⟩ := s
  cases ptrmng with
  | none => simp [kerneltimerExit, List.filter_true]
  | some p => simp [kerneltimerExit, eq_comm (a := p)]

theorem filter_pointed_iff {p : Option Nat} {bs : List Nat} :
    bs.filter (fun b => p ≠ some b) = [] ↔ ∀ b ∈ bs, p = some b := by
  simp [List.filter_eq_nil_iff]

theorem exit_disarms_iff (s : Timers) :
    (ultrasonicExit s).armed = [] ↔ ∀ b ∈ s.armed, s.ptrmng = some b := by
  rw [← filter_pointed_iff, ultrasonicExit, kerneltimerExit_eq]

theorem exit_frees_iff (s : Timers) :
    (ultrasonicExit s).blocks = [] ↔ ∀ b ∈ s.blocks, s.ptrmng = some b := by
  rw [← filter_pointed_iff, ultrasonicExit, kerneltimerExit_eq]

theorem tidy_exit_iff {s : Timers} (harmed : s.armed = []) :
    Tidy (ultrasonicExit s) ↔ ∀ b ∈ s.blocks, s.ptrmng = some b := by
  have hnone : (ultrasonicExit s).armed = [] := by
    rw [exit_disarms_iff, harmed]
    simp
  rw [← exit_frees_iff]
  constructor
  · intro h
    exact (h.atExit rfl).2
  · intro h
    exact ⟨by rw [hnone]; simp, fun hne => absurd hnone hne, fun _ => ⟨hnone, h⟩⟩

theorem tidy_step_iff {s t : Timers} {e : TimerEvent} (hheld : Held s) (hs : Tidy s)
    (hstep : timerStep s e = some t) : Tidy t ↔ Clean s e := by
  cases e with
  | openDevice kmalloc irq =>
    refine iff_of_true ?_ trivial
    obtain ⟨_, hin, ⟨b, hfree, _, harmed, hopens⟩ | ⟨harmed, hopens, _⟩⟩ := open_cases hstep
    · -- the line was free, so no file was open and no timer armed
      have hnone : s.armed = [] := by
        by_contra hne
        have := hs.whileOpen hne
        have := hheld.free hfree
        omega
      exact ⟨by simp [harmed, hnone], fun _ => by omega, fun h => by simp [hin] at h⟩
    · exact ⟨harmed ▸ hs.single, fun h => hopens ▸ hs.whileOpen (harmed ▸ h),
        fun h => by simp [hin] at h⟩
  | release =>
    obtain ⟨hpos, rfl⟩ := timerStep_release hstep
    refine iff_of_false (fun h => ?_) id
    -- the timer of the open file stays armed
    have hopen : 0 < s.opens - 1 := h.whileOpen (hheld.running hpos).1
    have honce := hheld.once
    omega
  | expire b =>
    obtain ⟨hinserted, hb, rfl⟩ := timerStep_expire hstep
    have harmed := timeover_single hb hs.single
    refine iff_of_true ?_ trivial
    refine ⟨harmed ▸ hs.single, fun h => hs.whileOpen (harmed ▸ h), fun h => ?_⟩
    have hin : s.inserted = false := h
    rw [hinserted] at hin
    cases hin
  | rmmod =>
    obtain ⟨_, hzero, rfl⟩ := timerStep_rmmod hstep
    have hnone : s.armed = [] := by
      by_contra hne
      have := hs.whileOpen hne
      omega
    exact tidy_exit_iff hnone

/-! Whole runs. -/

/-- A run is tidy throughout exactly when no file is ever released and the module is removed only
when nothing but the last block is allocated. -/
theorem tidy_throughout_iff {es : List TimerEvent} {s : Timers}
    (hrun : run timerStep .insmod es = some s) :
    Throughout timerStep Tidy .insmod es ↔ EachStep timerStep Clean .insmod es :=
  throughout_iff_eachStep held_insmod tidy_insmod (fun _ _ _ hs he => held_step hs he)
    (fun _ _ _ hheld hs he => tidy_step_iff hheld hs he) hrun

theorem tidy_after_failed_open :
    Throughout timerStep Tidy .insmod [.openDevice true false, .rmmod] := by
  have hrun : run timerStep .insmod [.openDevice true false, .rmmod] = some _ := rfl
  exact (tidy_throughout_iff hrun).mpr (by decide)

theorem untidy_after_release : ¬ ∀ (es : List TimerEvent) (s : Timers),
    run timerStep .insmod es = some s → Tidy s := by
  -- the first release already leaves a timer armed over a closed device
  intro h
  have hbad := h [.openDevice true true, .release] _ rfl
  exact absurd (hbad.whileOpen (by decide)) (by decide)

/-! An open that fails. -/

/-- What `ultrasonic_open` acquires or replaces before its `request_irq`. -/
structure Holdings where
  ptrmng : Option Nat
  blocks : List Nat
  armed : List Nat
  trig : Bool
  echo : Bool
  deriving DecidableEq

def Timers.holdings (s : Timers) : Holdings := ⟨s.ptrmng, s.blocks, s.armed, s.trig, s.echo⟩

/-- `kmalloc` gives the null pointer, or the interrupt line is refused or taken already. -/
def OpenFails (s : Timers) (kmalloc irq : Bool) : Prop :=
  kmalloc = false ∨ irq = false ∨ s.irqHeld = true

/-- The call returns a negative error and leaves everything as it was. -/
def OpenUndone (s : Timers) (kmalloc irq : Bool) : Prop :=
  (∃ ret < 0, (ultrasonicOpen s kmalloc irq).2 = some ret) ∧
    (ultrasonicOpen s kmalloc irq).1.holdings = s.holdings

theorem ultrasonicOpen_refused {s : Timers} {kmalloc irq : Bool}
    (h : irq = false ∨ s.irqHeld = true) : ultrasonicOpen s kmalloc irq =
      ({ kerneltimerInit s kmalloc with trig := true, echo := true }, some (-ENOENT)) := by
  obtain ⟨_, _, hirq, _⟩ := kerneltimerInit_fields s kmalloc
  unfold ultrasonicOpen
  simp only [hirq]
  rcases h with hrefused | hheld
  · simp [hrefused]
  · simp [hheld]

theorem ultrasonicOpen_null {s : Timers} (hfree : s.irqHeld = false) :
    (ultrasonicOpen s false true).2 = none := by
  simp [ultrasonicOpen, kerneltimerInit, hfree]

theorem kerneltimerInit_blocks_ne (s : Timers) : (kerneltimerInit s true).blocks ≠ s.blocks := by
  intro h
  have hlength := congrArg List.length h
  simp [kerneltimerInit] at hlength

/-- A failing open undoes nothing, so it leaves everything as it was exactly when it has changed
nothing: no block was allocated, `ptrmng` was null and both pins were claimed. -/
theorem open_undone_iff {s : Timers} {kmalloc irq : Bool} (hfail : OpenFails s kmalloc irq) :
    OpenUndone s kmalloc irq ↔ kmalloc = false ∧ (irq = false ∨ s.irqHeld = true) ∧
      s.ptrmng = none ∧ s.trig = true ∧ s.echo = true := by
  unfold OpenUndone
  by_cases hrefused : irq = false ∨ s.irqHeld = true
  · have hret : ∃ ret < 0, some (-ENOENT) = some ret := ⟨-ENOENT, by decide, rfl⟩
    rw [ultrasonicOpen_refused hrefused, and_iff_right hret, Timers.holdings, Timers.holdings,
      Holdings.mk.injEq]
    cases kmalloc with
    | true =>
      refine iff_of_false (fun h => ?_) (fun h => nomatch h.1)
      exact kerneltimerInit_blocks_ne s h.2.1
    | false =>
      have hinit : kerneltimerInit s false = { s with ptrmng := none } := rfl
      simp only [hinit, hrefused, true_and, eq_comm (a := true), eq_comm (a := none)]
  · have hgranted : irq = true ∧ s.irqHeld = false := by simpa using hrefused
    obtain ⟨rfl, hfree⟩ := hgranted
    obtain rfl : kmalloc = false := hfail.resolve_right hrefused
    refine iff_of_false (fun h => ?_) (fun h => hrefused h.2.1)
    obtain ⟨⟨ret, _, hret⟩, _⟩ := h
    rw [ultrasonicOpen_null hfree] at hret
    cases hret

theorem open_undone_again :
    OpenUndone { Timers.insmod with trig := true, echo := true } false false :=
  (open_undone_iff (Or.inl rfl)).mpr (by decide)

theorem open_not_undone : ¬ ∀ (s : Timers) (kmalloc irq : Bool), OpenFails s kmalloc irq →
    OpenUndone s kmalloc irq := by
  -- the device is open, and a second open finds the interrupt line taken
  intro h
  have hbad := h (ultrasonicOpen .insmod true true).1 true true (Or.inr (Or.inr rfl))
  exact absurd hbad.2 (by decide)

/-! The damage that failing opens leave for the exit. -/

/-- The open gets a block from `kmalloc`. -/
def TimerEvent.allocates : TimerEvent → Bool
  | .openDevice kmalloc _ => kmalloc
  | _ => false

theorem ultrasonicOpen_blocks (s : Timers) (kmalloc irq : Bool) :
    (ultrasonicOpen s kmalloc irq).1.blocks = (kerneltimerInit s kmalloc).blocks ∧
      (ultrasonicOpen s kmalloc irq).1.next = (kerneltimerInit s kmalloc).next := by
  unfold ultrasonicOpen
  simp only
  split_ifs
  · cases (kerneltimerInit s kmalloc).ptrmng <;> exact ⟨rfl, rfl⟩
  · exact ⟨rfl, rfl⟩

theorem timerStep_blocks {s t : Timers} {e : TimerEvent} (hstep : timerStep s e = some t)
    (hin : t.inserted = true) : s.inserted = true ∧
      t.blocks = s.blocks ++ (if e.allocates then [s.next] else []) ∧
      t.next = s.next + if e.allocates then 1 else 0 := by
  cases e with
  | openDevice kmalloc irq =>
    refine ⟨(open_cases hstep).1, ?_⟩
    have hblocks : t.blocks = (kerneltimerInit s kmalloc).blocks ∧
        t.next = (kerneltimerInit s kmalloc).next := by
      have hopen := ultrasonicOpen_blocks s kmalloc irq
      simp only [timerStep] at hstep
      split_ifs at hstep
      generalize ultrasonicOpen s kmalloc irq = r at hstep hopen
      obtain ⟨u, ret⟩ := r
      cases ret with
      | none =>
        obtain rfl := Option.some.inj hstep
        exact hopen
      | some code =>
        obtain rfl := Option.some.inj hstep
        split_ifs <;> exact hopen
    rw [hblocks.1, hblocks.2]
    cases kmalloc <;> simp [kerneltimerInit, TimerEvent.allocates]
  | release =>
    obtain ⟨_, rfl⟩ := timerStep_release hstep
    exact ⟨hin, (List.append_nil _).symm, rfl⟩
  | expire b =>
    obtain ⟨_, _, rfl⟩ := timerStep_expire hstep
    exact ⟨hin, (List.append_nil _).symm, rfl⟩
  | rmmod =>
    obtain ⟨_, _, rfl⟩ := timerStep_rmmod hstep
    cases hin

theorem blocks_run {es : List TimerEvent} {s : Timers} (hrun : run timerStep .insmod es = some s) :
    s.inserted = true → s.next = es.countP TimerEvent.allocates ∧ s.blocks = List.range s.next := by
  refine run_induction (I := fun es s => s.inserted = true →
    s.next = es.countP TimerEvent.allocates ∧ s.blocks = List.range s.next)
    (fun _ => ⟨rfl, rfl⟩) ?_ hrun
  intro es e t u _ ih hstep hin
  obtain ⟨hbefore, hblocks, hnext⟩ := timerStep_blocks hstep hin
  obtain ⟨hcount, hrange⟩ := ih hbefore
  rw [List.countP_append, List.countP_singleton, hblocks, hnext, ← hcount, hrange]
  refine ⟨rfl, ?_⟩
  cases e.allocates with
  | true => exact List.range_succ.symm
  | false => exact List.append_nil _

theorem exit_frees_one {s : Timers} (hnodup : s.blocks.Nodup) :
    s.blocks.length ≤ (ultrasonicExit s).blocks.length + 1 := by
  show _ ≤ (kerneltimerExit s).blocks.length + 1
  unfold kerneltimerExit
  split
  · exact Nat.le_succ _
  · rename_i b _
    have herase : s.blocks.filter (· ≠ b) = s.blocks.erase b := by
      rw [hnodup.erase_eq_filter]
      refine List.filter_congr fun c _ => ?_
      by_cases hcb : c = b <;> simp [hcb]
    show _ ≤ (s.blocks.filter (· ≠ b)).length + 1
    rw [herase, List.length_erase]
    split <;> omega

theorem exit_leaks {es : List TimerEvent} {s t : Timers}
    (hrun : run timerStep .insmod es = some s) (hexit : timerStep s .rmmod = some t) :
    es.countP TimerEvent.allocates ≤ t.blocks.length + 1 := by
  obtain ⟨hin, _, rfl⟩ := timerStep_rmmod hexit
  obtain ⟨hcount, hrange⟩ := blocks_run hrun hin
  have hnodup : s.blocks.Nodup := hrange ▸ List.nodup_range
  calc es.countP TimerEvent.allocates = s.blocks.length := by
        rw [hrange, List.length_range, hcount]
    _ ≤ (ultrasonicExit s).blocks.length + 1 := exit_frees_one hnodup

end MdsBlackbox.Server.TriggerTimer
