/- module: MdsBlackbox/Drivers/Registration
   source: SERVER/rc_server/led.c, SERVER/rc_server/ultrasonic.c, SERVER/rc_server/pwm_dev.c,
     CLIENT/rc_client/buzzer.c
   digest: The registration that the four drivers repeat, and the life of a module around it. -/

import MdsBlackbox.Lib.Transition

set_option autoImplicit false
set_option relaxedAutoImplicit false

namespace MdsBlackbox.Drivers.Registration

open MdsBlackbox.Lib.Transition

/-- What a kernel function returns: 0, or the negative of an error number. -/
inductive KernelResult
  | ok
  | error (n : Nat)
  deriving DecidableEq

def KernelResult.code : KernelResult → Int
  | .ok => 0
  | .error n => Int.negSucc n

/-- The static `result` of a driver, and whether the kernel holds its device number and its cdev. -/
structure CharDev where
  result : Int
  region : Bool
  cdev : Bool
  deriving DecidableEq

def CharDev.unloaded : CharDev := ⟨0, false, false⟩

/-- The text of all four `*_register_cdev`; `failure` picks the variable that the branch for a
refused device number returns, out of `result` and `error`. The majors are non-zero constants, so
the branch with `alloc_chrdev_region` is never taken. -/
def registerCdev (failure : Int → Int → Int) (region add : KernelResult) (c : CharDev) :
    CharDev × Int :=
  let error := region.code
  if error < 0 then (c, failure c.result error)
  else
    let error := add.code
    -- an error of `cdev_add` is printed only
    ({ c with region := true, cdev := decide (error = 0) }, 0)

/-- `cdev_del` and `unregister_chrdev_region`, the end of all four `*_exit`. -/
def CharDev.unregister (c : CharDev) : CharDev := { c with region := false, cdev := false }

/-- A driver: its `*_register_cdev`, what its `*_init` does before and its `*_exit` besides, its
calls and callbacks in between, and whether one of its timers is armed. A result `none` of `init`
is a fault, one of `step` or `exit` a call that cannot happen. -/
structure Driver where
  State : Type
  Event : Type
  Setup : Type
  registerCdev : KernelResult → KernelResult → CharDev → CharDev × Int
  init : Setup → Option State
  step : State → Event → Option State
  exit : State → Option State
  armed : State → Bool

section

variable (D : Driver)

structure KernelModule where
  cdev : CharDev
  own : D.State

/-- `*_init` and what it returns. -/
def moduleInit (region add : KernelResult) (setup : D.Setup) : Option (KernelModule D × Int) :=
  (D.init setup).map fun s =>
    let r := D.registerCdev region add .unloaded
    (⟨{ r.1 with result := r.2 }, s⟩, if r.2 < 0 then r.2 else 0)

def moduleStep (m : KernelModule D) (e : D.Event) : Option (KernelModule D) :=
  (D.step m.own e).map fun s => { m with own := s }

def moduleExit (m : KernelModule D) : Option (KernelModule D) :=
  (D.exit m.own).map fun s => ⟨m.cdev.unregister, s⟩

end

variable {D : Driver} {region add : KernelResult} {setup : D.Setup}

/-- No device number, no cdev and no armed timer. -/
def KernelModule.Clear (m : KernelModule D) : Prop :=
  m.cdev.region = false ∧ m.cdev.cdev = false ∧ D.armed m.own = false

def Failed (region add : KernelResult) : Prop := region ≠ .ok ∨ add ≠ .ok

variable (D region add setup) in
/-- The module is either refused by its init, or makes the calls `es` and is then removed. -/
def Lives (es : List D.Event) : Prop :=
  ∀ m ret, moduleInit D region add setup = some (m, ret) → 0 ≤ ret →
    ∃ t u, run (moduleStep D) m es = some t ∧ moduleExit D t = some u

variable (D region add setup) in
/-- The init returns a negative value exactly when a registration failed, a failed init leaves
nothing behind, and neither does the exit after the calls `es`. -/
def ReleasesAll (es : List D.Event) : Prop :=
  ∃ m ret, moduleInit D region add setup = some (m, ret) ∧ (ret < 0 ↔ Failed region add) ∧
    (Failed region add → m.Clear) ∧
    (0 ≤ ret → ∀ t u, run (moduleStep D) m es = some t → moduleExit D t = some u → u.Clear)

/-! One life, by the outcomes of the two registrations. -/

theorem module_run (m : KernelModule D) (es : List D.Event) :
    run (moduleStep D) m es = (run D.step m.own es).map fun s => ⟨m.cdev, s⟩ := by
  induction es generalizing m with
  | nil => rfl
  | cons e es ih =>
    show (moduleStep D m e).bind (run (moduleStep D) · es) =
      ((D.step m.own e).bind (run D.step · es)).map _
    unfold moduleStep
    cases D.step m.own e with
    | none => rfl
    | some s => exact ih ⟨m.cdev, s⟩

theorem life_own {m t u : KernelModule D} {es : List D.Event}
    (hrun : run (moduleStep D) m es = some t) (hexit : moduleExit D t = some u) :
    ∃ s s', run D.step m.own es = some s ∧ D.exit s = some s' ∧
      u = ⟨m.cdev.unregister, s'⟩ := by
  rw [module_run] at hrun
  obtain ⟨s, hown, rfl⟩ := Option.map_eq_some_iff.mp hrun
  obtain ⟨s', hstep, rfl⟩ := Option.map_eq_some_iff.mp hexit
  exact ⟨s, s', hown, hstep, rfl⟩

theorem life_of_own (m : KernelModule D) {es : List D.Event} {s s' : D.State}
    (hrun : run D.step m.own es = some s) (hexit : D.exit s = some s') :
    ∃ t, run (moduleStep D) m es = some t ∧ moduleExit D t = some ⟨m.cdev.unregister, s'⟩ := by
  refine ⟨⟨m.cdev, s⟩, ?_, ?_⟩
  · rw [module_run, hrun]
    rfl
  · rw [moduleExit, hexit]
    rfl

theorem not_releasesAll_of_fault (hinit : D.init setup = none) (es : List D.Event) :
    ¬ ReleasesAll D region add setup es := by
  rintro ⟨m, ret, hload, _⟩
  rw [moduleInit, hinit] at hload
  cases hload

variable {failure : Int → Int → Int} {s : D.State}

theorem moduleInit_refused (hreg : D.registerCdev = registerCdev failure)
    (hinit : D.init setup = some s) (n : Nat) (add : KernelResult) :
    moduleInit D (.error n) add setup =
      some (⟨{ CharDev.unloaded with result := failure 0 (Int.negSucc n) }, s⟩,
        if failure 0 (Int.negSucc n) < 0 then failure 0 (Int.negSucc n) else 0) := by
  have hneg : Int.negSucc n < 0 := Int.negSucc_lt_zero n
  simp [moduleInit, hinit, hreg, registerCdev, KernelResult.code, hneg, CharDev.unloaded]

theorem moduleInit_granted (hreg : D.registerCdev = registerCdev failure)
    (hinit : D.init setup = some s) (add : KernelResult) :
    moduleInit D .ok add setup = some (⟨⟨0, true, decide (add.code = 0)⟩, s⟩, 0) := by
  simp [moduleInit, hinit, hreg, registerCdev, KernelResult.code]

theorem releasesAll_refused (hreg : D.registerCdev = registerCdev failure)
    (hinit : D.init setup = some s) (n : Nat) (es : List D.Event) :
    ReleasesAll D (.error n) add setup es ↔
      failure 0 (Int.negSucc n) < 0 ∧ D.armed s = false := by
  have hfailed : Failed (.error n) add := Or.inl nofun
  have hload := moduleInit_refused hreg hinit n add
  constructor
  · rintro ⟨m, ret, hinit', hsign, hclear, _⟩
    rw [hload] at hinit'
    obtain ⟨rfl, rfl⟩ := Prod.mk.inj (Option.some.inj hinit')
    refine ⟨?_, (hclear hfailed).2.2⟩
    have hret := hsign.mpr hfailed
    split_ifs at hret with h
    · exact h
    · omega
  · rintro ⟨hret, harmed⟩
    rw [if_pos hret] at hload
    exact ⟨_, _, hload, iff_of_true hret hfailed, fun _ => ⟨rfl, rfl, harmed⟩,
      fun h => absurd hret (by omega)⟩

theorem not_releasesAll_of_add (hreg : D.registerCdev = registerCdev failure)
    (hinit : D.init setup = some s) (n : Nat) (es : List D.Event) :
    ¬ ReleasesAll D .ok (.error n) setup es := by
  rintro ⟨m, ret, hload, hsign, _⟩
  rw [moduleInit_granted hreg hinit (.error n)] at hload
  obtain ⟨rfl, rfl⟩ := Prod.mk.inj (Option.some.inj hload)
  have hneg : (0 : Int) < 0 := hsign.mpr (Or.inr nofun)
  omega

theorem releasesAll_registered (hreg : D.registerCdev = registerCdev failure)
    (hinit : D.init setup = some s) (es : List D.Event) :
    ReleasesAll D .ok .ok setup es ↔
      ∀ t u, run D.step s es = some t → D.exit t = some u → D.armed u = false := by
  have hload := moduleInit_granted hreg hinit .ok
  have hsign : ((0 : Int) < 0 ↔ Failed .ok .ok) := by simp [Failed]
  constructor
  · rintro ⟨m, ret, hinit', _, _, hexit⟩ t u hrun hstep
    rw [hload] at hinit'
    obtain ⟨rfl, rfl⟩ := Prod.mk.inj (Option.some.inj hinit')
    obtain ⟨t, hmodule, hremoved⟩ := life_of_own ⟨_, s⟩ hrun hstep
    exact (hexit (Int.le_refl 0) t _ hmodule hremoved).2.2
  · intro h
    refine ⟨_, _, hload, hsign, fun hfailed => absurd (hsign.mpr hfailed) (by decide), ?_⟩
    intro _ t u hrun hexit
    obtain ⟨t, u, hown, hstep, rfl⟩ := life_own hrun hexit
    exact ⟨rfl, rfl, h t u hown hstep⟩

theorem releasesAll_result_iff (hreg : D.registerCdev = registerCdev fun result _ => result)
    (hinit : D.init setup = some s) (es : List D.Event) :
    ReleasesAll D region add setup es ↔ region = .ok ∧ add = .ok ∧
      ∀ t u, run D.step s es = some t → D.exit t = some u → D.armed u = false := by
  cases region with
  | error n =>
    rw [releasesAll_refused hreg hinit]
    exact iff_of_false (fun h => absurd h.1 (by decide)) nofun
  | ok =>
    cases add with
    | error n => exact iff_of_false (not_releasesAll_of_add hreg hinit n es) nofun
    | ok => simp [releasesAll_registered hreg hinit]

theorem releasesAll_error_iff (hreg : D.registerCdev = registerCdev fun _ error => error)
    (hinit : D.init setup = some s) (es : List D.Event) :
    ReleasesAll D region add setup es ↔ region ≠ .ok ∧ D.armed s = false ∨
      region = .ok ∧ add = .ok ∧
        ∀ t u, run D.step s es = some t → D.exit t = some u → D.armed u = false := by
  cases region with
  | error n =>
    rw [releasesAll_refused hreg hinit]
    simp [Int.negSucc_lt_zero]
  | ok =>
    cases add with
    | error n => simp [not_releasesAll_of_add hreg hinit]
    | ok => simp [releasesAll_registered hreg hinit]

theorem lives_registered (hreg : D.registerCdev = registerCdev failure)
    (hinit : D.init setup = some s) {es : List D.Event} (hlife : Lives D .ok .ok setup es) :
    ∃ t u, run D.step s es = some t ∧ D.exit t = some u := by
  obtain ⟨t, u, hrun, hexit⟩ := hlife _ _ (moduleInit_granted hreg hinit .ok) (Int.le_refl 0)
  obtain ⟨t, u, hown, hstep, _⟩ := life_own hrun hexit
  exact ⟨t, u, hown, hstep⟩

end MdsBlackbox.Drivers.Registration
