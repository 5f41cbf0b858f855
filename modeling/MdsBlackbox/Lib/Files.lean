/- module: MdsBlackbox/Lib/Files
   layer: library
   digest: Named files with contents of their own, written through handles that outlive names. -/

import Mathlib.Data.List.TakeDrop
import Mathlib.Logic.Function.Basic

set_option autoImplicit false
set_option relaxedAutoImplicit false

namespace MdsBlackbox.Lib.Files

universe u v

variable {ν : Type u} {β : Type v}

/-- A directory without hard links. A content can be written while no name leads to it. -/
structure Fs (ν : Type u) (β : Type v) where
  content : Nat → List β
  next : Nat
  entry : ν → Option Nat
  known : ∀ {n i}, entry n = some i → i < next
  separate : ∀ {m n i}, entry m = some i → entry n = some i → m = n

namespace Fs

variable (fs : Fs ν β)

def read (n : ν) : Option (List β) := (fs.entry n).map fs.content

/-- The content that `n` leads to once it has been opened for writing. -/
def target (n : ν) : Nat := (fs.entry n).getD fs.next

theorem target_of_entry {n : ν} {i : Nat} (h : fs.entry n = some i) : fs.target n = i := by
  simp [target, h]

theorem target_of_none {n : ν} (h : fs.entry n = none) : fs.target n = fs.next := by
  simp [target, h]

theorem target_lt (n : ν) : fs.target n < fs.next + 1 := by
  cases h : fs.entry n with
  | none => simp [target, h]
  | some i =>
    rw [fs.target_of_entry h]
    exact Nat.lt_succ_of_lt (fs.known h)

theorem target_fresh {m n : ν} (h : fs.entry m = some (fs.target n)) : m = n := by
  cases hn : fs.entry n with
  | none =>
    rw [fs.target_of_none hn] at h
    exact absurd (fs.known h) (Nat.lt_irrefl _)
  | some i =>
    rw [fs.target_of_entry hn] at h
    exact fs.separate h hn

section Operations

variable [DecidableEq ν]

/-- Open for writing, with truncation. -/
def create (n : ν) : Fs ν β where
  content := Function.update fs.content (fs.target n) []
  next := fs.next + 1
  entry := Function.update fs.entry n (some (fs.target n))
  known := by
    intro m i hm
    by_cases hmn : m = n
    · subst hmn
      rw [Function.update_self] at hm
      exact Option.some.inj hm ▸ fs.target_lt m
    · rw [Function.update_of_ne hmn] at hm
      exact Nat.lt_succ_of_lt (fs.known hm)
  separate := by
    intro m m' i hm hm'
    by_cases hmn : m = n <;> by_cases hmn' : m' = n
    · rw [hmn, hmn']
    · rw [hmn, Function.update_self] at hm
      rw [Function.update_of_ne hmn', ← hm] at hm'
      rw [hmn, fs.target_fresh hm']
    · rw [hmn', Function.update_self] at hm'
      rw [Function.update_of_ne hmn, ← hm'] at hm
      rw [hmn', fs.target_fresh hm]
    · rw [Function.update_of_ne hmn] at hm
      rw [Function.update_of_ne hmn'] at hm'
      exact fs.separate hm hm'

def unlink (n : ν) : Fs ν β where
  content := fs.content
  next := fs.next
  entry := Function.update fs.entry n none
  known := by
    intro m i hm
    by_cases hmn : m = n
    · simp [hmn] at hm
    · rw [Function.update_of_ne hmn] at hm
      exact fs.known hm
  separate := by
    intro m m' i hm hm'
    by_cases hmn : m = n
    · simp [hmn] at hm
    · by_cases hmn' : m' = n
      · simp [hmn'] at hm'
      · rw [Function.update_of_ne hmn] at hm
        rw [Function.update_of_ne hmn'] at hm'
        exact fs.separate hm hm'

end Operations

/-- `bytes` at `offset`; a gap before it is filled. -/
def overlay (fill : β) (r : List β) (offset : Nat) (bytes : List β) : List β :=
  r.take offset ++ List.replicate (offset - r.length) fill ++ bytes ++
    r.drop (offset + bytes.length)

theorem overlay_end (fill : β) (r bytes : List β) :
    overlay fill r r.length bytes = r ++ bytes := by
  simp [overlay]

/-- Write through a handle on the content `i`. -/
def write (fill : β) (i offset : Nat) (bytes : List β) : Fs ν β :=
  { fs with content := Function.update fs.content i (overlay fill (fs.content i) offset bytes) }

/-! What is read afterwards. -/

section Reading

variable [DecidableEq ν]

theorem entry_create_self (n : ν) : (fs.create n).entry n = some (fs.target n) :=
  Function.update_self ..

theorem entry_create_of_ne {m n : ν} (h : m ≠ n) : (fs.create n).entry m = fs.entry m :=
  Function.update_of_ne h ..

theorem content_create_target (n : ν) : (fs.create n).content (fs.target n) = [] :=
  Function.update_self ..

theorem content_create_of_ne {n : ν} {i : Nat} (h : i ≠ fs.target n) :
    (fs.create n).content i = fs.content i :=
  Function.update_of_ne h ..

theorem read_create_of_ne {m n : ν} (h : m ≠ n) : (fs.create n).read m = fs.read m := by
  unfold read
  rw [fs.entry_create_of_ne h]
  cases hm : fs.entry m with
  | none => rfl
  | some i =>
    have hi : i ≠ fs.target n := fun he => h (fs.target_fresh (he ▸ hm))
    simp only [Option.map_some, fs.content_create_of_ne hi]

theorem entry_unlink_self (n : ν) : (fs.unlink n).entry n = none := Function.update_self ..

theorem entry_unlink_of_ne {m n : ν} (h : m ≠ n) : (fs.unlink n).entry m = fs.entry m :=
  Function.update_of_ne h ..

theorem read_unlink_self (n : ν) : (fs.unlink n).read n = none := by
  rw [read, entry_unlink_self, Option.map_none]

theorem read_unlink_of_ne {m n : ν} (h : m ≠ n) : (fs.unlink n).read m = fs.read m := by
  rw [read, entry_unlink_of_ne fs h]
  rfl

end Reading

theorem content_write_self (fill : β) (i offset : Nat) (bytes : List β) :
    (fs.write fill i offset bytes).content i = overlay fill (fs.content i) offset bytes :=
  Function.update_self ..

theorem content_write_of_ne (fill : β) {i j : Nat} (offset : Nat) (bytes : List β) (h : j ≠ i) :
    (fs.write fill i offset bytes).content j = fs.content j :=
  Function.update_of_ne h ..

theorem read_write_of_ne (fill : β) {m : ν} {i : Nat} (offset : Nat) (bytes : List β)
    (h : fs.entry m ≠ some i) : (fs.write fill i offset bytes).read m = fs.read m := by
  unfold read
  show (fs.entry m).map _ = _
  cases hm : fs.entry m with
  | none => rfl
  | some j =>
    have hj : j ≠ i := fun he => h (he ▸ hm)
    simp only [Option.map_some, fs.content_write_of_ne fill offset bytes hj]

/-- A whole file written anew. -/
def store [DecidableEq ν] (fill : β) (n : ν) (bytes : List β) : Fs ν β :=
  (fs.create n).write fill (fs.target n) 0 bytes

theorem read_store_self [DecidableEq ν] (fill : β) (n : ν) (bytes : List β) :
    (fs.store fill n bytes).read n = some bytes := by
  have hentry : (fs.store fill n bytes).entry n = some (fs.target n) := fs.entry_create_self n
  have hcontent : (fs.store fill n bytes).content (fs.target n) = bytes := by
    unfold store
    rw [content_write_self, content_create_target]
    exact overlay_end fill [] bytes
  simp [read, hentry, hcontent]

theorem read_store_of_ne [DecidableEq ν] (fill : β) {m n : ν} (bytes : List β) (h : m ≠ n) :
    (fs.store fill n bytes).read m = fs.read m := by
  have hentry : (fs.create n).entry m ≠ some (fs.target n) := by
    rw [fs.entry_create_of_ne h]
    exact fun hm => h (fs.target_fresh hm)
  rw [store, read_write_of_ne _ fill 0 bytes hentry, fs.read_create_of_ne h]

/-! Contents without a name. -/

/-- No name leads to the content, and it has been handed out. -/
structure Orphan (i : Nat) : Prop where
  old : i < fs.next
  nameless : ∀ n, fs.entry n ≠ some i

variable {fs}

theorem Orphan.create [DecidableEq ν] {i : Nat} (h : fs.Orphan i) (n : ν) :
    (fs.create n).Orphan i := by
  refine ⟨Nat.lt_succ_of_lt h.old, fun m hm => ?_⟩
  by_cases hmn : m = n
  · subst hmn
    rw [fs.entry_create_self] at hm
    have htarget := Option.some.inj hm
    cases hentry : fs.entry m with
    | none =>
      rw [fs.target_of_none hentry] at htarget
      exact absurd h.old (htarget ▸ Nat.lt_irrefl _)
    | some j =>
      rw [fs.target_of_entry hentry] at htarget
      exact h.nameless m (htarget ▸ hentry)
  · rw [fs.entry_create_of_ne hmn] at hm
    exact h.nameless m hm

theorem Orphan.unlink [DecidableEq ν] {i : Nat} (h : fs.Orphan i) (n : ν) :
    (fs.unlink n).Orphan i := by
  refine ⟨h.old, fun m hm => ?_⟩
  by_cases hmn : m = n
  · subst hmn
    cases (fs.entry_unlink_self m).symm.trans hm
  · exact h.nameless m ((fs.entry_unlink_of_ne hmn).symm.trans hm)

theorem Orphan.write {i : Nat} (h : fs.Orphan i) (fill : β) (j offset : Nat) (bytes : List β) :
    (fs.write fill j offset bytes).Orphan i :=
  ⟨h.old, h.nameless⟩

theorem orphan_of_unlink [DecidableEq ν] {n : ν} {i : Nat} (h : fs.entry n = some i) :
    (fs.unlink n).Orphan i := by
  refine ⟨fs.known h, fun m hm => ?_⟩
  by_cases hmn : m = n
  · subst hmn
    cases (fs.entry_unlink_self m).symm.trans hm
  · exact hmn (fs.separate ((fs.entry_unlink_of_ne hmn).symm.trans hm) h)

/-- Two directories that differ in the content `i` alone. -/
structure AgreeBut (i : Nat) (fs gs : Fs ν β) : Prop where
  next : gs.next = fs.next
  entry : gs.entry = fs.entry
  content : ∀ j, j ≠ i → gs.content j = fs.content j

theorem AgreeBut.refl (i : Nat) (fs : Fs ν β) : AgreeBut i fs fs := ⟨rfl, rfl, fun _ _ => rfl⟩

theorem AgreeBut.target {i : Nat} {gs : Fs ν β} (h : AgreeBut i fs gs) (n : ν) :
    gs.target n = fs.target n := by
  rw [Fs.target, Fs.target, h.entry, h.next]

theorem AgreeBut.read {i : Nat} {gs : Fs ν β} (h : AgreeBut i fs gs) (horphan : fs.Orphan i) :
    gs.read = fs.read := by
  funext n
  unfold Fs.read
  rw [h.entry]
  cases hn : fs.entry n with
  | none => rfl
  | some j =>
    have hj : j ≠ i := fun he => horphan.nameless n (he ▸ hn)
    simp only [Option.map_some, h.content j hj]

theorem AgreeBut.create [DecidableEq ν] {i : Nat} {gs : Fs ν β} (h : AgreeBut i fs gs) (n : ν) :
    AgreeBut i (fs.create n) (gs.create n) := by
  refine ⟨congrArg (· + 1) h.next, ?_, fun j hj => ?_⟩
  · show Function.update gs.entry n _ = Function.update fs.entry n _
    rw [h.entry, h.target]
  · show Function.update gs.content _ _ j = Function.update fs.content _ _ j
    rw [h.target]
    by_cases htarget : j = fs.target n
    · rw [htarget, Function.update_self, Function.update_self]
    · rw [Function.update_of_ne htarget, Function.update_of_ne htarget, h.content j hj]

theorem AgreeBut.unlink [DecidableEq ν] {i : Nat} {gs : Fs ν β} (h : AgreeBut i fs gs) (n : ν) :
    AgreeBut i (fs.unlink n) (gs.unlink n) := by
  refine ⟨h.next, ?_, h.content⟩
  show Function.update gs.entry n none = Function.update fs.entry n none
  rw [h.entry]

theorem AgreeBut.write {i : Nat} {gs : Fs ν β} (h : AgreeBut i fs gs) (fill : β)
    (j offset : Nat) (bytes : List β) :
    AgreeBut i (fs.write fill j offset bytes) (gs.write fill j offset bytes) := by
  refine ⟨h.next, h.entry, fun l hl => ?_⟩
  show Function.update gs.content _ _ l = Function.update fs.content _ _ l
  by_cases hlj : l = j
  · subst hlj
    rw [Function.update_self, Function.update_self, h.content l hl]
  · rw [Function.update_of_ne hlj, Function.update_of_ne hlj, h.content l hl]

theorem AgreeBut.write_left {i : Nat} {gs : Fs ν β} (h : AgreeBut i fs gs) (fill : β)
    (offset : Nat) (bytes : List β) : AgreeBut i (fs.write fill i offset bytes) gs :=
  ⟨h.next, h.entry, fun j hj => by
    rw [fs.content_write_of_ne fill offset bytes hj, h.content j hj]⟩

end Fs

end MdsBlackbox.Lib.Files
