/- module: MdsBlackbox/Client/Recordings
   source: CLIENT/rc_client/rc_client.c
   digest: The recordings on the SD card, with failing copies and repeating clock readings. -/

import Mathlib.Data.List.TakeDrop
import Mathlib.Logic.Function.Basic
import MdsBlackbox.Lib.Transition

set_option autoImplicit false
set_option relaxedAutoImplicit false

namespace MdsBlackbox.Client.Recordings

open MdsBlackbox.Lib.Transition

abbrev Recording := List UInt8

/-- The file /root/test.mp4, and the files under /mnt/sdcard by name. -/
structure Storage where
  testMp4 : Option Recording
  sdcard : String → Option Recording

/-- How `cp` ends when it finds its source: with the whole file, without having touched the
destination (no such directory, a card that cannot be written), or after `n` bytes (card full). -/
inductive CpResult
  | copied
  | failed
  | truncated (n : Nat)
  deriving DecidableEq

/-- The name that `sprintf` makes of a clock reading with "%ld.mp4". -/
def fileName (currTime : Int32) : String := toString currTime.toInt ++ ".mp4"

/-- `cp /root/test.mp4` to a file of the card, which it opens with truncation. -/
def cp (s : Storage) (name : String) (result : CpResult) : Storage :=
  match s.testMp4 with
  | none => s
  | some r =>
    match result with
    | .copied => { s with sdcard := Function.update s.sdcard name (some r) }
    | .failed => s
    | .truncated n => { s with sdcard := Function.update s.sdcard name (some (r.take n)) }

def rm (s : Storage) (ok : Bool) : Storage := if ok then { s with testMp4 := none } else s

/-- Both commands, one after the other; the result of neither is looked at. -/
def mplayerDumpCopy (s : Storage) (currTime : Int32) (result : CpResult) (removed : Bool) :
    Storage :=
  rm (cp s (fileName currTime) result) removed

inductive StorageEvent
  | dump (r : Recording)
  | dumpCopy (currTime : Int32) (result : CpResult) (removed : Bool)
  deriving DecidableEq

/-- A dump writes a new recording, or `mplayer_dump_copy` is called. -/
def storageStep (s : Storage) : StorageEvent → Option Storage
  | .dump r => some { s with testMp4 := some r }
  | .dumpCopy currTime result removed => some (mplayerDumpCopy s currTime result removed)

/-- A call leaves the recording complete in one of the two places, and all files of the card as they
were. -/
def Kept (s : Storage) : StorageEvent → Prop
  | .dumpCopy currTime result removed =>
    let t := mplayerDumpCopy s currTime result removed
    (∀ r, s.testMp4 = some r → t.testMp4 = some r ∨ ∃ name, t.sdcard name = some r) ∧
      ∀ name c, s.sdcard name = some c → t.sdcard name = some c
  | .dump _ => True

/-- The condition on the card, the clock and the two commands: a destination that `cp` writes is new
or already has what `cp` writes, and where `cp` has not written the whole recording, `rm` fails or
another file holds the recording. -/
def Safe (s : Storage) : StorageEvent → Prop
  | .dumpCopy currTime result removed => ∀ r, s.testMp4 = some r →
    match result with
    | .copied => ∀ c, s.sdcard (fileName currTime) = some c → c = r
    | .failed => removed = false ∨ ∃ name, s.sdcard name = some r
    | .truncated n =>
      (∀ c, s.sdcard (fileName currTime) = some c → c = r.take n) ∧
        (removed = false ∨ r.length ≤ n ∨
          ∃ name, name ≠ fileName currTime ∧ s.sdcard name = some r)
  | .dump _ => True

theorem rm_sdcard (s : Storage) (ok : Bool) : (rm s ok).sdcard = s.sdcard := by
  cases ok <;> rfl

theorem rm_testMp4 (s : Storage) (ok : Bool) (r : Recording) :
    (rm s ok).testMp4 = some r ↔ ok = false ∧ s.testMp4 = some r := by
  cases ok <;> simp [rm]

/-! One file written. -/

theorem update_keeps_iff {card : String → Option Recording} {name : String} {w : Recording} :
    (∀ n c, card n = some c → Function.update card name (some w) n = some c) ↔
      ∀ c, card name = some c → c = w := by
  constructor
  · intro h c hc
    have hnew := h name c hc
    rw [Function.update_self] at hnew
    exact (Option.some.inj hnew).symm
  · intro h n c hc
    by_cases hn : n = name
    · subst hn
      rw [Function.update_self, h c hc]
    · rw [Function.update_of_ne hn]
      exact hc

theorem update_holds_iff {card : String → Option Recording} {name : String} {w r : Recording} :
    (∃ n, Function.update card name (some w) n = some r) ↔
      w = r ∨ ∃ n, n ≠ name ∧ card n = some r := by
  constructor
  · rintro ⟨n, hn⟩
    by_cases he : n = name
    · subst he
      rw [Function.update_self] at hn
      exact Or.inl (Option.some.inj hn)
    · rw [Function.update_of_ne he] at hn
      exact Or.inr ⟨n, he, hn⟩
  · rintro (rfl | ⟨n, he, hn⟩)
    · exact ⟨name, Function.update_self ..⟩
    · exact ⟨n, by rw [Function.update_of_ne he, hn]⟩

/-! One call. -/

theorem kept_iff_safe (s : Storage) (e : StorageEvent) : Kept s e ↔ Safe s e := by
  cases e with
  | dump r => exact Iff.rfl
  | dumpCopy currTime result removed =>
    simp only [Kept, Safe, mplayerDumpCopy, rm_sdcard, rm_testMp4]
    cases hsrc : s.testMp4 with
    | none => simp [cp, hsrc]
    | some r =>
      simp only [Option.some.injEq, forall_eq']
      cases result with
      | copied =>
        simp only [cp, hsrc, update_keeps_iff, update_holds_iff]
        simp
      | failed =>
        simp only [cp, hsrc]
        simp
      | truncated n =>
        simp only [cp, hsrc, update_keeps_iff, update_holds_iff, and_true,
          List.take_eq_self_iff]
        exact and_comm

theorem stored_of_safe {s t : Storage} {es : List StorageEvent} (h : EachStep storageStep Safe s es)
    (hrun : run storageStep s es = some t) {name : String} {c : Recording}
    (hc : s.sdcard name = some c) : t.sdcard name = some c := by
  refine guarded_induction (I := fun _ t => t.sdcard name = some c) hc ?_ h hrun
  intro _ e u v hu hsafe hv
  have hkept : Kept u e := (kept_iff_safe u e).mpr hsafe
  cases e with
  | dump r =>
    obtain rfl := Option.some.inj hv
    exact hu
  | dumpCopy currTime result removed =>
    obtain rfl := Option.some.inj hv
    exact hkept.2 name c hu

/-- In every sequence of dumps and calls, over any card, all recordings are kept exactly when every
call is made under the condition. -/
theorem recordings_kept_iff (s : Storage) (es : List StorageEvent) :
    EachStep storageStep Kept s es ↔ EachStep storageStep Safe s es := by
  constructor
  · intro h pre e t hp ht
    exact (kept_iff_safe t e).mp (h pre e t hp ht)
  · intro h pre e t hp ht
    exact (kept_iff_safe t e).mpr (h pre e t hp ht)

theorem recording_lost : ¬ ∀ (s : Storage) (es : List StorageEvent),
    EachStep storageStep Kept s es := by
  -- the card is missing: `cp` fails, and `rm` removes the only copy
  intro h
  have hkept := h ⟨some [1], fun _ => none⟩ [.dumpCopy 1400000000 .failed true] [] _ _
    (List.prefix_refl _) rfl
  obtain ⟨hlost, _⟩ := hkept
  rcases hlost [1] rfl with hroot | ⟨name, hcard⟩
  · cases hroot
  · cases hcard

end MdsBlackbox.Client.Recordings
