/- module: MdsBlackbox/Client/LateRecording
   source: CLIENT/rc_client/rc_client.c
   digest: A dump that goes on after `mplayer_dump_copy` has removed the file it writes. -/

import MdsBlackbox.Client.BlackBox

set_option autoImplicit false
set_option relaxedAutoImplicit false

namespace MdsBlackbox.Client.LateRecording

open MdsBlackbox.Lib.Transition
open MdsBlackbox.Lib.Files
open MdsBlackbox.Client.Episodes
open MdsBlackbox.Client.EpisodeSteps
open MdsBlackbox.Client.Recordings
open MdsBlackbox.Client.BlackBox

/-- What a process has opened is the file that /root/test.mp4 leads to, or has no name any more. -/
def Owned (s : Box) : Prop :=
  ∀ k h, s.handles k = some h →
    s.disk.entry .testMp4 = some h.content ∨ s.disk.Orphan h.content

theorem owned_copyFile {d : Disk} {i : Nat} (h : d.entry .testMp4 = some i ∨ d.Orphan i)
    (name : String) (result : CpResult) :
    (copyFile d name result).entry .testMp4 = some i ∨ (copyFile d name result).Orphan i := by
  have hstore : ∀ r, (d.store 0 (.card name) r).entry .testMp4 = some i ∨
      (d.store 0 (.card name) r).Orphan i := by
    intro r
    have hname : File.testMp4 ≠ .card name := by simp
    exact h.imp (fun he => (d.entry_create_of_ne hname).trans he)
      (fun ho => (ho.create (.card name)).write 0 _ 0 r)
  unfold copyFile
  split
  · exact h
  · split
    · exact hstore _
    · exact h
    · exact hstore _

theorem owned_step {s t : Box} {e : BoxEvent} (h : Owned s) (hstep : boxStep s e = some t) :
    Owned t := by
  intro k hk hopen
  cases boxStep_inv hstep with
  | client e c _ _ => exact h k hk hopen
  | openDump j _ _ =>
    rcases update_eq_some.mp hopen with ⟨_, rfl⟩ | ⟨_, hopen⟩
    · exact Or.inl (s.disk.entry_create_self _)
    · refine (h k hk hopen).imp (fun he => ?_) (fun ho => ho.create _)
      rw [s.disk.entry_create_self, s.disk.target_of_entry he]
  | record j bytes hj hopenj _ =>
    have hmono : ∀ i, s.disk.entry .testMp4 = some i ∨ s.disk.Orphan i →
        (s.disk.write 0 hj.content hj.offset bytes).entry .testMp4 = some i ∨
          (s.disk.write 0 hj.content hj.offset bytes).Orphan i :=
      fun i hi => hi.imp id fun ho => ho.write _ _ _ _
    rcases update_eq_some.mp hopen with ⟨_, rfl⟩ | ⟨_, hopen⟩
    · exact hmono _ (h j hj hopenj)
    · exact hmono _ (h k hk hopen)
  | copy j currTime result c _ => exact owned_copyFile (h k hk hopen) _ _
  | remove j ok c _ =>
    cases ok with
    | false => exact h k hk hopen
    | true =>
      right
      rcases h k hk hopen with he | ho
      · exact Fs.orphan_of_unlink he
      · exact ho.unlink _

/-- All events but what the dump of episode `k` records. -/
def notBy (k : Nat) : BoxEvent → Bool
  | .record j _ => j ≠ k
  | _ => true

/-- The same client and the same files, but for one that has no name and that the dump of episode
`k` has open. -/
structure Unseen (k i : Nat) (s t : Box) : Prop where
  client : t.client = s.client
  disk : Fs.AgreeBut i s.disk t.disk
  orphan : s.disk.Orphan i
  others : ∀ j, j ≠ k → t.handles j = s.handles j
  left : ∃ o, s.handles k = some ⟨i, o⟩
  right : ∃ o, t.handles k = some ⟨i, o⟩

theorem Unseen.same_files {k i : Nat} {s t : Box} (h : Unseen k i s t) :
    storage t.disk = storage s.disk := by
  rw [storage, storage, h.disk.read h.orphan]

theorem agree_copyFile {i : Nat} {d d' : Disk} (h : Fs.AgreeBut i d d') (ho : d.Orphan i)
    (name : String) (result : CpResult) :
    Fs.AgreeBut i (copyFile d name result) (copyFile d' name result) ∧
      (copyFile d name result).Orphan i := by
  have hstore : ∀ r, Fs.AgreeBut i (d.store 0 (.card name) r) (d'.store 0 (.card name) r) ∧
      (d.store 0 (.card name) r).Orphan i := by
    intro r
    refine ⟨?_, (ho.create _).write _ _ _ _⟩
    unfold Fs.store
    rw [h.target]
    exact (h.create _).write _ _ _ _
  unfold copyFile
  rw [h.read ho]
  cases d.read .testMp4 with
  | none => exact ⟨h, ho⟩
  | some r =>
    cases result with
    | copied => exact hstore r
    | failed => exact ⟨h, ho⟩
    | truncated n => exact hstore _

theorem update_others {k j : Nat} {f g : Nat → Option Handle} {a : Option Handle}
    (h : ∀ l, l ≠ k → g l = f l) :
    ∀ l, l ≠ k → Function.update g j a l = Function.update f j a l := by
  intro l hl
  by_cases hlj : l = j
  · subst hlj
    rw [Function.update_self, Function.update_self]
  · rw [Function.update_of_ne hlj, Function.update_of_ne hlj, h l hl]

theorem unseen_visible {k i : Nat} {s t u : Box} {e : BoxEvent} (h : Unseen k i s t)
    (hkept : notBy k e = true) (hstep : boxStep s e = some u) :
    ∃ v, boxStep t e = some v ∧ Unseen k i u v := by
  obtain ⟨o, hleft⟩ := h.left
  obtain ⟨o', hright⟩ := h.right
  cases boxStep_inv hstep with
  | client e c hplain hc =>
    refine ⟨_, (BoxStep.client e c hplain (h.client ▸ hc)).enabled, ?_⟩
    exact ⟨rfl, h.disk, h.orphan, h.others, h.left, h.right⟩
  | openDump j hd hfree =>
    have hjk : j ≠ k := by
      rintro rfl
      cases hleft.symm.trans hfree
    have hfree' : t.handles j = none := (h.others j hjk).trans hfree
    refine ⟨_, (BoxStep.openDump j (h.client ▸ hd) hfree').enabled, ?_⟩
    refine ⟨h.client, h.disk.create _, h.orphan.create _, ?_, ⟨o, ?_⟩, ⟨o', ?_⟩⟩
    · rw [h.disk.target]
      exact update_others h.others
    · exact (Function.update_of_ne hjk.symm ..).trans hleft
    · exact (Function.update_of_ne hjk.symm ..).trans hright
  | record j bytes hj hopen hd =>
    have hjk : j ≠ k := by simpa [notBy] using hkept
    have hopen' : t.handles j = some hj := (h.others j hjk).trans hopen
    refine ⟨_, (BoxStep.record j bytes hj hopen' (h.client ▸ hd)).enabled, ?_⟩
    refine ⟨h.client, h.disk.write _ _ _ _, h.orphan.write _ _ _ _, update_others h.others,
      ⟨o, ?_⟩, ⟨o', ?_⟩⟩
    · exact (Function.update_of_ne hjk.symm ..).trans hleft
    · exact (Function.update_of_ne hjk.symm ..).trans hright
  | copy j currTime result c hc =>
    obtain ⟨hagree, horphan⟩ := agree_copyFile h.disk h.orphan (fileName currTime) result
    refine ⟨_, (BoxStep.copy j currTime result c (h.client ▸ hc)).enabled, ?_⟩
    exact ⟨rfl, hagree, horphan, h.others, h.left, h.right⟩
  | remove j ok c hc =>
    refine ⟨_, (BoxStep.remove j ok c (h.client ▸ hc)).enabled, ⟨rfl, ?_, ?_, h.others, h.left,
      h.right⟩⟩
    · cases ok
      · exact h.disk
      · exact h.disk.unlink _
    · cases ok
      · exact h.orphan
      · exact h.orphan.unlink _

theorem unseen_hidden {k i : Nat} {s t u : Box} {e : BoxEvent} (h : Unseen k i s t)
    (hdeleted : notBy k e = false) (hstep : boxStep s e = some u) : Unseen k i u t := by
  obtain ⟨o, hleft⟩ := h.left
  cases boxStep_inv hstep with
  | record j bytes hj hopen hd =>
    obtain rfl : j = k := by simpa [notBy] using hdeleted
    obtain rfl := Option.some.inj (hleft.symm.trans hopen)
    refine ⟨h.client, h.disk.write_left _ _ _, h.orphan.write _ _ _ _, ?_,
      ⟨o + bytes.length, Function.update_self ..⟩, h.right⟩
    intro l hl
    exact (h.others l hl).trans (Function.update_of_ne hl ..).symm
  | _ => cases hdeleted

/-- After `rm` has removed the file, whatever a dump that had opened it before still records is seen
by nobody: the client and the files are as in the run without those writes. -/
theorem recorded_after_removal_unseen {self : Nat} {disk : Disk} {es fs : List BoxEvent}
    {s t u : Box} {j k : Nat} (hrun : run boxStep (.start self disk) es = some s)
    (hremove : boxStep s (.remove j true) = some t) (hopen : (s.handles k).isSome)
    (hrest : run boxStep t fs = some u) :
    ∃ v, run boxStep t (fs.filter (notBy k)) = some v ∧ v.client = u.client ∧
      storage v.disk = storage u.disk := by
  have howned : Owned t := by
    have hstart : Owned (.start self disk) := by simp [Owned, Box.start]
    have hs : Owned s := invariant hstart (fun _ _ _ h he => owned_step h he) hrun
    exact owned_step hs hremove
  obtain ⟨h, hh⟩ := Option.isSome_iff_exists.mp hopen
  have hunseen : Unseen k h.content t t := by
    cases boxStep_inv hremove with
    | remove _ _ c hc =>
      refine ⟨rfl, .refl _ _, ?_, fun _ _ => rfl, ⟨h.offset, hh⟩, ⟨h.offset, hh⟩⟩
      refine (howned k h hh).resolve_left fun he => ?_
      cases (s.disk.entry_unlink_self _).symm.trans he
  have hvisible : ∀ a b e c, Unseen k h.content a b → notBy k e = true → boxStep a e = some c →
      ∃ d, boxStep b e = some d ∧ Unseen k h.content c d :=
    fun _ _ _ _ hR hkept he => unseen_visible hR hkept he
  have hhidden : ∀ a b e c, Unseen k h.content a b → notBy k e = false → boxStep a e = some c →
      Unseen k h.content c b :=
    fun _ _ _ _ hR hdeleted he => unseen_hidden hR hdeleted he
  obtain ⟨v, hv, hR⟩ := run_filter hvisible hhidden hunseen hrest
  exact ⟨v, hv, hR.client, hR.same_files⟩

/-- The signal does not end the dump, and copy and removal find it still recording. -/
def unfinishedEpisode : List BoxEvent :=
  recordedEpisode.take 20 ++ [.copy 0 1400000000 .copied]

theorem recorded_after_removal_unseen_unfinished :
    ∃ s t u v, run boxStep (.start 100 emptyDisk) unfinishedEpisode = some s ∧
      boxStep s (.remove 0 true) = some t ∧ run boxStep t [.record 0 [4]] = some u ∧
      run boxStep t [] = some v ∧ storage v.disk = storage u.disk := by
  have hrun : ∃ s t u, run boxStep (.start 100 emptyDisk) unfinishedEpisode = some s ∧
      boxStep s (.remove 0 true) = some t ∧ (s.handles 0).isSome ∧
      run boxStep t [.record 0 [4]] = some u := ⟨_, _, _, rfl, rfl, rfl, rfl⟩
  obtain ⟨s, t, u, hs, hremove, hopen, hu⟩ := hrun
  obtain ⟨v, hv, _, hfiles⟩ := recorded_after_removal_unseen hs hremove hopen hu
  exact ⟨s, t, u, v, hs, hremove, hu, hv, hfiles⟩

end MdsBlackbox.Client.LateRecording
