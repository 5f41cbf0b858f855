/- module: MdsBlackbox/Client/BlackBox
   source: CLIENT/rc_client/rc_client.c
   digest: What the dumps of all episodes record, and what of it the SD card holds in the end. -/

import MdsBlackbox.Client.EpisodeSteps
import MdsBlackbox.Client.Recordings
import MdsBlackbox.Lib.Files

set_option autoImplicit false
set_option relaxedAutoImplicit false

namespace MdsBlackbox.Client.BlackBox

open MdsBlackbox.Lib.Transition
open MdsBlackbox.Lib.Files
open MdsBlackbox.Client.Processes
open MdsBlackbox.Client.Episodes
open MdsBlackbox.Client.EpisodeSteps
open MdsBlackbox.Client.Recordings

/-! The files. -/

inductive File
  | testMp4
  | card (name : String)
  deriving DecidableEq

abbrev Disk := Fs File UInt8

def storage (d : Disk) : Storage := ⟨d.read .testMp4, fun name => d.read (.card name)⟩

/-- The command `cp` of `mplayer_dump_copy`. -/
def copyFile (d : Disk) (name : String) (result : CpResult) : Disk :=
  match d.read .testMp4 with
  | none => d
  | some r =>
    match result with
    | .copied => d.store 0 (.card name) r
    | .failed => d
    | .truncated n => d.store 0 (.card name) (r.take n)

/-- The command `rm` of `mplayer_dump_copy`. -/
def removeFile (d : Disk) (ok : Bool) : Disk := if ok then d.unlink .testMp4 else d

theorem storage_store (d : Disk) (name : String) (r : Recording) :
    storage (d.store 0 (.card name) r) =
      { storage d with sdcard := Function.update (storage d).sdcard name (some r) } := by
  have htest : (d.store 0 (.card name) r).read .testMp4 = d.read .testMp4 :=
    d.read_store_of_ne 0 r (by simp)
  unfold storage
  rw [htest]
  congr 1
  funext m
  by_cases hm : m = name
  · subst hm
    rw [Function.update_self, d.read_store_self]
  · rw [Function.update_of_ne hm]
    exact d.read_store_of_ne 0 r (by simpa using hm)

theorem storage_copyFile (d : Disk) (name : String) (result : CpResult) :
    storage (copyFile d name result) = cp (storage d) name result := by
  unfold copyFile cp
  show storage _ = match d.read .testMp4 with | none => _ | some r => _
  cases d.read .testMp4 with
  | none => rfl
  | some r => cases result with
    | copied => exact storage_store d name r
    | failed => rfl
    | truncated n => exact storage_store d name (r.take n)

theorem storage_removeFile (d : Disk) (ok : Bool) :
    storage (removeFile d ok) = rm (storage d) ok := by
  cases ok with
  | false => rfl
  | true =>
    have hcard : ∀ name, (d.unlink .testMp4).read (.card name) = d.read (.card name) :=
      fun name => d.read_unlink_of_ne (by simp)
    simp only [removeFile, rm, if_true, storage, d.read_unlink_self, hcard]

/-! The system. -/

/-- What a process has of a file that it has opened. -/
structure Handle where
  content : Nat
  offset : Nat
  deriving DecidableEq

/-- The client with the files, and for each episode what its dump process has opened. -/
structure Box where
  client : ClientState
  disk : Disk
  handles : Nat → Option Handle

def Box.start (self : Nat) (disk : Disk) : Box := ⟨.start self, disk, fun _ => none⟩

inductive BoxEvent
  | client (e : ClientEvent)
  | openDump (k : Nat)
  | record (k : Nat) (bytes : List UInt8)
  | copy (k : Nat) (currTime : Int32) (result : CpResult)
  | remove (k : Nat) (ok : Bool)
  deriving DecidableEq

/-- The two commands act on the files too, and are events of their own. -/
def onFiles : ClientEvent → Bool
  | .resume _ .copy | .resume _ .remove => true
  | _ => false

/-- Any thread of the client takes a step, or a dump process opens its file, with truncation, or
writes to it where it has got to; the name may lead to another file by then, or nowhere. -/
def boxStep (s : Box) : BoxEvent → Option Box
  | .client e =>
    if onFiles e then none else (clientStep s.client e).map fun c => { s with client := c }
  | .openDump k =>
    if Dumping s.client k ∧ s.handles k = none then
      some { s with
        disk := s.disk.create .testMp4
        handles := Function.update s.handles k (some ⟨s.disk.target .testMp4, 0⟩) }
    else none
  | .record k bytes =>
    (s.handles k).bind fun h =>
      if Dumping s.client k then
        some { s with
          disk := s.disk.write 0 h.content h.offset bytes
          handles :=
            Function.update s.handles k (some { h with offset := h.offset + bytes.length }) }
      else none
  | .copy k currTime result =>
    (clientStep s.client (.resume k .copy)).map fun c =>
      { s with client := c, disk := copyFile s.disk (fileName currTime) result }
  | .remove k ok =>
    (clientStep s.client (.resume k .remove)).map fun c =>
      { s with client := c, disk := removeFile s.disk ok }

inductive BoxStep (s : Box) : BoxEvent → Box → Prop
  | client (e : ClientEvent) (c : ClientState) (hplain : onFiles e = false)
      (hc : clientStep s.client e = some c) : BoxStep s (.client e) { s with client := c }
  | openDump (k : Nat) (hd : Dumping s.client k) (hfree : s.handles k = none) :
      BoxStep s (.openDump k) { s with
        disk := s.disk.create .testMp4
        handles := Function.update s.handles k (some ⟨s.disk.target .testMp4, 0⟩) }
  | record (k : Nat) (bytes : List UInt8) (h : Handle) (hopen : s.handles k = some h)
      (hd : Dumping s.client k) :
      BoxStep s (.record k bytes) { s with
        disk := s.disk.write 0 h.content h.offset bytes
        handles := Function.update s.handles k (some { h with offset := h.offset + bytes.length }) }
  | copy (k : Nat) (currTime : Int32) (result : CpResult) (c : ClientState)
      (hc : clientStep s.client (.resume k .copy) = some c) :
      BoxStep s (.copy k currTime result)
        { s with client := c, disk := copyFile s.disk (fileName currTime) result }
  | remove (k : Nat) (ok : Bool) (c : ClientState)
      (hc : clientStep s.client (.resume k .remove) = some c) :
      BoxStep s (.remove k ok) { s with client := c, disk := removeFile s.disk ok }

theorem boxStep_inv {s t : Box} {e : BoxEvent} (hstep : boxStep s e = some t) :
    BoxStep s e t := by
  cases e with
  | client e =>
    simp only [boxStep] at hstep
    split_ifs at hstep with hplain
    obtain ⟨c, hc, rfl⟩ := Option.map_eq_some_iff.mp hstep
    exact .client e c (by simpa using hplain) hc
  | openDump k =>
    simp only [boxStep] at hstep
    split_ifs at hstep with hd
    obtain rfl := Option.some.inj hstep
    exact .openDump k hd.1 hd.2
  | record k bytes =>
    obtain ⟨h, hopen, hstep⟩ := Option.bind_eq_some_iff.mp hstep
    split_ifs at hstep with hd
    obtain rfl := Option.some.inj hstep
    exact .record k bytes h hopen hd
  | copy k currTime result =>
    obtain ⟨c, hc, rfl⟩ := Option.map_eq_some_iff.mp hstep
    exact .copy k currTime result c hc
  | remove k ok =>
    obtain ⟨c, hc, rfl⟩ := Option.map_eq_some_iff.mp hstep
    exact .remove k ok c hc

theorem BoxStep.enabled {s t : Box} {e : BoxEvent} (h : BoxStep s e t) : boxStep s e = some t := by
  cases h with
  | client e c hplain hc => simp [boxStep, hplain, hc]
  | openDump k hd hfree => simp [boxStep, hd, hfree]
  | record k bytes h hopen hd => simp [boxStep, hopen, hd]
  | copy k currTime result c hc => simp [boxStep, hc]
  | remove k ok c hc => simp [boxStep, hc]

/-! What is recorded, and what is kept of it. -/

def recordOf (k : Nat) : BoxEvent → List UInt8
  | .record j bytes => if j = k then bytes else []
  | _ => []

/-- All that the dump process of an episode has recorded. -/
def recordedBy (k : Nat) (es : List BoxEvent) : Recording := es.flatMap (recordOf k)

theorem recordedBy_concat (k : Nat) (es : List BoxEvent) (e : BoxEvent) :
    recordedBy k (es ++ [e]) = recordedBy k es ++ recordOf k e := by
  simp [recordedBy]

/-- `mplayer_close` comes in time, and each `cp` copies the whole file under a name that is new. -/
def Orderly (s : Box) : BoxEvent → Prop
  | .client e => InTime s.client e
  | .copy k currTime result => InTime s.client (.resume k .copy) ∧ result = .copied ∧
      (storage s.disk).sdcard (fileName currTime) = none
  | _ => True

/-- The handle stands at the end of the file that /root/test.mp4 leads to, which holds `r`. -/
structure Current (d : Disk) (h : Handle) (r : Recording) : Prop where
  entry : d.entry .testMp4 = some h.content
  content : d.content h.content = r
  offset : h.offset = r.length

theorem Current.testMp4 {d : Disk} {h : Handle} {r : Recording} (hcur : Current d h r) :
    (storage d).testMp4 = some r := by
  simp [storage, Fs.read, hcur.entry, hcur.content]

theorem Current.store {d : Disk} {h : Handle} {r : Recording} (hcur : Current d h r)
    (name : String) (bytes : Recording) : Current (d.store 0 (.card name) bytes) h r := by
  have hother : h.content ≠ d.target (.card name) := by
    intro he
    cases d.target_fresh (he ▸ hcur.entry)
  have hname : File.testMp4 ≠ .card name := by simp
  refine ⟨?_, ?_, hcur.offset⟩
  · exact (d.entry_create_of_ne hname).trans hcur.entry
  · rw [Fs.store, Fs.content_write_of_ne _ _ _ _ hother, d.content_create_of_ne hother]
    exact hcur.content

theorem Current.copyFile {d : Disk} {h : Handle} {r : Recording} (hcur : Current d h r)
    (name : String) (result : CpResult) : Current (copyFile d name result) h r := by
  unfold BlackBox.copyFile
  split
  · exact hcur
  · split
    · exact hcur.store name _
    · exact hcur
    · exact hcur.store name _

theorem Current.record {d : Disk} {h : Handle} {r : Recording} (hcur : Current d h r)
    (bytes : List UInt8) :
    Current (d.write 0 h.content h.offset bytes) { h with offset := h.offset + bytes.length }
      (r ++ bytes) := by
  refine ⟨hcur.entry, ?_, ?_⟩
  · show (d.write 0 h.content h.offset bytes).content h.content = _
    rw [Fs.content_write_self, hcur.content, hcur.offset, Fs.overlay_end]
  · show h.offset + bytes.length = _
    rw [hcur.offset, List.length_append]

theorem current_create (d : Disk) : Current (d.create .testMp4) ⟨d.target .testMp4, 0⟩ [] :=
  ⟨d.entry_create_self _, d.content_create_target _, rfl⟩

theorem card_create (d : Disk) : (storage (d.create .testMp4)).sdcard = (storage d).sdcard := by
  funext name
  exact d.read_create_of_ne (by simp)

theorem Current.card_write {d : Disk} {h : Handle} {r : Recording} (hcur : Current d h r)
    (offset : Nat) (bytes : List UInt8) :
    (storage (d.write 0 h.content offset bytes)).sdcard = (storage d).sdcard := by
  funext name
  refine d.read_write_of_ne 0 offset bytes fun hname => ?_
  cases d.separate hcur.entry hname

/-- What holds after the events `es`, the card holding `card` before them. -/
structure Faithful (card : String → Option Recording) (es : List BoxEvent) (s : Box) : Prop where
  client : Coherent s.client
  dumped : ∀ k h, s.handles k = some h → ∃ ep, s.client.episodes[k]? = some ep
  opened : ∀ k, .openDump k ∈ es → ∃ h, s.handles k = some h
  silent : ∀ k, s.handles k = none → recordedBy k es = []
  current : ∀ k h ep, s.handles k = some h → s.client.episodes[k]? = some ep →
    pastCopy ep.resume = false → Current s.disk h (recordedBy k es)
  past : ∀ k time, .copy k time .copied ∈ es →
    ∃ ep, s.client.episodes[k]? = some ep ∧ pastCopy ep.resume = true
  copied : ∀ k time h, .copy k time .copied ∈ es → s.handles k = some h →
    (storage s.disk).sdcard (fileName time) = some (recordedBy k es)
  kept : ∀ name c, card name = some c → (storage s.disk).sdcard name = some c

theorem faithful_start (self : Nat) (disk : Disk) :
    Faithful (storage disk).sdcard [] (.start self disk) where
  client := coherent_start self
  dumped := by simp [Box.start]
  opened := by simp
  silent := by simp [recordedBy]
  current := by simp [Box.start]
  past := by simp
  copied := by simp
  kept := fun _ _ h => h

section Updates

variable {f : Nat → Option Handle} {j k : Nat} {a b : Handle}

theorem update_eq_some :
    Function.update f k (some a) j = some b ↔ j = k ∧ a = b ∨ j ≠ k ∧ f j = some b := by
  by_cases hjk : j = k
  · subst hjk
    simp
  · simp [hjk]

theorem update_eq_none : Function.update f k (some a) j = none ↔ j ≠ k ∧ f j = none := by
  by_cases hjk : j = k
  · subst hjk
    simp
  · simp [hjk]

end Updates

section Steps

variable {card : String → Option Recording} {es : List BoxEvent} {s : Box}

theorem Faithful.dumping_unique (hF : Faithful card es s) {j k : Nat} {ep : Episode}
    (hd : Dumping s.client k) (hep : s.client.episodes[j]? = some ep)
    (hpending : pastCopy ep.resume = false) : j = k := by
  obtain ⟨ep', hep', hpending'⟩ := hd.pending hF.client
  exact hF.client.pending_unique hep hep' (copyReturned_of_pending hpending)
    (copyReturned_of_pending hpending')

theorem Faithful.not_past (hF : Faithful card es s) {k : Nat} (hd : Dumping s.client k)
    (time : Int32) : .copy k time .copied ∉ es := by
  intro hmem
  obtain ⟨ep, hep, hpast⟩ := hF.past k time hmem
  obtain ⟨ep', hep', hpending⟩ := hd.pending hF.client
  obtain rfl := Option.some.inj (hep.symm.trans hep')
  cases hpast.symm.trans hpending

theorem Faithful.current_client (hF : Faithful card es s) {e : ClientEvent} {c : ClientState}
    (hc : clientStep s.client e = some c) {k : Nat} {h : Handle} {ep : Episode}
    (hopen : s.handles k = some h) (hep : c.episodes[k]? = some ep)
    (hpending : pastCopy ep.resume = false) :
    ∃ ep₀, s.client.episodes[k]? = some ep₀ ∧ pastCopy ep₀.resume = false ∧
      Current s.disk h (recordedBy k es) := by
  rcases episode_step hc hep with ⟨ep₀, hep₀, hes⟩ | ⟨hnone, _⟩
  · cases hbefore : pastCopy ep₀.resume with
    | false => exact ⟨ep₀, hep₀, hbefore, hF.current k h ep₀ hopen hep₀ hbefore⟩
    | true => cases hpending.symm.trans (hes.stays_past hF.client hep₀ hbefore)
  · obtain ⟨ep₀, hep₀⟩ := hF.dumped k h hopen
    cases hnone.symm.trans hep₀

theorem Faithful.client_step (hF : Faithful card es s) {e : ClientEvent} {c : ClientState}
    (hguard : InTime s.client e) (hc : clientStep s.client e = some c) :
    Faithful card (es ++ [.client e]) { s with client := c } := by
  have hrec : ∀ k, recordedBy k (es ++ [.client e]) = recordedBy k es := by
    simp [recordedBy_concat, recordOf]
  constructor
  · exact hF.client.step hguard hc
  · intro k h hopen
    obtain ⟨ep, hep⟩ := hF.dumped k h hopen
    exact episode_kept hc hep
  · intro k hmem
    exact hF.opened k (by simpa using hmem)
  · intro k hnone
    rw [hrec]
    exact hF.silent k hnone
  · intro k h ep hopen hep hpending
    rw [hrec]
    obtain ⟨_, _, _, hcur⟩ := hF.current_client hc hopen hep hpending
    exact hcur
  · intro k time hmem
    obtain ⟨ep₀, hep₀, hpast⟩ := hF.past k time (by simpa using hmem)
    exact hF.client.past_client hc hep₀ hpast
  · intro k time h hmem hopen
    rw [hrec]
    exact hF.copied k time h (by simpa using hmem) hopen
  · exact hF.kept

theorem Faithful.openDump_step (hF : Faithful card es s) {k : Nat} (hd : Dumping s.client k)
    (hfree : s.handles k = none) :
    Faithful card (es ++ [.openDump k]) { s with
      disk := s.disk.create .testMp4
      handles := Function.update s.handles k (some ⟨s.disk.target .testMp4, 0⟩) } := by
  have hrec : ∀ j, recordedBy j (es ++ [.openDump k]) = recordedBy j es := by
    simp [recordedBy_concat, recordOf]
  constructor
  · exact hF.client
  · intro j h hopen
    rcases update_eq_some.mp hopen with ⟨rfl, _⟩ | ⟨_, hopen⟩
    · obtain ⟨ep, hep, _⟩ := hd
      exact ⟨ep, hep⟩
    · exact hF.dumped j h hopen
  · intro j hmem
    by_cases hjk : j = k
    · exact ⟨_, update_eq_some.mpr (Or.inl ⟨hjk, rfl⟩)⟩
    · obtain ⟨h, hopen⟩ := hF.opened j (by simpa [hjk] using hmem)
      exact ⟨h, update_eq_some.mpr (Or.inr ⟨hjk, hopen⟩)⟩
  · intro j hnone
    rw [hrec]
    exact hF.silent j (update_eq_none.mp hnone).2
  · intro j h ep hopen hep hpending
    -- the file is truncated, and no other episode needs it any more
    obtain rfl := hF.dumping_unique hd hep hpending
    rcases update_eq_some.mp hopen with ⟨_, rfl⟩ | ⟨hne, _⟩
    · rw [hrec, hF.silent j hfree]
      exact current_create s.disk
    · exact absurd rfl hne
  · intro j time hmem
    exact hF.past j time (by simpa using hmem)
  · intro j time h hmem hopen
    replace hmem : .copy j time .copied ∈ es := by simpa using hmem
    rcases update_eq_some.mp hopen with ⟨rfl, _⟩ | ⟨_, hopen⟩
    · exact absurd hmem (hF.not_past hd time)
    · rw [card_create, hrec]
      exact hF.copied j time h hmem hopen
  · intro name c hcard
    rw [card_create]
    exact hF.kept name c hcard

theorem Faithful.record_step (hF : Faithful card es s) {k : Nat} (bytes : List UInt8) {h : Handle}
    (hopen : s.handles k = some h) (hd : Dumping s.client k) :
    Faithful card (es ++ [.record k bytes]) { s with
      disk := s.disk.write 0 h.content h.offset bytes
      handles := Function.update s.handles k
        (some { h with offset := h.offset + bytes.length }) } := by
  have hrec : ∀ j, j ≠ k → recordedBy j (es ++ [.record k bytes]) = recordedBy j es := by
    intro j hjk
    simp [recordedBy_concat, recordOf, Ne.symm hjk]
  obtain ⟨ep, hep, hpending⟩ := hd.pending hF.client
  have hcur := hF.current k h ep hopen hep hpending
  constructor
  · exact hF.client
  · intro j h' hopen'
    rcases update_eq_some.mp hopen' with ⟨rfl, _⟩ | ⟨_, hopen'⟩
    · exact ⟨ep, hep⟩
    · exact hF.dumped j h' hopen'
  · intro j hmem
    obtain ⟨h', hopen'⟩ := hF.opened j (by simpa using hmem)
    by_cases hjk : j = k
    · exact ⟨_, update_eq_some.mpr (Or.inl ⟨hjk, rfl⟩)⟩
    · exact ⟨h', update_eq_some.mpr (Or.inr ⟨hjk, hopen'⟩)⟩
  · intro j hnone
    obtain ⟨hjk, hnone⟩ := update_eq_none.mp hnone
    rw [hrec j hjk]
    exact hF.silent j hnone
  · intro j h' ep' hopen' hep' hpending'
    obtain rfl := hF.dumping_unique hd hep' hpending'
    rcases update_eq_some.mp hopen' with ⟨_, rfl⟩ | ⟨hne, _⟩
    · rw [recordedBy_concat, recordOf, if_pos rfl]
      exact hcur.record bytes
    · exact absurd rfl hne
  · intro j time hmem
    exact hF.past j time (by simpa using hmem)
  · intro j time h' hmem hopen'
    replace hmem : .copy j time .copied ∈ es := by simpa using hmem
    rcases update_eq_some.mp hopen' with ⟨rfl, _⟩ | ⟨hjk, hopen'⟩
    · exact absurd hmem (hF.not_past hd time)
    · rw [hcur.card_write, hrec j hjk]
      exact hF.copied j time h' hmem hopen'
  · intro name c hcard
    rw [hcur.card_write]
    exact hF.kept name c hcard

theorem Faithful.copy_step (hF : Faithful card es s) {k : Nat} {currTime : Int32} {c : ClientState}
    (hguard : InTime s.client (.resume k .copy))
    (hnew : (storage s.disk).sdcard (fileName currTime) = none)
    (hc : clientStep s.client (.resume k .copy) = some c) :
    Faithful card (es ++ [.copy k currTime .copied])
      { s with client := c, disk := copyFile s.disk (fileName currTime) .copied } := by
  have hrec : ∀ j, recordedBy j (es ++ [.copy k currTime .copied]) = recordedBy j es := by
    simp [recordedBy_concat, recordOf]
  -- the name is new: what is on the card already has other names
  have hold : ∀ name r, (storage s.disk).sdcard name = some r →
      (storage (copyFile s.disk (fileName currTime) .copied)).sdcard name = some r := by
    intro name r hname
    have hne : name ≠ fileName currTime := by
      rintro rfl
      cases hnew.symm.trans hname
    rw [storage_copyFile, cp]
    split
    · exact hname
    · exact (Function.update_of_ne hne ..).trans hname
  constructor
  · exact hF.client.step hguard hc
  · intro j h hopen
    obtain ⟨ep, hep⟩ := hF.dumped j h hopen
    exact episode_kept hc hep
  · intro j hmem
    exact hF.opened j (by simpa using hmem)
  · intro j hnone
    rw [hrec]
    exact hF.silent j hnone
  · intro j h ep hopen hep hpending
    rw [hrec]
    obtain ⟨_, _, _, hcur⟩ := hF.current_client hc hopen hep hpending
    exact hcur.copyFile (fileName currTime) .copied
  · intro j time hmem
    rcases List.mem_append.mp hmem with hmem | hmem
    · obtain ⟨ep₀, hep₀, hpast⟩ := hF.past j time hmem
      exact hF.client.past_client hc hep₀ hpast
    · obtain ⟨rfl, rfl⟩ : j = k ∧ time = currTime := by simpa using hmem
      obtain ⟨ep, u, r, _, hr, hep⟩ := resume_step hc
      obtain ⟨_, rfl⟩ := (resumeThread_pastCopy hr).1 rfl
      exact ⟨_, hep, rfl⟩
  · intro j time h hmem hopen
    rw [hrec]
    rcases List.mem_append.mp hmem with hmem | hmem
    · exact hold _ _ (hF.copied j time h hmem hopen)
    · obtain ⟨rfl, rfl⟩ : j = k ∧ time = currTime := by simpa using hmem
      obtain ⟨ep, u, r, hep, hr, _⟩ := resume_step hc
      have hcur := hF.current j h ep hopen hep ((resumeThread_pastCopy hr).1 rfl).1
      rw [storage_copyFile, cp, hcur.testMp4]
      exact Function.update_self ..
  · intro name c hcard
    exact hold _ _ (hF.kept name c hcard)

theorem Faithful.remove_step (hF : Faithful card es s) {k : Nat} (ok : Bool) {c : ClientState}
    (hc : clientStep s.client (.resume k .remove) = some c) :
    Faithful card (es ++ [.remove k ok]) { s with client := c, disk := removeFile s.disk ok } := by
  have hrec : ∀ j, recordedBy j (es ++ [.remove k ok]) = recordedBy j es := by
    simp [recordedBy_concat, recordOf]
  have hcard : (storage (removeFile s.disk ok)).sdcard = (storage s.disk).sdcard := by
    rw [storage_removeFile, rm_sdcard]
  constructor
  · have htime : InTime s.client (.resume k .remove) := trivial
    exact hF.client.step htime hc
  · intro j h hopen
    obtain ⟨ep, hep⟩ := hF.dumped j h hopen
    exact episode_kept hc hep
  · intro j hmem
    exact hF.opened j (by simpa using hmem)
  · intro j hnone
    rw [hrec]
    exact hF.silent j hnone
  · intro j h ep hopen hep hpending
    -- the episode whose file is removed is past its copy, and it alone is before its reset
    exfalso
    obtain ⟨ep₀, hep₀, hbefore, _⟩ := hF.current_client hc hopen hep hpending
    obtain ⟨ep', u, r, hep', hr, _⟩ := resume_step hc
    generalize hfrom : ep'.resume = r₀ at hr
    cases resumeStep hr
    have hjk := hF.client.pending_unique hep₀ hep' (copyReturned_of_pending hbefore)
      (hfrom ▸ rfl)
    subst hjk
    obtain rfl := Option.some.inj (hep₀.symm.trans hep')
    rw [hfrom] at hbefore
    cases hbefore
  · intro j time hmem
    obtain ⟨ep₀, hep₀, hpast⟩ := hF.past j time (by simpa using hmem)
    exact hF.client.past_client hc hep₀ hpast
  · intro j time h hmem hopen
    rw [hrec, hcard]
    exact hF.copied j time h (by simpa using hmem) hopen
  · intro name c hname
    rw [hcard]
    exact hF.kept name c hname

end Steps

theorem faithful_run {self : Nat} {disk : Disk} {es : List BoxEvent} {s : Box}
    (hrun : run boxStep (.start self disk) es = some s)
    (guard : EachStep boxStep Orderly (.start self disk) es) :
    Faithful (storage disk).sdcard es s := by
  refine guarded_induction (I := Faithful (storage disk).sdcard) (faithful_start self disk) ?_
    guard hrun
  intro es e t u hF hguard hu
  cases boxStep_inv hu with
  | client e c _ hc => exact hF.client_step hguard hc
  | openDump k hd hfree => exact hF.openDump_step hd hfree
  | record k bytes h hopen hd => exact hF.record_step bytes hopen hd
  | copy k currTime result c hc =>
    obtain ⟨htime, rfl, hnew⟩ := hguard
    exact hF.copy_step htime hnew hc
  | remove k ok c hc => exact hF.remove_step ok hc

/-- In every orderly run, over any disk: once the recording of an episode has been copied, the card
holds in its file exactly the bytes that the dump of this episode has recorded, whatever else goes
on, and all files that were on the card before are still there. -/
theorem recordings_on_card {self : Nat} {disk : Disk} {es : List BoxEvent} {s : Box}
    (hrun : run boxStep (.start self disk) es = some s)
    (guard : EachStep boxStep Orderly (.start self disk) es) :
    (∀ k time, .copy k time .copied ∈ es → .openDump k ∈ es →
      (storage s.disk).sdcard (fileName time) = some (recordedBy k es)) ∧
    ∀ name r, (storage disk).sdcard name = some r → (storage s.disk).sdcard name = some r := by
  have hF := faithful_run hrun guard
  refine ⟨fun k time hcopy hopen => ?_, hF.kept⟩
  obtain ⟨h, hh⟩ := hF.opened k hopen
  exact hF.copied k time h hcopy hh

instance (s : Box) : (e : BoxEvent) → Decidable (Orderly s e)
  | .client e => inferInstanceAs (Decidable (InTime s.client e))
  | .copy k currTime result => inferInstanceAs (Decidable
      (InTime s.client (.resume k .copy) ∧ result = .copied ∧
        (storage s.disk).sdcard (fileName currTime) = none))
  | .openDump _ | .record _ _ | .remove _ _ => isTrue trivial

def emptyDisk : Disk := ⟨fun _ => [], 0, fun _ => none, by simp, by simp⟩

/-- The orderly episode of the client, with what its dump records. -/
def recordedEpisode : List BoxEvent :=
  [.client (.streamPlay 101), .client (.openFifo 1), .client .activation, .client .mark,
    .client .createDump, .client .createResume, .client (.dump 0 (.quit 102)), .client (.finish 2),
    .client (.finish 1), .client (.dump 0 .quitReturns), .client (.dump 0 (.dump 103)), .openDump 0,
    .record 0 [1, 2], .client (.resume 0 .wake), .client (.resume 0 .scan),
    .client (.resume 0 .scan), .client (.resume 0 .scan), .client (.resume 0 .scan),
    .record 0 [3], .client (.resume 0 .kill), .client (.finish 3), .copy 0 1400000000 .copied,
    .remove 0 true]

theorem recordings_on_card_recordedEpisode :
    ∃ s, run boxStep (.start 100 emptyDisk) recordedEpisode = some s ∧
      (storage s.disk).sdcard (fileName 1400000000) = some [1, 2, 3] := by
  have hrun : ∃ s, run boxStep (.start 100 emptyDisk) recordedEpisode = some s := ⟨_, rfl⟩
  obtain ⟨s, hs⟩ := hrun
  exact ⟨s, hs, (recordings_on_card hs (by decide)).1 0 1400000000 (by decide) (by decide)⟩

end MdsBlackbox.Client.BlackBox
