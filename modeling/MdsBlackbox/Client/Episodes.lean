/- module: MdsBlackbox/Client/Episodes
   source: CLIENT/rc_client/rc_client.c
   digest: Alarm episodes: playback, recording and resumption as unjoined threads of the client. -/

import MdsBlackbox.Client.Processes
import MdsBlackbox.Lib.Transition

set_option autoImplicit false
set_option relaxedAutoImplicit false

namespace MdsBlackbox.Client.Episodes

open MdsBlackbox.Lib.Transition
open MdsBlackbox.Client.Processes

/-! The threads. A thread in `system` waits for the process with the given serial number; `sleep`
is a state that the thread may leave at any time. -/

inductive StreamThread
  | starting
  | playing (n : Nat)
  | returned
  deriving DecidableEq

/-- `mplayer_dump_thread`: `mplayer_cmd quit`, `sleep(1)`, the dump. -/
inductive DumpThread
  | starting
  | quitting (n : Nat)
  | sleeping
  | dumping (n : Nat)
  | returned
  deriving DecidableEq

/-- `mplayer_resume_thread`: `sleep(10)`, the scan of `mplayer_close` with its `kill`, `sleep(3)`
after which it still holds the process that it has signalled, the two commands of
`mplayer_dump_copy`, the reset of `dumping`, and playback. -/
inductive ResumeThread
  | absent
  | sleeping
  | scanning (i : Nat)
  | killing (pid : Nat)
  | settling (victim : Option Nat)
  | copied
  | removed
  | cleared
  | playing (n : Nat)
  | returned
  deriving DecidableEq

/-- `tcp_read_thread` in its activation branch. -/
inductive TcpThread
  | waiting
  | tested
  | marked
  | dumpCreated (k : Nat)
  deriving DecidableEq

inductive DumpEvent
  | quit (pid : Nat)
  | quitReturns
  | dump (pid : Nat)
  | dumpReturns
  deriving DecidableEq

inductive ResumeEvent
  | wake
  | scan
  | kill
  | copy
  | remove
  | clear
  | play (pid : Nat)
  | playReturns
  deriving DecidableEq

def dumpThread (t : ProcTable) : DumpThread → DumpEvent → Option (ProcTable × DumpThread)
  | .starting, .quit pid =>
    (t.spawn pid "mplayer_cmd" .quitCmd).map fun u => (u, .quitting t.next)
  | .quitting n, .quitReturns => if t.Alive n then none else some (t, .sleeping)
  | .sleeping, .dump pid => (t.spawn pid "mplayer" .player).map fun u => (u, .dumping t.next)
  | .dumping n, .dumpReturns => if t.Alive n then none else some (t, .returned)
  | _, _ => none

/-- The test of `mplayer_close`, which compares the first seven characters. -/
def isMplayer (comm : String) : Bool := "mplayer".toList.isPrefixOf comm.toList

/-- One turn of the loop of `mplayer_close`, whose scan starts at the client's own pid. -/
def scanTurn (self : Nat) (t : ProcTable) (i : Nat) : ResumeThread :=
  if i < 1000 then
    match t.find (self + i) with
    | some p => if isMplayer p.comm then .killing (self + i) else .scanning (i + 1)
    | none => .scanning (i + 1)
  else .settling none

def resumeThread (self : Nat) (t : ProcTable) :
    ResumeThread → ResumeEvent → Option (ProcTable × ResumeThread)
  | .sleeping, .wake => some (t, .scanning 0)
  | .scanning i, .scan => some (t, scanTurn self t i)
  | .killing pid, .kill => some (t.kill pid, .settling ((t.find pid).map Proc.serial))
  | .settling _, .copy => some (t, .copied)
  | .copied, .remove => some (t, .removed)
  | .removed, .clear => some (t, .cleared)
  | .cleared, .play pid => (t.spawn pid "mplayer" .player).map fun u => (u, .playing t.next)
  | .playing n, .playReturns => if t.Alive n then none else some (t, .returned)
  | _, _ => none

/-! The system. -/

structure Episode where
  dump : DumpThread
  resume : ResumeThread
  deriving DecidableEq

structure ClientState where
  self : Nat
  table : ProcTable
  stream : StreamThread
  tcp : TcpThread
  dumping : Bool
  episodes : List Episode
  deriving DecidableEq

def ClientState.start (self : Nat) : ClientState where
  self := self
  table := ⟨[⟨0, self, "rc_client", .client, false, false⟩], 1⟩
  stream := .starting
  tcp := .waiting
  dumping := false
  episodes := []

inductive ClientEvent
  | streamPlay (pid : Nat)
  | streamReturns
  | activation
  | mark
  | createDump
  | createResume
  | dump (k : Nat) (e : DumpEvent)
  | resume (k : Nat) (e : ResumeEvent)
  | fork (pid : Nat) (comm : String)
  | openFifo (n : Nat)
  | finish (n : Nat)
  deriving DecidableEq

/-- Any thread takes its next step, a process starts, opens the FIFO or ends. -/
def clientStep (s : ClientState) : ClientEvent → Option ClientState
  | .streamPlay pid =>
    if s.stream = .starting then
      (s.table.spawn pid "mplayer" .player).map fun u =>
        { s with table := u, stream := .playing s.table.next }
    else none
  | .streamReturns =>
    match s.stream with
    | .playing n => if s.table.Alive n then none else some { s with stream := .returned }
    | _ => none
  | .activation =>
    if s.tcp = .waiting then some { s with tcp := if s.dumping then .waiting else .tested }
    else none
  | .mark => if s.tcp = .tested then some { s with tcp := .marked, dumping := true } else none
  | .createDump =>
    if s.tcp = .marked then
      some { s with
        tcp := .dumpCreated s.episodes.length
        episodes := s.episodes ++ [⟨.starting, .absent⟩] }
    else none
  | .createResume =>
    match s.tcp with
    | .dumpCreated k =>
      s.episodes[k]?.map fun ep =>
        { s with tcp := .waiting, episodes := s.episodes.set k { ep with resume := .sleeping } }
    | _ => none
  | .dump k e =>
    s.episodes[k]?.bind fun ep =>
      (dumpThread s.table ep.dump e).map fun r =>
        { s with table := r.1, episodes := s.episodes.set k { ep with dump := r.2 } }
  | .resume k e =>
    s.episodes[k]?.bind fun ep =>
      (resumeThread s.self s.table ep.resume e).map fun r =>
        { s with
          table := r.1
          dumping := if e = .clear then false else s.dumping
          episodes := s.episodes.set k { ep with resume := r.2 } }
  | .fork pid comm => (s.table.spawn pid comm .other).map fun u => { s with table := u }
  | .openFifo n => some { s with table := s.table.openFifo n }
  | .finish n => (s.table.finish n).map fun u => { s with table := u }

/-! The property and the condition. -/

def DumpThread.process : DumpThread → Option Nat
  | .dumping n => some n
  | _ => none

/-- The dump process of the thread has been started and has ended. -/
def DumpThread.Ended (t : ProcTable) (d : DumpThread) : Prop :=
  d = .returned ∨ ∃ n ∈ d.process, ¬ t.Alive n

instance (t : ProcTable) (d : DumpThread) : Decidable (d.Ended t) :=
  inferInstanceAs (Decidable (d = .returned ∨ ∃ n ∈ d.process, ¬ t.Alive n))

/-- Both commands of `mplayer_dump_copy` find the recording of their own episode finished. -/
def Finished (s : ClientState) : ClientEvent → Prop
  | .resume k .copy => ∀ ep ∈ s.episodes[k]?, ep.dump.Ended s.table
  | .resume k .remove => ∀ ep ∈ s.episodes[k]?, ep.dump.Ended s.table
  | _ => True

/-- The loop of `mplayer_close` has run out of pids. -/
def ResumeThread.exhausted : ResumeThread → Bool
  | .scanning i => !decide (i < 1000)
  | _ => false

def ResumeThread.target : ResumeThread → Option Nat
  | .killing pid => some pid
  | _ => none

def ResumeThread.victim : ResumeThread → Option Nat
  | .settling v => v
  | _ => none

/-- When `mplayer_close` ends without a match, the dump of the episode has ended; when it sends its
signal, the dump has ended or gets the signal; and at the copy the dump, or what got the signal, has
ended. -/
def InTime (s : ClientState) : ClientEvent → Prop
  | .resume k .scan =>
    ∀ ep ∈ s.episodes[k]?, ep.resume.exhausted = true → ep.dump.Ended s.table
  | .resume k .kill =>
    ∀ ep ∈ s.episodes[k]?, ∀ pid ∈ ep.resume.target, ep.dump.Ended s.table ∨
      ∃ n ∈ ep.dump.process, (s.table.find pid).map Proc.serial = some n
  | .resume k .copy =>
    ∀ ep ∈ s.episodes[k]?, ∀ n ∈ ep.resume.victim, ep.dump.Ended s.table ∨ ¬ s.table.Alive n
  | _ => True

/-! The dump thread. -/

theorem DumpThread.Ended.mono {t u : ProcTable} {d : DumpThread} (h : d.Ended t)
    (hev : Evolves t u) (hknown : ∀ n ∈ d.process, n < t.next) : d.Ended u := by
  rcases h with h | ⟨n, hn, hdead⟩
  · exact Or.inl h
  · exact Or.inr ⟨n, hn, fun halive => hdead (hev.ended n (hknown n hn) halive)⟩

inductive DumpStep (t : ProcTable) : DumpThread → DumpEvent → ProcTable → DumpThread → Prop
  | quit (pid : Nat) (u : ProcTable) (h : t.spawn pid "mplayer_cmd" .quitCmd = some u) :
      DumpStep t .starting (.quit pid) u (.quitting t.next)
  | quitReturns (n : Nat) (h : ¬ t.Alive n) : DumpStep t (.quitting n) .quitReturns t .sleeping
  | dump (pid : Nat) (u : ProcTable) (h : t.spawn pid "mplayer" .player = some u) :
      DumpStep t .sleeping (.dump pid) u (.dumping t.next)
  | dumpReturns (n : Nat) (h : ¬ t.Alive n) : DumpStep t (.dumping n) .dumpReturns t .returned

theorem dumpStep {t u : ProcTable} {d d' : DumpThread} {e : DumpEvent}
    (h : dumpThread t d e = some (u, d')) : DumpStep t d e u d' := by
  unfold dumpThread at h
  split at h
  · obtain ⟨w, hw, he⟩ := Option.map_eq_some_iff.mp h
    cases he
    exact .quit _ _ hw
  · split_ifs at h with hgone
    cases h
    exact .quitReturns _ hgone
  · obtain ⟨w, hw, he⟩ := Option.map_eq_some_iff.mp h
    cases he
    exact .dump _ _ hw
  · split_ifs at h with hgone
    cases h
    exact .dumpReturns _ hgone
  · cases h

theorem dumpThread_evolves {t u : ProcTable} {d d' : DumpThread} {e : DumpEvent}
    (h : dumpThread t d e = some (u, d')) :
    Evolves t u ∧ ∀ n ∈ d'.process, n < u.next := by
  cases dumpStep h with
  | quit pid _ hspawn => exact ⟨(evolves_spawn hspawn).1, by simp [DumpThread.process]⟩
  | dump pid _ hspawn =>
    have hnext := (evolves_spawn hspawn).2
    exact ⟨(evolves_spawn hspawn).1, by simp [DumpThread.process, hnext]⟩
  | quitReturns n _ => exact ⟨.refl _, by simp [DumpThread.process]⟩
  | dumpReturns n _ => exact ⟨.refl _, by simp [DumpThread.process]⟩

theorem dumpThread_started {t u : ProcTable} {d d' : DumpThread} {e : DumpEvent}
    (h : dumpThread t d e = some (u, d')) (hstarted : d.process.isSome ∨ d = .returned) :
    d'.Ended u := by
  cases dumpStep h with
  | dumpReturns n _ => exact Or.inl rfl
  | _ => simp [DumpThread.process] at hstarted

/-! The resume thread. -/

inductive ResumeStep (self : Nat) (t : ProcTable) :
    ResumeThread → ResumeEvent → ProcTable → ResumeThread → Prop
  | wake : ResumeStep self t .sleeping .wake t (.scanning 0)
  | scan (i : Nat) : ResumeStep self t (.scanning i) .scan t (scanTurn self t i)
  | kill (pid : Nat) : ResumeStep self t (.killing pid) .kill (t.kill pid)
      (.settling ((t.find pid).map Proc.serial))
  | copy (v : Option Nat) : ResumeStep self t (.settling v) .copy t .copied
  | remove : ResumeStep self t .copied .remove t .removed
  | clear : ResumeStep self t .removed .clear t .cleared
  | play (pid : Nat) (u : ProcTable) (h : t.spawn pid "mplayer" .player = some u) :
      ResumeStep self t .cleared (.play pid) u (.playing t.next)
  | playReturns (n : Nat) (h : ¬ t.Alive n) :
      ResumeStep self t (.playing n) .playReturns t .returned

theorem resumeStep {self : Nat} {t u : ProcTable} {r r' : ResumeThread} {e : ResumeEvent}
    (h : resumeThread self t r e = some (u, r')) : ResumeStep self t r e u r' := by
  unfold resumeThread at h
  split at h
  · cases h
    exact .wake
  · cases h
    exact .scan _
  · cases h
    exact .kill _
  · cases h
    exact .copy _
  · cases h
    exact .remove
  · cases h
    exact .clear
  · obtain ⟨w, hw, he⟩ := Option.map_eq_some_iff.mp h
    cases he
    exact .play _ _ hw
  · split_ifs at h with hgone
    cases h
    exact .playReturns _ hgone
  · cases h

theorem resumeThread_evolves {self : Nat} {t u : ProcTable} {r r' : ResumeThread} {e : ResumeEvent}
    (h : resumeThread self t r e = some (u, r')) : Evolves t u := by
  cases resumeStep h with
  | kill pid => exact evolves_kill _ _
  | play pid _ hspawn => exact (evolves_spawn hspawn).1
  | _ => exact .refl _

theorem scanTurn_settling {self : Nat} {t : ProcTable} {i : Nat} {v : Option Nat}
    (h : scanTurn self t i = .settling v) : ¬ i < 1000 := by
  intro hi
  rw [scanTurn, if_pos hi] at h
  split at h
  · split_ifs at h
  · cases h

theorem scanTurn_ne_copied (self : Nat) (t : ProcTable) (i : Nat) :
    scanTurn self t i ≠ .copied := by
  unfold scanTurn
  split_ifs
  · split
    · split_ifs <;> simp
    · simp
  · simp

/-! One event of the system. -/

inductive ClientStep (s : ClientState) : ClientEvent → ClientState → Prop
  | streamPlay (pid : Nat) (u : ProcTable) (hfrom : s.stream = .starting)
      (hu : s.table.spawn pid "mplayer" .player = some u) :
      ClientStep s (.streamPlay pid) { s with table := u, stream := .playing s.table.next }
  | streamReturns (n : Nat) (hfrom : s.stream = .playing n) (hgone : ¬ s.table.Alive n) :
      ClientStep s .streamReturns { s with stream := .returned }
  | activation (hfrom : s.tcp = .waiting) :
      ClientStep s .activation { s with tcp := if s.dumping then .waiting else .tested }
  | mark (hfrom : s.tcp = .tested) :
      ClientStep s .mark { s with tcp := .marked, dumping := true }
  | createDump (hfrom : s.tcp = .marked) :
      ClientStep s .createDump { s with
        tcp := .dumpCreated s.episodes.length
        episodes := s.episodes ++ [⟨.starting, .absent⟩] }
  | createResume (k : Nat) (ep : Episode) (hfrom : s.tcp = .dumpCreated k)
      (hep : s.episodes[k]? = some ep) :
      ClientStep s .createResume { s with
        tcp := .waiting, episodes := s.episodes.set k { ep with resume := .sleeping } }
  | dump (k : Nat) (e : DumpEvent) (ep : Episode) (u : ProcTable) (d : DumpThread)
      (hep : s.episodes[k]? = some ep) (hd : dumpThread s.table ep.dump e = some (u, d)) :
      ClientStep s (.dump k e)
        { s with table := u, episodes := s.episodes.set k { ep with dump := d } }
  | resume (k : Nat) (e : ResumeEvent) (ep : Episode) (u : ProcTable) (r : ResumeThread)
      (hep : s.episodes[k]? = some ep)
      (hr : resumeThread s.self s.table ep.resume e = some (u, r)) :
      ClientStep s (.resume k e) { s with
        table := u
        dumping := if e = .clear then false else s.dumping
        episodes := s.episodes.set k { ep with resume := r } }
  | fork (pid : Nat) (comm : String) (u : ProcTable)
      (hu : s.table.spawn pid comm .other = some u) :
      ClientStep s (.fork pid comm) { s with table := u }
  | openFifo (n : Nat) : ClientStep s (.openFifo n) { s with table := s.table.openFifo n }
  | finish (n : Nat) (u : ProcTable) (hu : s.table.finish n = some u) :
      ClientStep s (.finish n) { s with table := u }

theorem clientStep_inv {s t : ClientState} {e : ClientEvent} (hstep : clientStep s e = some t) :
    ClientStep s e t := by
  cases e with
  | streamPlay pid =>
    simp only [clientStep] at hstep
    split_ifs at hstep with hfrom
    obtain ⟨u, hu, rfl⟩ := Option.map_eq_some_iff.mp hstep
    exact .streamPlay pid u hfrom hu
  | streamReturns =>
    simp only [clientStep] at hstep
    split at hstep
    · rename_i n hfrom
      split_ifs at hstep with hgone
      obtain rfl := Option.some.inj hstep
      exact .streamReturns n hfrom hgone
    · cases hstep
  | activation =>
    simp only [clientStep] at hstep
    split_ifs at hstep with hfrom hflag <;> obtain rfl := Option.some.inj hstep
    · simpa [hflag] using ClientStep.activation hfrom
    · simpa [hflag] using ClientStep.activation hfrom
  | mark =>
    simp only [clientStep] at hstep
    split_ifs at hstep with hfrom
    obtain rfl := Option.some.inj hstep
    exact .mark hfrom
  | createDump =>
    simp only [clientStep] at hstep
    split_ifs at hstep with hfrom
    obtain rfl := Option.some.inj hstep
    exact .createDump hfrom
  | createResume =>
    simp only [clientStep] at hstep
    split at hstep
    · rename_i k hfrom
      obtain ⟨ep, hep, rfl⟩ := Option.map_eq_some_iff.mp hstep
      exact .createResume k ep hfrom hep
    · cases hstep
  | dump k e =>
    obtain ⟨ep, hep, hstep⟩ := Option.bind_eq_some_iff.mp hstep
    obtain ⟨⟨u, d⟩, hd, rfl⟩ := Option.map_eq_some_iff.mp hstep
    exact .dump k e ep u d hep hd
  | resume k e =>
    obtain ⟨ep, hep, hstep⟩ := Option.bind_eq_some_iff.mp hstep
    obtain ⟨⟨u, r⟩, hr, rfl⟩ := Option.map_eq_some_iff.mp hstep
    exact .resume k e ep u r hep hr
  | fork pid comm =>
    obtain ⟨u, hu, rfl⟩ := Option.map_eq_some_iff.mp hstep
    exact .fork pid comm u hu
  | openFifo n =>
    obtain rfl := Option.some.inj hstep
    exact .openFifo n
  | finish n =>
    obtain ⟨u, hu, rfl⟩ := Option.map_eq_some_iff.mp hstep
    exact .finish n u hu

/-! The invariant. -/

/-- What holds of an episode all the time, once `mplayer_close` is through, and after the copy. -/
structure Sound (t : ProcTable) (ep : Episode) : Prop where
  known : ∀ n ∈ ep.dump.process, n < t.next
  settled : ∀ v, ep.resume = .settling v → ep.dump.Ended t ∨ ∃ n ∈ ep.dump.process, v = some n
  copied : ep.resume = .copied → ep.dump.Ended t

def AllSound (s : ClientState) : Prop := ∀ ep ∈ s.episodes, Sound s.table ep

theorem Sound.mono {t u : ProcTable} {ep : Episode} (h : Sound t ep) (hev : Evolves t u) :
    Sound u ep where
  known n hn := Nat.lt_of_lt_of_le (h.known n hn) hev.next_le
  settled v hv := (h.settled v hv).imp (fun he => he.mono hev h.known) id
  copied hr := (h.copied hr).mono hev h.known

theorem AllSound.mono {s : ClientState} {u : ProcTable} (h : AllSound s) (hev : Evolves s.table u) :
    ∀ ep ∈ s.episodes, Sound u ep :=
  fun ep hep => (h ep hep).mono hev

theorem AllSound.set {s : ClientState} {u : ProcTable} {ep : Episode} (h : AllSound s)
    (hev : Evolves s.table u) (k : Nat) (hnew : Sound u ep) :
    ∀ ep' ∈ s.episodes.set k ep, Sound u ep' := by
  intro ep' hep'
  rcases List.mem_or_eq_of_mem_set hep' with hold | rfl
  · exact h.mono hev ep' hold
  · exact hnew

theorem Sound.dump {t u : ProcTable} {ep : Episode} {d : DumpThread} {e : DumpEvent}
    (h : Sound t ep) (hd : dumpThread t ep.dump e = some (u, d)) :
    Sound u { ep with dump := d } where
  known := (dumpThread_evolves hd).2
  settled v hv := by
    left
    rcases h.settled v hv with (hret | ⟨n, hn, _⟩) | ⟨n, hn, _⟩
    · exact dumpThread_started hd (Or.inr hret)
    · exact dumpThread_started hd (Or.inl (Option.isSome_of_mem hn))
    · exact dumpThread_started hd (Or.inl (Option.isSome_of_mem hn))
  copied hr := by
    rcases h.copied hr with hret | ⟨n, hn, _⟩
    · exact dumpThread_started hd (Or.inr hret)
    · exact dumpThread_started hd (Or.inl (Option.isSome_of_mem hn))

theorem Sound.ended_of_victim {t : ProcTable} {ep : Episode} {v : Option Nat} (h : Sound t ep)
    (hv : ep.resume = .settling v)
    (hgone : ∀ n ∈ ep.resume.victim, ep.dump.Ended t ∨ ¬ t.Alive n) : ep.dump.Ended t := by
  rcases h.settled v hv with he | ⟨n, hn, rfl⟩
  · exact he
  · have hvictim : n ∈ ep.resume.victim := by simp [ResumeThread.victim, hv]
    exact (hgone n hvictim).elim id fun hdead => Or.inr ⟨n, hn, hdead⟩

theorem Sound.resume {s : ClientState} {u : ProcTable} {k : Nat} {ep : Episode} {r : ResumeThread}
    {e : ResumeEvent} (h : Sound s.table ep) (hk : s.episodes[k]? = some ep)
    (hguard : InTime s (.resume k e))
    (hr : resumeThread s.self s.table ep.resume e = some (u, r)) :
    Sound u { ep with resume := r } := by
  have hev := resumeThread_evolves hr
  have hmono := h.mono hev
  generalize hfrom : ep.resume = r₀ at hr
  cases resumeStep hr with
  | scan i =>
    refine ⟨hmono.known, fun v hv => ?_, fun hc => absurd hc (scanTurn_ne_copied _ _ _)⟩
    have hlast := scanTurn_settling hv
    exact Or.inl (hguard ep hk (by simpa [hfrom, ResumeThread.exhausted] using hlast))
  | kill pid =>
    refine ⟨hmono.known, fun v hv => ?_, fun hc => nomatch hc⟩
    obtain rfl := ResumeThread.settling.inj hv
    have htarget : pid ∈ ep.resume.target := by simp [ResumeThread.target, hfrom]
    exact (hguard ep hk pid htarget).imp (fun he => he.mono hev h.known) id
  | copy v =>
    exact ⟨hmono.known, nofun, fun _ => h.ended_of_victim hfrom (hguard ep hk)⟩
  | _ => exact ⟨hmono.known, nofun, nofun⟩

theorem allSound_step {s t : ClientState} {e : ClientEvent} (h : AllSound s) (hguard : InTime s e)
    (hstep : clientStep s e = some t) : AllSound t := by
  cases clientStep_inv hstep with
  | streamPlay pid u _ hu => exact h.mono (evolves_spawn hu).1
  | fork pid comm u hu => exact h.mono (evolves_spawn hu).1
  | openFifo n => exact h.mono (evolves_openFifo _ _)
  | finish n u hu => exact h.mono (evolves_finish hu)
  | createDump _ =>
    intro ep hep
    rcases List.mem_append.mp hep with hold | hnew
    · exact h ep hold
    · obtain rfl := List.mem_singleton.mp hnew
      exact ⟨by simp [DumpThread.process], by simp, by simp⟩
  | createResume k ep _ hep =>
    have hold := h ep (List.mem_of_getElem? hep)
    exact h.set (.refl _) k ⟨hold.known, by simp, by simp⟩
  | dump k e ep u d hep hd =>
    have hold := h ep (List.mem_of_getElem? hep)
    exact h.set (dumpThread_evolves hd).1 k (hold.dump hd)
  | resume k e ep u r hep hr =>
    have hold := h ep (List.mem_of_getElem? hep)
    exact h.set (resumeThread_evolves hr) k (hold.resume hep hguard hr)
  | _ => exact h

/-! Whole runs. -/

theorem finished_of_sound {s t : ClientState} {e : ClientEvent} (h : AllSound s)
    (hguard : InTime s e) (hstep : clientStep s e = some t) : Finished s e := by
  cases clientStep_inv hstep with
  | resume k e ep u r hep hr =>
    have hold := h ep (List.mem_of_getElem? hep)
    have hnow : ∀ ep' ∈ s.episodes[k]?, ep' = ep := fun ep' hep' =>
      Option.some.inj (hep'.symm.trans hep)
    generalize hfrom : ep.resume = r₀ at hr
    cases resumeStep hr with
    | copy v =>
      intro ep' hep'
      obtain rfl := hnow ep' hep'
      exact hold.ended_of_victim hfrom (hguard _ hep)
    | remove =>
      intro ep' hep'
      obtain rfl := hnow ep' hep'
      exact hold.copied hfrom
    | _ => trivial
  | _ => trivial

/-- In every run in which `mplayer_close` always comes in time, each copy and each removal finds the
recording of its own episode started and ended. -/
theorem copies_finished {self : Nat} {es : List ClientEvent} {s : ClientState}
    (hrun : run clientStep (.start self) es = some s)
    (guard : EachStep clientStep InTime (.start self) es) :
    EachStep clientStep Finished (.start self) es :=
  eachStep_of_eachStep (I := AllSound) (by simp [AllSound, ClientState.start])
    (fun _ _ _ hs hg he => allSound_step hs hg he)
    (fun _ _ _ hs hg he => finished_of_sound hs hg he) hrun guard

instance (s : ClientState) : (e : ClientEvent) → Decidable (InTime s e)
  | .resume k .scan => inferInstanceAs (Decidable
      (∀ ep ∈ s.episodes[k]?, ep.resume.exhausted = true → ep.dump.Ended s.table))
  | .resume k .kill => inferInstanceAs (Decidable
      (∀ ep ∈ s.episodes[k]?, ∀ pid ∈ ep.resume.target, ep.dump.Ended s.table ∨
        ∃ n ∈ ep.dump.process, (s.table.find pid).map Proc.serial = some n))
  | .resume k .copy => inferInstanceAs (Decidable
      (∀ ep ∈ s.episodes[k]?, ∀ n ∈ ep.resume.victim, ep.dump.Ended s.table ∨ ¬ s.table.Alive n))
  | .resume _ .wake | .resume _ .remove | .resume _ .clear | .resume _ (.play _)
  | .resume _ .playReturns | .streamPlay _ | .streamReturns | .activation | .mark | .createDump
  | .createResume | .dump _ _ | .fork _ _ | .openFifo _ | .finish _ => isTrue trivial

/-- Playback quits, the dump runs until it is signalled, and then the recording is copied. -/
def orderlyEpisode : List ClientEvent :=
  [.streamPlay 101, .openFifo 1, .activation, .mark, .createDump, .createResume,
    .dump 0 (.quit 102), .finish 2, .finish 1, .dump 0 .quitReturns, .dump 0 (.dump 103),
    .resume 0 .wake, .resume 0 .scan, .resume 0 .scan, .resume 0 .scan, .resume 0 .scan,
    .resume 0 .kill, .finish 3, .resume 0 .copy, .resume 0 .remove]

theorem copies_finished_orderly :
    EachStep clientStep Finished (.start 100) orderlyEpisode := by
  have hrun : ∃ s, run clientStep (.start 100) orderlyEpisode = some s := ⟨_, rfl⟩
  obtain ⟨s, hs⟩ := hrun
  exact copies_finished hs (by decide)

/-- Playback has ended before the alarm: `mplayer_cmd` blocks, and the scan takes it for one. -/
def blockedEpisode : List ClientEvent :=
  [.streamPlay 101, .openFifo 1, .finish 1, .streamReturns, .activation, .mark, .createDump,
    .createResume, .dump 0 (.quit 102), .resume 0 .wake, .resume 0 .scan, .resume 0 .scan,
    .resume 0 .scan, .resume 0 .kill]

theorem copies_unfinished : ¬ ∀ (es : List ClientEvent) (s : ClientState),
    run clientStep (.start 100) es = some s → EachStep clientStep Finished (.start 100) es := by
  intro h
  have hall := h (blockedEpisode ++ [.resume 0 .copy]) _ rfl
  have hlast := hall.last (t := _) rfl ⟨.quitting 2, .settling (some 2)⟩ rfl
  exact absurd hlast (by decide)

end MdsBlackbox.Client.Episodes
