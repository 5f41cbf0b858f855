/- module: MdsBlackbox/Client/DumpGuard
   source: CLIENT/rc_client/rc_client.c
   digest: The flag `dumping` between the reading thread, which sets it, and the resume threads. -/

import MdsBlackbox.Client.Episodes

set_option autoImplicit false
set_option relaxedAutoImplicit false

namespace MdsBlackbox.Client.DumpGuard

open MdsBlackbox.Lib.Transition
open MdsBlackbox.Client.Processes
open MdsBlackbox.Client.Episodes

/-- The thread has been created and has not yet executed `dumping = 0`. -/
def beforeReset : ResumeThread → Bool
  | .sleeping | .scanning _ | .killing _ | .settling _ | .copied | .removed => true
  | .absent | .cleared | .playing _ | .returned => false

/-- Both commands of `mplayer_dump_copy` are over. -/
def copyReturned : ResumeThread → Bool
  | .removed | .cleared | .playing _ | .returned => true
  | .absent | .sleeping | .scanning _ | .killing _ | .settling _ | .copied => false

/-- Between `dumping = 1` and the creation of the resume thread. -/
def Entering : TcpThread → Prop
  | .marked | .dumpCreated _ => True
  | .waiting | .tested => False

def resumes (s : ClientState) : List ResumeThread := s.episodes.map Episode.resume

/-! What a step does to the flag and to the threads around it. -/

theorem resumes_set {s : ClientState} {k : Nat} (ep : Episode) :
    (s.episodes.set k ep).map Episode.resume = (resumes s).set k ep.resume :=
  List.map_set

theorem resumes_getElem? {s : ClientState} {k : Nat} {ep : Episode}
    (h : s.episodes[k]? = some ep) : (resumes s)[k]? = some ep.resume := by
  simp [resumes, h]

inductive GuardStep (s t : ClientState) : ClientEvent → Prop
  | other {e : ClientEvent} (he : e ≠ .createResume) (htcp : t.tcp = s.tcp)
      (hflag : t.dumping = s.dumping) (hthreads : resumes t = resumes s) : GuardStep s t e
  | activation (hfrom : s.tcp = .waiting) (htcp : t.tcp = if s.dumping then .waiting else .tested)
      (hflag : t.dumping = s.dumping) (hthreads : resumes t = resumes s) :
      GuardStep s t .activation
  | mark (hfrom : s.tcp = .tested) (htcp : t.tcp = .marked) (hflag : t.dumping = true)
      (hthreads : resumes t = resumes s) : GuardStep s t .mark
  | createDump (hfrom : s.tcp = .marked) (htcp : t.tcp = .dumpCreated (resumes s).length)
      (hflag : t.dumping = s.dumping) (hthreads : resumes t = resumes s ++ [.absent]) :
      GuardStep s t .createDump
  | createResume (k : Nat) (hfrom : s.tcp = .dumpCreated k) (htcp : t.tcp = .waiting)
      (hflag : t.dumping = s.dumping) (hlt : k < (resumes s).length)
      (hthreads : resumes t = (resumes s).set k .sleeping) : GuardStep s t .createResume
  | resume (k : Nat) (e : ResumeEvent) (u : ProcTable) (r r' : ResumeThread)
      (hr : (resumes s)[k]? = some r) (hstep : resumeThread s.self s.table r e = some (u, r'))
      (htcp : t.tcp = s.tcp) (hflag : t.dumping = if e = .clear then false else s.dumping)
      (hthreads : resumes t = (resumes s).set k r') : GuardStep s t (.resume k e)

theorem guardStep {s t : ClientState} {e : ClientEvent} (hstep : clientStep s e = some t) :
    GuardStep s t e := by
  cases clientStep_inv hstep with
  | activation hfrom => exact .activation hfrom rfl rfl rfl
  | mark hfrom => exact .mark hfrom rfl rfl rfl
  | createDump hfrom =>
    refine .createDump hfrom ?_ rfl ?_
    · simp [resumes]
    · simp [resumes]
  | createResume k ep hfrom hep =>
    have hlt : k < (resumes s).length := (List.getElem?_eq_some_iff.mp (resumes_getElem? hep)).1
    exact .createResume k hfrom rfl rfl hlt (resumes_set _)
  | dump k e ep u d hep _ =>
    refine .other (by simp) rfl rfl ?_
    show (s.episodes.set k { ep with dump := d }).map Episode.resume = resumes s
    obtain ⟨hlt, hsame⟩ := List.getElem?_eq_some_iff.mp (resumes_getElem? hep)
    rw [resumes_set, ← hsame]
    exact List.set_getElem_self hlt
  | resume k e ep u r hep hr =>
    exact .resume k e u ep.resume r (resumes_getElem? hep) hr rfl rfl (resumes_set _)
  | _ => exact .other (by simp) rfl rfl rfl

theorem resumeThread_reset {self : Nat} {t u : ProcTable} {r r' : ResumeThread} {e : ResumeEvent}
    (h : resumeThread self t r e = some (u, r')) :
    r' ≠ .absent ∧ (e = .clear → beforeReset r = true ∧ beforeReset r' = false) ∧
      (e ≠ .clear → beforeReset r' = beforeReset r) := by
  cases resumeStep h with
  | scan i =>
    unfold scanTurn
    split_ifs
    · split
      · split_ifs <;> simp [beforeReset]
      · simp [beforeReset]
    · simp [beforeReset]
  | _ => simp [beforeReset]

/-! The invariant. -/

/-- How many resume threads are before their reset. -/
def unreset (s : ClientState) : Nat := (resumes s).countP beforeReset

/-- The flag is clear; or the reading thread has set it and has yet to create its resume thread; or
that thread has been created and has yet to clear it. -/
inductive Phase (s : ClientState) : Prop
  | free (hflag : s.dumping = false) (hcount : unreset s = 0) (htcp : ¬ Entering s.tcp) : Phase s
  | entering (hflag : s.dumping = true) (hcount : unreset s = 0) (htcp : Entering s.tcp) : Phase s
  | busy (hflag : s.dumping = true) (hcount : unreset s = 1) (htcp : s.tcp = .waiting) : Phase s

theorem unreset_congr {s t : ClientState} (h : resumes t = resumes s) : unreset t = unreset s :=
  congrArg (List.countP beforeReset) h

theorem unreset_set {s t : ClientState} {k : Nat} {r r' : ResumeThread}
    (hr : (resumes s)[k]? = some r) (h : resumes t = (resumes s).set k r') :
    unreset t + (beforeReset r).toNat = unreset s + (beforeReset r').toNat := by
  obtain ⟨hlt, rfl⟩ := List.getElem?_eq_some_iff.mp hr
  have hle : (beforeReset (resumes s)[k]).toNat ≤ (resumes s).countP beforeReset := by
    cases hk : beforeReset (resumes s)[k] with
    | false => exact Nat.zero_le _
    | true => exact List.one_le_countP_iff.mpr ⟨_, List.getElem_mem hlt, hk⟩
  unfold unreset
  rw [h, List.countP_set hlt]
  cases hk : beforeReset (resumes s)[k] <;> cases beforeReset r' <;> rw [hk] at hle <;>
    simp only [Bool.toNat_true, Bool.toNat_false, if_true, Bool.false_eq_true,
      if_false] at hle ⊢ <;>
    omega

theorem Phase.of_same {s t : ClientState} (h : Phase s) (hflag : t.dumping = s.dumping)
    (hcount : unreset t = unreset s) (htcp : t.tcp = s.tcp) : Phase t := by
  cases h with
  | free hf hc ht => exact .free (hflag.trans hf) (hcount.trans hc) (htcp ▸ ht)
  | entering hf hc ht => exact .entering (hflag.trans hf) (hcount.trans hc) (htcp ▸ ht)
  | busy hf hc ht => exact .busy (hflag.trans hf) (hcount.trans hc) (htcp.trans ht)

theorem Phase.step {s t : ClientState} {e : ClientEvent} (h : Phase s) (hstep : GuardStep s t e) :
    Phase t := by
  cases hstep with
  | other _ htcp hflag hthreads => exact h.of_same hflag (unreset_congr hthreads) htcp
  | activation hfrom htcp hflag hthreads =>
    have hcount := unreset_congr hthreads
    cases h with
    | free hf hc _ =>
      refine .free (hflag.trans hf) (hcount.trans hc) ?_
      rw [htcp, hf]
      exact id
    | entering _ _ ht =>
      rw [hfrom] at ht
      exact ht.elim
    | busy hf hc _ =>
      refine .busy (hflag.trans hf) (hcount.trans hc) ?_
      rw [htcp, hf]
      rfl
  | mark hfrom htcp hflag hthreads =>
    have hcount := unreset_congr hthreads
    cases h with
    | free _ hc _ =>
      refine .entering hflag (hcount.trans hc) ?_
      rw [htcp]
      trivial
    | entering _ _ ht =>
      rw [hfrom] at ht
      exact ht.elim
    | busy _ _ ht => cases hfrom.symm.trans ht
  | createDump hfrom htcp hflag hthreads =>
    have hcount : unreset t = unreset s := by
      unfold unreset
      rw [hthreads, List.countP_append]
      rfl
    cases h with
    | free _ _ ht =>
      rw [hfrom] at ht
      exact absurd trivial ht
    | entering hf hc _ =>
      refine .entering (hflag.trans hf) (hcount.trans hc) ?_
      rw [htcp]
      trivial
    | busy _ _ ht => cases hfrom.symm.trans ht
  | createResume k hfrom htcp hflag hlt hthreads =>
    cases h with
    | free _ _ ht =>
      rw [hfrom] at ht
      exact absurd trivial ht
    | entering hf hc _ =>
      -- no thread is before its reset, so the new one is the only one
      have hold : beforeReset (resumes s)[k] = false := by
        have hnone := List.countP_eq_zero.mp hc _ (List.getElem_mem hlt)
        simpa using hnone
      have hset := unreset_set (List.getElem?_eq_getElem hlt) hthreads
      rw [hold, hc] at hset
      exact .busy (hflag.trans hf) hset htcp
    | busy _ _ ht => cases hfrom.symm.trans ht
  | resume k e u r r' hr hres htcp hflag hthreads =>
    obtain ⟨_, hclear, hkeep⟩ := resumeThread_reset hres
    have hset := unreset_set hr hthreads
    by_cases he : e = .clear
    · obtain ⟨hbefore, hafter⟩ := hclear he
      rw [hbefore, hafter, Bool.toNat_true, Bool.toNat_false] at hset
      rw [if_pos he] at hflag
      cases h with
      | free _ hc _ => omega
      | entering _ hc _ => omega
      | busy _ hc ht =>
        refine .free hflag (by omega) ?_
        rw [htcp, ht]
        exact id
    · rw [if_neg he] at hflag
      rw [hkeep he] at hset
      exact h.of_same hflag (by omega) htcp

/-- Only the latest episode can be without its resume thread, and only until it is created. -/
structure Indexed (s : ClientState) : Prop where
  latest : ∀ k, s.tcp = .dumpCreated k → k + 1 = (resumes s).length
  absent : ∀ j, (resumes s)[j]? = some .absent → s.tcp = .dumpCreated j

theorem Indexed.of_ne {s t : ClientState} (h : Indexed s) (hfrom : ∀ k, s.tcp ≠ .dumpCreated k)
    (hto : ∀ k, t.tcp ≠ .dumpCreated k) (hthreads : resumes t = resumes s) : Indexed t where
  latest k hk := absurd hk (hto k)
  absent j hj := by
    rw [hthreads] at hj
    exact absurd (h.absent j hj) (hfrom j)

theorem Indexed.step {s t : ClientState} {e : ClientEvent} (h : Indexed s)
    (hstep : GuardStep s t e) : Indexed t := by
  cases hstep with
  | other _ htcp _ hthreads =>
    constructor
    · rw [htcp, hthreads]
      exact h.latest
    · rw [htcp, hthreads]
      exact h.absent
  | activation hfrom htcp _ hthreads =>
    refine h.of_ne (by simp [hfrom]) (fun k => ?_) hthreads
    rw [htcp]
    split_ifs <;> simp
  | mark hfrom htcp _ hthreads => exact h.of_ne (by simp [hfrom]) (by simp [htcp]) hthreads
  | createDump hfrom htcp _ hthreads =>
    constructor
    · intro k hk
      rw [htcp] at hk
      obtain rfl := TcpThread.dumpCreated.inj hk
      rw [hthreads, List.length_append, List.length_singleton]
    · intro j hj
      have hlen := (List.getElem?_eq_some_iff.mp hj).1
      rw [hthreads, List.length_append, List.length_singleton] at hlen
      rw [htcp]
      rcases Nat.lt_or_ge j (resumes s).length with hlt | hge
      · rw [hthreads, List.getElem?_append_left hlt] at hj
        cases hfrom.symm.trans (h.absent j hj)
      · have hj : j = (resumes s).length := by omega
        rw [hj]
  | createResume k hfrom htcp _ hlt hthreads =>
    constructor
    · simp [htcp]
    · intro j hj
      rw [hthreads, List.getElem?_set] at hj
      split_ifs at hj with hkj
      · cases hj
      · have hother := TcpThread.dumpCreated.inj (hfrom.symm.trans (h.absent j hj))
        exact absurd hother hkj
  | resume k e u r r' hr hres htcp _ hthreads =>
    constructor
    · rw [htcp, hthreads, List.length_set]
      exact h.latest
    · intro j hj
      rw [hthreads, List.getElem?_set] at hj
      rw [htcp]
      split_ifs at hj
      · exact absurd (Option.some.inj hj) (resumeThread_reset hres).1
      · exact h.absent j hj

/-! Whole runs. -/

theorem guard_invariant {self : Nat} {es : List ClientEvent} {s : ClientState}
    (hrun : run clientStep (.start self) es = some s) : Phase s ∧ Indexed s := by
  refine invariant (I := fun s => Phase s ∧ Indexed s) ⟨?_, ?_⟩ ?_ hrun
  · exact .free rfl rfl id
  · constructor <;> simp [ClientState.start, resumes]
  · rintro t e u ⟨hphase, hindexed⟩ he
    exact ⟨hphase.step (guardStep he), hindexed.step (guardStep he)⟩

/-- When the next resume thread is created, all earlier ones are through `mplayer_dump_copy`. -/
def AfterCopies (s : ClientState) : ClientEvent → Prop
  | .createResume => ∀ k, s.tcp = .dumpCreated k → k + 1 = s.episodes.length ∧
      ∀ j < k, ∀ ep ∈ s.episodes[j]?, copyReturned ep.resume = true
  | _ => True

theorem copyReturned_of_reset {r : ResumeThread} (hcreated : r ≠ .absent)
    (hreset : beforeReset r ≠ true) : copyReturned r = true := by
  cases r <;> simp [beforeReset, copyReturned] at hcreated hreset ⊢

theorem afterCopies_of_invariant {s : ClientState} (hphase : Phase s) (hindexed : Indexed s)
    (e : ClientEvent) : AfterCopies s e := by
  cases e with
  | createResume =>
    intro k hk
    have hnone : unreset s = 0 := by
      cases hphase with
      | free _ hc _ => exact hc
      | entering _ hc _ => exact hc
      | busy _ _ ht => cases hk.symm.trans ht
    refine ⟨?_, fun j hj ep hep => ?_⟩
    · have hlatest := hindexed.latest k hk
      rwa [resumes, List.length_map] at hlatest
    · have hthread : (resumes s)[j]? = some ep.resume := resumes_getElem? hep
      refine copyReturned_of_reset (fun habsent => ?_) ?_
      · rw [habsent] at hthread
        have hj' := TcpThread.dumpCreated.inj (hk.symm.trans (hindexed.absent j hthread))
        omega
      · exact List.countP_eq_zero.mp hnone _ (List.mem_of_getElem? hthread)
  | _ => trivial

/-- In every state of a run, the flag is set exactly while the reading thread enters the branch or
one resume thread is before its reset; there are never two such threads, and each resume thread is
created after all earlier copies. -/
theorem dumping_guards {self : Nat} {es : List ClientEvent} {s : ClientState}
    (hrun : run clientStep (.start self) es = some s) :
    (s.dumping = true ↔ Entering s.tcp ∨ unreset s = 1) ∧ unreset s ≤ 1 ∧
      EachStep clientStep AfterCopies (.start self) es := by
  obtain ⟨hphase, _⟩ := guard_invariant hrun
  refine ⟨?_, ?_, ?_⟩
  · cases hphase with
    | free hf hc ht => simp [hf, hc, ht]
    | entering hf _ ht => simp [hf, ht]
    | busy hf hc _ => simp [hf, hc]
  · cases hphase with
    | free _ hc _ => omega
    | entering _ hc _ => omega
    | busy _ hc _ => omega
  · intro pre e t _ ht
    obtain ⟨hphase, hindexed⟩ := guard_invariant ht
    exact afterCopies_of_invariant hphase hindexed e

/-- A second episode after the first one. -/
def twoEpisodes : List ClientEvent :=
  orderlyEpisode ++ [.activation, .resume 0 .clear, .activation, .mark, .createDump, .createResume]

theorem dumping_guards_twoEpisodes :
    ∃ s, run clientStep (.start 100) twoEpisodes = some s ∧ s.dumping = true ∧ unreset s = 1 ∧
      EachStep clientStep AfterCopies (.start 100) twoEpisodes := by
  have hrun : ∃ s, run clientStep (.start 100) twoEpisodes = some s ∧ s.dumping = true ∧
      s.tcp = .waiting := ⟨_, rfl, rfl, rfl⟩
  obtain ⟨s, hs, hon, hwaiting⟩ := hrun
  obtain ⟨hiff, _, heach⟩ := dumping_guards hs
  have hout : ¬ Entering s.tcp := by
    rw [hwaiting]
    exact id
  exact ⟨s, hs, hon, (hiff.mp hon).resolve_left hout, heach⟩

end MdsBlackbox.Client.DumpGuard
