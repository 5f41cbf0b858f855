/- module: MdsBlackbox/Client/EpisodeSteps
   source: CLIENT/rc_client/rc_client.c
   digest: How one step of the client changes one episode, and which episodes can still record. -/

import MdsBlackbox.Client.DumpGuard

set_option autoImplicit false
set_option relaxedAutoImplicit false

namespace MdsBlackbox.Client.EpisodeSteps

open MdsBlackbox.Client.Processes
open MdsBlackbox.Client.Episodes
open MdsBlackbox.Client.DumpGuard

/-! How one step of the client changes one episode. -/

theorem client_evolves {s t : ClientState} {e : ClientEvent} (hstep : clientStep s e = some t) :
    Evolves s.table t.table := by
  cases clientStep_inv hstep with
  | streamPlay pid u _ hu => exact (evolves_spawn hu).1
  | dump k e ep u d _ hd => exact (dumpThread_evolves hd).1
  | resume k e ep u r _ hr => exact resumeThread_evolves hr
  | fork pid comm u hu => exact (evolves_spawn hu).1
  | openFifo n => exact evolves_openFifo _ _
  | finish n u hu => exact evolves_finish hu
  | _ => exact .refl _

inductive EpisodeStep (s t : ClientState) (k : Nat) (e : ClientEvent) : Episode → Episode → Prop
  | same (ep : Episode) : EpisodeStep s t k e ep ep
  | created (ep : Episode) (hfrom : s.tcp = .dumpCreated k) :
      EpisodeStep s t k e ep { ep with resume := .sleeping }
  | dump (ep : Episode) (de : DumpEvent) (d : DumpThread)
      (hd : dumpThread s.table ep.dump de = some (t.table, d)) :
      EpisodeStep s t k e ep { ep with dump := d }
  | resume (ep : Episode) (re : ResumeEvent) (r : ResumeThread) (he : e = .resume k re)
      (hr : resumeThread s.self s.table ep.resume re = some (t.table, r)) :
      EpisodeStep s t k e ep { ep with resume := r }

theorem episodeStep_set {s t : ClientState} {k j : Nat} {e : ClientEvent} {old new ep : Episode}
    (hold : s.episodes[j]? = some old) (hnew : j = k → EpisodeStep s t k e old new)
    (hep : (s.episodes.set j new)[k]? = some ep) :
    ∃ ep₀, s.episodes[k]? = some ep₀ ∧ EpisodeStep s t k e ep₀ ep := by
  by_cases hjk : j = k
  · subst hjk
    have hlt := (List.getElem?_eq_some_iff.mp hold).1
    rw [List.getElem?_set_self hlt] at hep
    obtain rfl := Option.some.inj hep
    exact ⟨old, hold, hnew rfl⟩
  · rw [List.getElem?_set_ne hjk] at hep
    exact ⟨ep, hep, .same ep⟩

theorem episode_step {s t : ClientState} {k : Nat} {e : ClientEvent} {ep : Episode}
    (hstep : clientStep s e = some t) (hep : t.episodes[k]? = some ep) :
    (∃ ep₀, s.episodes[k]? = some ep₀ ∧ EpisodeStep s t k e ep₀ ep) ∨
      s.episodes[k]? = none ∧ ep = ⟨.starting, .absent⟩ := by
  cases clientStep_inv hstep with
  | createDump _ =>
    by_cases hlt : k < s.episodes.length
    · have hold : s.episodes[k]? = some ep := by rwa [← List.getElem?_append_left hlt]
      exact Or.inl ⟨ep, hold, .same ep⟩
    · have hge := Nat.le_of_not_lt hlt
      rw [List.getElem?_append_right hge] at hep
      exact Or.inr ⟨List.getElem?_eq_none hge, (List.mem_singleton.mp (List.mem_of_getElem? hep))⟩
  | createResume j ep₀ hfrom hold =>
    exact Or.inl (episodeStep_set hold (fun hjk => .created ep₀ (hjk ▸ hfrom)) hep)
  | dump j de ep₀ u d hold hd =>
    exact Or.inl (episodeStep_set hold (fun _ => .dump ep₀ de d hd) hep)
  | resume j re ep₀ u r hold hr =>
    exact Or.inl (episodeStep_set hold (fun hjk => .resume ep₀ re r (hjk ▸ rfl) hr) hep)
  | _ => exact Or.inl ⟨ep, hep, .same ep⟩

theorem episode_kept {s t : ClientState} {k : Nat} {e : ClientEvent} {ep : Episode}
    (hstep : clientStep s e = some t) (hep : s.episodes[k]? = some ep) :
    ∃ ep', t.episodes[k]? = some ep' := by
  have hlt := (List.getElem?_eq_some_iff.mp hep).1
  suffices h : k < t.episodes.length from ⟨_, List.getElem?_eq_getElem h⟩
  cases clientStep_inv hstep with
  | createDump _ => exact Nat.lt_of_lt_of_le hlt (by simp)
  | createResume j _ _ _ => simpa using hlt
  | dump j _ _ _ _ _ _ => simpa using hlt
  | resume j _ _ _ _ _ _ => simpa using hlt
  | _ => exact hlt

/-! Before and after the copy. -/

/-- The command `cp` is over. -/
def pastCopy : ResumeThread → Bool
  | .copied | .removed | .cleared | .playing _ | .returned => true
  | .absent | .sleeping | .scanning _ | .killing _ | .settling _ => false

theorem resumeThread_pastCopy {self : Nat} {t u : ProcTable} {r r' : ResumeThread} {e : ResumeEvent}
    (h : resumeThread self t r e = some (u, r')) :
    (e = .copy → pastCopy r = false ∧ r' = .copied) ∧ (e ≠ .copy → pastCopy r' = pastCopy r) := by
  cases resumeStep h with
  | scan i =>
    unfold scanTurn
    split_ifs
    · split
      · split_ifs <;> simp [pastCopy]
      · simp [pastCopy]
    · simp [pastCopy]
  | _ => simp [pastCopy]

/-- The dump process of the thread has been started. -/
def Started (d : DumpThread) : Prop := d.process.isSome ∨ d = .returned

theorem started_of_ended {t : ProcTable} {d : DumpThread} (h : d.Ended t) : Started d :=
  h.elim Or.inr fun ⟨_, hn, _⟩ => Or.inl (Option.isSome_of_mem hn)

/-- What the client keeps in every run in time. -/
structure Coherent (s : ClientState) : Prop where
  sound : AllSound s
  phase : Phase s
  indexed : Indexed s
  fresh : ∀ k, s.tcp = .dumpCreated k → (resumes s)[k]? = some .absent
  ended : ∀ ep ∈ s.episodes, pastCopy ep.resume = true → ep.dump.Ended s.table

theorem coherent_start (self : Nat) : Coherent (.start self) where
  sound := by simp [AllSound, ClientState.start]
  phase := .free rfl rfl id
  indexed := by constructor <;> simp [ClientState.start, resumes]
  fresh := by simp [ClientState.start]
  ended := by simp [ClientState.start]

section OneEpisode

variable {s t : ClientState} {k : Nat} {e : ClientEvent} {ep₀ ep : Episode}

theorem EpisodeStep.ended (h : EpisodeStep s t k e ep₀ ep) (hstep : clientStep s e = some t)
    (hsound : Sound s.table ep₀) (hend : ep₀.dump.Ended s.table) : ep.dump.Ended t.table := by
  have hmono := hend.mono (client_evolves hstep) hsound.known
  cases h with
  | dump de d hd => exact dumpThread_started hd (started_of_ended hend)
  | _ => exact hmono

theorem EpisodeStep.pastCopy_eq (h : EpisodeStep s t k e ep₀ ep) (hc : Coherent s)
    (hep : s.episodes[k]? = some ep₀) (hne : e ≠ .resume k .copy) :
    pastCopy ep.resume = pastCopy ep₀.resume := by
  cases h with
  | created hfrom =>
    -- the thread is created once, when there is none yet
    have habsent := hc.fresh k hfrom
    rw [resumes_getElem? hep] at habsent
    rw [Option.some.inj habsent]
    rfl
  | resume re r he hr =>
    subst he
    exact (resumeThread_pastCopy hr).2 fun hre => hne (hre ▸ rfl)
  | _ => rfl

theorem EpisodeStep.stays_past (h : EpisodeStep s t k e ep₀ ep) (hc : Coherent s)
    (hep : s.episodes[k]? = some ep₀) (hpast : pastCopy ep₀.resume = true) :
    pastCopy ep.resume = true := by
  by_cases he : e = .resume k .copy
  · subst he
    cases h with
    | resume re r he hr =>
      cases he
      rw [((resumeThread_pastCopy hr).1 rfl).1] at hpast
      cases hpast
    | created hfrom =>
      have habsent := hc.fresh k hfrom
      rw [resumes_getElem? hep] at habsent
      rw [Option.some.inj habsent] at hpast
      cases hpast
    | _ => exact hpast
  · rw [h.pastCopy_eq hc hep he, hpast]

theorem EpisodeStep.copied (h : EpisodeStep s t k e ep₀ ep) (hc : Coherent s)
    (hep : s.episodes[k]? = some ep₀) (hbefore : pastCopy ep₀.resume = false)
    (hafter : pastCopy ep.resume = true) : ep.resume = .copied := by
  by_cases he : e = .resume k .copy
  · subst he
    cases h with
    | resume re r he hr =>
      cases he
      exact ((resumeThread_pastCopy hr).1 rfl).2
    | created hfrom => cases hafter
    | _ => cases hbefore.symm.trans hafter
  · cases (h.pastCopy_eq hc hep he).symm.trans hafter |>.symm.trans hbefore

end OneEpisode

theorem fresh_step {s t : ClientState} {e : ClientEvent} (hstep : GuardStep s t e)
    (h : ∀ k, s.tcp = .dumpCreated k → (resumes s)[k]? = some .absent) :
    ∀ k, t.tcp = .dumpCreated k → (resumes t)[k]? = some .absent := by
  intro k hk
  cases hstep with
  | other _ htcp _ hthreads =>
    rw [hthreads]
    exact h k (htcp ▸ hk)
  | activation _ htcp _ _ =>
    rw [htcp] at hk
    split_ifs at hk
  | mark _ htcp _ _ => cases htcp.symm.trans hk
  | createDump _ htcp _ hthreads =>
    obtain rfl := TcpThread.dumpCreated.inj (htcp.symm.trans hk)
    rw [hthreads]
    simp
  | createResume _ _ htcp _ _ _ => cases htcp.symm.trans hk
  | resume j re u r r' hr hres htcp _ hthreads =>
    have habsent := h k (htcp ▸ hk)
    rw [hthreads, List.getElem?_set]
    split_ifs with hjk hlt
    · -- a thread that does not exist takes no step
      subst hjk
      obtain rfl := Option.some.inj (hr.symm.trans habsent)
      cases resumeStep hres
    · exact absurd (List.getElem?_eq_some_iff.mp hr).1 hlt
    · exact habsent

theorem Coherent.step {s t : ClientState} {e : ClientEvent} (h : Coherent s) (hguard : InTime s e)
    (hstep : clientStep s e = some t) : Coherent t where
  sound := allSound_step h.sound hguard hstep
  phase := h.phase.step (guardStep hstep)
  indexed := h.indexed.step (guardStep hstep)
  fresh := fresh_step (guardStep hstep) h.fresh
  ended := by
    intro ep hmem hpast
    obtain ⟨k, hep⟩ := List.mem_iff_getElem?.mp hmem
    rcases episode_step hstep hep with ⟨ep₀, hep₀, hes⟩ | ⟨_, rfl⟩
    · have hmem₀ := List.mem_of_getElem? hep₀
      cases hbefore : pastCopy ep₀.resume with
      | true => exact hes.ended hstep (h.sound ep₀ hmem₀) (h.ended ep₀ hmem₀ hbefore)
      | false =>
        have hsound := allSound_step h.sound hguard hstep ep hmem
        exact hsound.copied (hes.copied h hep₀ hbefore hpast)
    · cases hpast

theorem Coherent.past_client {t c : ClientState} {e : ClientEvent} (h : Coherent t)
    (hc : clientStep t e = some c) {k : Nat} {ep₀ : Episode} (hep₀ : t.episodes[k]? = some ep₀)
    (hpast : pastCopy ep₀.resume = true) :
    ∃ ep, c.episodes[k]? = some ep ∧ pastCopy ep.resume = true := by
  obtain ⟨ep, hep⟩ := episode_kept hc hep₀
  refine ⟨ep, hep, ?_⟩
  rcases episode_step hc hep with ⟨ep₁, hep₁, hes⟩ | ⟨hnone, _⟩
  · obtain rfl := Option.some.inj (hep₀.symm.trans hep₁)
    exact hes.stays_past h hep₀ hpast
  · cases hnone.symm.trans hep₀

theorem resume_step {t c : ClientState} {k : Nat} {re : ResumeEvent}
    (hc : clientStep t (.resume k re) = some c) :
    ∃ ep u r, t.episodes[k]? = some ep ∧
      resumeThread t.self t.table ep.resume re = some (u, r) ∧
      c.episodes[k]? = some { ep with resume := r } := by
  cases clientStep_inv hc with
  | resume _ _ ep u r hep hr =>
    exact ⟨ep, u, r, hep, hr, List.getElem?_set_self (List.getElem?_eq_some_iff.mp hep).1⟩

/-- The dump process of the episode is running. -/
def Dumping (c : ClientState) (k : Nat) : Prop :=
  ∃ ep ∈ c.episodes[k]?, ∃ n ∈ ep.dump.process, c.table.Alive n

instance (c : ClientState) (k : Nat) : Decidable (Dumping c k) :=
  inferInstanceAs (Decidable (∃ ep ∈ c.episodes[k]?, ∃ n ∈ ep.dump.process, c.table.Alive n))

theorem Dumping.pending {c : ClientState} {k : Nat} (hd : Dumping c k) (hc : Coherent c) :
    ∃ ep, c.episodes[k]? = some ep ∧ pastCopy ep.resume = false := by
  obtain ⟨ep, hep, n, hn, halive⟩ := hd
  refine ⟨ep, hep, ?_⟩
  by_contra hpast
  rcases hc.ended ep (List.mem_of_getElem? hep) (by simpa using hpast) with hret | ⟨m, hm, hdead⟩
  · simp [DumpThread.process, hret] at hn
  · obtain rfl := Option.some.inj (hn.symm.trans hm)
    exact hdead halive

theorem copyReturned_of_pending {r : ResumeThread} (h : pastCopy r = false) :
    copyReturned r = false := by
  cases r <;> simp_all [pastCopy, copyReturned]

theorem Coherent.pending_unique {s : ClientState} (h : Coherent s) {j k : Nat} {ep ep' : Episode}
    (hj : s.episodes[j]? = some ep) (hk : s.episodes[k]? = some ep')
    (hep : copyReturned ep.resume = false) (hep' : copyReturned ep'.resume = false) : j = k := by
  have hcases : ∀ {i : Nat} {e : Episode}, s.episodes[i]? = some e →
      copyReturned e.resume = false →
      s.tcp = .dumpCreated i ∨ beforeReset e.resume = true := by
    intro i e hi he
    cases hr : e.resume with
    | absent => exact Or.inl (h.indexed.absent i (hr ▸ resumes_getElem? hi))
    | _ => simp_all [copyReturned, beforeReset]
  have hreset : ∀ {i : Nat} {e : Episode}, s.episodes[i]? = some e → unreset s = 0 →
      beforeReset e.resume ≠ true := fun hi hcount =>
    List.countP_eq_zero.mp hcount _ (List.mem_of_getElem? (resumes_getElem? hi))
  cases h.phase with
  | free _ hcount htcp =>
    rcases hcases hj hep with ht | hb
    · rw [ht] at htcp
      exact absurd trivial htcp
    · exact absurd hb (hreset hj hcount)
  | entering _ hcount _ =>
    rcases hcases hj hep with ht | hb
    · rcases hcases hk hep' with ht' | hb'
      · exact TcpThread.dumpCreated.inj (ht.symm.trans ht')
      · exact absurd hb' (hreset hk hcount)
    · exact absurd hb (hreset hj hcount)
  | busy _ hcount htcp =>
    rcases hcases hj hep with ht | hb
    · cases htcp.symm.trans ht
    · rcases hcases hk hep' with ht' | hb'
      · cases htcp.symm.trans ht'
      · by_contra hjk
        -- without the first of the two, there is none left
        have hlt := (List.getElem?_eq_some_iff.mp (resumes_getElem? hj)).1
        have hset := List.countP_set (p := beforeReset) (a := .absent) hlt
        have hget := (List.getElem?_eq_some_iff.mp (resumes_getElem? hj)).2
        rw [hget, hb] at hset
        have hnone : ((resumes s).set j .absent).countP beforeReset = 0 := by
          rw [hset, show (resumes s).countP beforeReset = 1 from hcount]
          rfl
        have hother : ((resumes s).set j .absent)[k]? = some ep'.resume := by
          rw [List.getElem?_set_ne hjk]
          exact resumes_getElem? hk
        exact List.countP_eq_zero.mp hnone _ (List.mem_of_getElem? hother) hb'

end MdsBlackbox.Client.EpisodeSteps
