/- module: MdsBlackbox/Client/MplayerClose
   source: CLIENT/rc_client/rc_client.c
   digest: The process that mplayer_close signals, over every process table. -/

import MdsBlackbox.Client.Episodes
import MdsBlackbox.Lib.Loop

set_option autoImplicit false
set_option relaxedAutoImplicit false

namespace MdsBlackbox.Client.MplayerClose

open MdsBlackbox.Lib.Loop
open MdsBlackbox.Lib.Transition
open MdsBlackbox.Client.Processes
open MdsBlackbox.Client.Episodes

/-- A turn of the loop of `mplayer_close`. The loop is left with the pid that `kill` gets, by its
`break`, or without one after 1000 turns. -/
def closeTurn (self : Nat) (t : ProcTable) (i : Nat) : Outcome Empty (Turn Nat (Option Nat)) :=
  match scanTurn self t i with
  | .scanning j => .done (.next j)
  | .killing pid => .done (.leave (some pid))
  | _ => .done (.leave none)

def mplayerClose (turns self : Nat) (t : ProcTable) : Outcome Empty (Option Nat) :=
  loop (closeTurn self t) turns 0

theorem mplayerClose_mono (self : Nat) (t : ProcTable) {n k : Nat} (h : n ≤ k) :
    (mplayerClose n self t).Le (mplayerClose k self t) := loop_mono h 0

/-- `mplayer_close` sends SIGINT to the process. -/
def Signals (self : Nat) (t : ProcTable) (p : Proc) : Prop :=
  ∃ turns, mplayerClose turns self t = .done (some p.pid)

/-! The scan. -/

/-- The file /proc/pid/comm of turn `i` is there, and the turn finds the name in it. -/
def Match (self : Nat) (t : ProcTable) (i : Nat) : Prop :=
  ∃ p, t.find (self + i) = some p ∧ isMplayer p.comm = true

theorem scanTurn_of_match {self : Nat} {t : ProcTable} {i : Nat} (hi : i < 1000)
    (h : Match self t i) : scanTurn self t i = .killing (self + i) := by
  obtain ⟨p, hp, hcomm⟩ := h
  simp [scanTurn, hi, hp, hcomm]

theorem scanTurn_of_not_match {self : Nat} {t : ProcTable} {i : Nat} (hi : i < 1000)
    (h : ¬ Match self t i) : scanTurn self t i = .scanning (i + 1) := by
  unfold scanTurn
  rw [if_pos hi]
  cases hfind : t.find (self + i) with
  | none => rfl
  | some p =>
    have hcomm : ¬ isMplayer p.comm = true := fun hcomm => h ⟨p, hfind, hcomm⟩
    exact if_neg hcomm

theorem scanTurn_of_le {self : Nat} {t : ProcTable} {i : Nat} (hi : ¬ i < 1000) :
    scanTurn self t i = .settling none := if_neg hi

/-- What the loop finds: the first match of its 1000 turns, if there is one. -/
def Found (self : Nat) (t : ProcTable) : Option Nat → Prop
  | some pid => ∃ i < 1000, pid = self + i ∧ Match self t i ∧ ∀ j < i, ¬ Match self t j
  | none => ∀ i < 1000, ¬ Match self t i

theorem mplayerClose_ends (self : Nat) (t : ProcTable) :
    ∃ r, mplayerClose 1001 self t = .done r ∧ Found self t r := by
  refine loop_ends (fun i => i ≤ 1000 ∧ ∀ j < i, ¬ Match self t j) (Found self t)
    (fun i => 1000 - i) ?_ ⟨Nat.zero_le _, fun j hj => absurd hj (Nat.not_lt_zero j)⟩
    (Nat.lt_succ_self 1000)
  rintro i ⟨hi, hbefore⟩
  unfold closeTurn
  by_cases hlt : i < 1000
  · by_cases hmatch : Match self t i
    · rw [scanTurn_of_match hlt hmatch]
      exact Or.inl ⟨_, rfl, i, hlt, rfl, hmatch, hbefore⟩
    · rw [scanTurn_of_not_match hlt hmatch]
      refine Or.inr ⟨i + 1, rfl, ⟨hlt, fun j hj => ?_⟩, by omega⟩
      rcases Nat.lt_succ_iff_lt_or_eq.mp hj with hj | rfl
      · exact hbefore j hj
      · exact hmatch
  · rw [scanTurn_of_le hlt]
    refine Or.inl ⟨none, rfl, fun j hj => hbefore j (by omega)⟩

theorem Found.unique {self : Nat} {t : ProcTable} {pid pid' : Nat} (h : Found self t (some pid))
    (h' : Found self t (some pid')) : pid = pid' := by
  obtain ⟨i, _, rfl, hmatch, hbefore⟩ := h
  obtain ⟨j, _, rfl, hmatch', hbefore'⟩ := h'
  rcases Nat.lt_trichotomy i j with hlt | rfl | hlt
  · exact absurd hmatch (hbefore' i hlt)
  · rfl
  · exact absurd hmatch' (hbefore j hlt)

theorem signals_iff {self : Nat} {t : ProcTable} {p : Proc} :
    Signals self t p ↔ Found self t (some p.pid) := by
  obtain ⟨r, hends, hfound⟩ := mplayerClose_ends self t
  constructor
  · rintro ⟨turns, hturns⟩
    have hsame := outcome_unique (fun _ _ hle => mplayerClose_mono self t hle) hturns hends
      (by simp) (by simp)
    obtain rfl := Outcome.done.inj hsame
    exact hfound
  · intro h
    refine ⟨1001, ?_⟩
    cases r with
    | none =>
      obtain ⟨i, hi, _, hmatch, _⟩ := h
      exact absurd hmatch (hfound i hi)
    | some pid => rw [hends, hfound.unique h]

theorem match_iff {self : Nat} {t : ProcTable} (ht : t.Distinct) {i : Nat} :
    Match self t i ↔ ∃ p ∈ t.procs, p.pid = self + i ∧ isMplayer p.comm = true := by
  unfold Match
  constructor
  · rintro ⟨p, hp, hcomm⟩
    obtain ⟨hmem, hpid⟩ := ht.find_iff.mp hp
    exact ⟨p, hmem, hpid, hcomm⟩
  · rintro ⟨p, hmem, hpid, hcomm⟩
    exact ⟨p, ht.find_iff.mpr ⟨hmem, hpid⟩, hcomm⟩

theorem signals_player_iff {self : Nat} {t : ProcTable} (ht : t.Distinct) {d : Proc}
    (hd : d ∈ t.procs) (hcomm : isMplayer d.comm = true) :
    Signals self t d ↔ self ≤ d.pid ∧ d.pid < self + 1000 ∧
      ∀ p ∈ t.procs, isMplayer p.comm = true → self ≤ p.pid → d.pid ≤ p.pid := by
  rw [signals_iff]
  constructor
  · rintro ⟨i, hi, hpid, _, hbefore⟩
    refine ⟨by omega, by omega, fun p hp hname hself => ?_⟩
    by_contra hlt
    have hmatch : Match self t (p.pid - self) := (match_iff ht).mpr ⟨p, hp, by omega, hname⟩
    exact hbefore (p.pid - self) (by omega) hmatch
  · rintro ⟨hself, hwindow, hfirst⟩
    refine ⟨d.pid - self, by omega, by omega, (match_iff ht).mpr ⟨d, hd, by omega, hcomm⟩, ?_⟩
    intro j hj hmatch
    obtain ⟨p, hp, hpid, hname⟩ := (match_iff ht).mp hmatch
    have hle := hfirst p hp hname (by omega)
    omega

theorem eq_of_signals {self : Nat} {t : ProcTable} (ht : t.Distinct) {p q : Proc}
    (hp : p ∈ t.procs) (hq : q ∈ t.procs) (h : Signals self t p) (h' : Signals self t q) :
    p = q := by
  have hpid : p.pid = q.pid := (signals_iff.mp h).unique (signals_iff.mp h')
  exact List.inj_on_of_nodup_map ht hp hq hpid

/-- The signal goes to the player and to no other process exactly when the player's pid lies in the
window and no lower pid of the window belongs to a process of that name. -/
theorem close_signals_iff {self : Nat} {t : ProcTable} (ht : t.Distinct) {d : Proc}
    (hd : d ∈ t.procs) (hcomm : isMplayer d.comm = true) :
    (∀ p ∈ t.procs, Signals self t p ↔ p = d) ↔ self ≤ d.pid ∧ d.pid < self + 1000 ∧
      ∀ p ∈ t.procs, isMplayer p.comm = true → self ≤ p.pid → d.pid ≤ p.pid := by
  rw [← signals_player_iff ht hd hcomm]
  constructor
  · intro h
    exact (h d hd).mpr rfl
  · intro h p hp
    constructor
    · intro hsignals
      exact eq_of_signals ht hp hd hsignals h
    · rintro rfl
      exact h

def usualDump : Proc := ⟨2, 230, "mplayer", .player, false, false⟩

def otherPlayer : Proc := ⟨1, 90, "mplayer", .other, false, false⟩

/-- A client with pid 100, its dump with pid 230, and a player elsewhere with a lower pid. -/
def usualTable : ProcTable :=
  ⟨[⟨0, 100, "rc_client", .client, false, false⟩, otherPlayer, usualDump], 3⟩

theorem close_signals_usual :
    Signals 100 usualTable usualDump ∧ ¬ Signals 100 usualTable otherPlayer := by
  have hdump : usualDump ∈ usualTable.procs := by decide
  have h : ∀ p ∈ usualTable.procs, Signals 100 usualTable p ↔ p = usualDump :=
    (close_signals_iff (by decide) hdump (by decide)).mpr (by decide)
  have hother : otherPlayer ∈ usualTable.procs := by decide
  exact ⟨(h usualDump hdump).mpr rfl, fun hs => absurd ((h otherPlayer hother).mp hs) (by decide)⟩

theorem close_misses_dump : ¬ ∀ (self : Nat) (t : ProcTable) (d : Proc), t.Distinct → d ∈ t.procs →
    isMplayer d.comm = true → ∀ p ∈ t.procs, Signals self t p ↔ p = d := by
  -- the pids have wrapped: the dump has a lower one than the client
  intro h
  let d : Proc := ⟨1, 300, "mplayer", .player, false, false⟩
  let t : ProcTable := ⟨[⟨0, 32000, "rc_client", .client, false, false⟩, d], 2⟩
  have hd : d ∈ t.procs := by decide
  have hsignals : Signals 32000 t d := (h 32000 t d (by decide) hd (by decide) d hd).mpr rfl
  have hlow := ((signals_player_iff (by decide) hd (by decide)).mp hsignals).1
  exact absurd hlow (by decide)

/-! The scan within the client. -/

theorem distinct_dumpThread {t u : ProcTable} {d d' : DumpThread} {e : DumpEvent}
    (h : t.Distinct) (hd : dumpThread t d e = some (u, d')) : u.Distinct := by
  cases dumpStep hd with
  | quit pid _ hspawn => exact distinct_spawn h hspawn
  | dump pid _ hspawn => exact distinct_spawn h hspawn
  | _ => exact h

theorem distinct_resumeThread {self : Nat} {t u : ProcTable} {r r' : ResumeThread}
    {e : ResumeEvent} (h : t.Distinct) (hr : resumeThread self t r e = some (u, r')) :
    u.Distinct := by
  cases resumeStep hr with
  | kill pid => exact distinct_kill h pid
  | play pid _ hspawn => exact distinct_spawn h hspawn
  | _ => exact h

theorem distinct_run {self : Nat} {es : List ClientEvent} {s : ClientState}
    (hrun : run clientStep (.start self) es = some s) : s.table.Distinct := by
  refine invariant (I := fun s => s.table.Distinct) (List.nodup_singleton self) ?_ hrun
  intro s e t h hstep
  cases clientStep_inv hstep with
  | streamPlay pid u _ hu => exact distinct_spawn h hu
  | fork pid comm u hu => exact distinct_spawn h hu
  | openFifo n => exact distinct_openFifo h n
  | finish n u hu => exact distinct_finish h hu
  | dump k e ep u d _ hd => exact distinct_dumpThread h hd
  | resume k e ep u r _ hr => exact distinct_resumeThread h hr
  | _ => exact h

/-- Where the resume thread goes when the loop has been left. -/
def afterScan : Option Nat → ResumeThread
  | some pid => .killing pid
  | none => .settling none

theorem closeTurn_cases (self : Nat) (t : ProcTable) (i : Nat) :
    (∃ j, scanTurn self t i = .scanning j ∧ closeTurn self t i = .done (.next j)) ∨
      ∃ r, scanTurn self t i = afterScan r ∧ closeTurn self t i = .done (.leave r) := by
  unfold closeTurn
  by_cases hlt : i < 1000
  · by_cases hmatch : Match self t i
    · rw [scanTurn_of_match hlt hmatch]
      exact Or.inr ⟨some (self + i), rfl, rfl⟩
    · rw [scanTurn_of_not_match hlt hmatch]
      exact Or.inl ⟨i + 1, rfl, rfl⟩
  · rw [scanTurn_of_le hlt]
    exact Or.inr ⟨none, rfl, rfl⟩

theorem close_runs {s : ClientState} {k i turns : Nat} {ep : Episode} {r : Option Nat}
    (hep : s.episodes[k]? = some ep) (hfrom : ep.resume = .scanning i)
    (hloop : loop (closeTurn s.self s.table) turns i = .done r) :
    ∃ n, run clientStep s (List.replicate n (.resume k .scan)) =
      some { s with episodes := s.episodes.set k { ep with resume := afterScan r } } := by
  induction turns generalizing s ep i with
  | zero => cases hloop
  | succ turns ih =>
    have hscan : clientStep s (.resume k .scan) = some { s with
        episodes := s.episodes.set k { ep with resume := scanTurn s.self s.table i } } := by
      simp [clientStep, hep, resumeThread, hfrom]
    rcases closeTurn_cases s.self s.table i with ⟨j, hturn, hbody⟩ | ⟨r', hturn, hbody⟩
    · rw [loop_next hbody] at hloop
      rw [hturn] at hscan
      have hlt : k < s.episodes.length := (List.getElem?_eq_some_iff.mp hep).1
      have hep' : (s.episodes.set k { ep with resume := .scanning j })[k]? =
          some { ep with resume := .scanning j } := List.getElem?_set_self hlt
      obtain ⟨n, hn⟩ := ih (s := { s with
        episodes := s.episodes.set k { ep with resume := .scanning j } }) hep' rfl hloop
      refine ⟨n + 1, run_cons_eq_some.mpr ⟨_, hscan, hn.trans ?_⟩⟩
      rw [List.set_set]
    · rw [loop_leave hbody] at hloop
      obtain rfl := Outcome.done.inj hloop
      refine ⟨1, run_cons_eq_some.mpr ⟨_, hscan, ?_⟩⟩
      rw [hturn]
      rfl

end MdsBlackbox.Client.MplayerClose
