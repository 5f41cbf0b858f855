/- module: MdsBlackbox/Client/Processes
   source: CLIENT/rc_client/rc_client.c, CLIENT/nfsroot/bin/mplayer_cmd
   digest: The processes of the client machine, the FIFO that blocks `mplayer_cmd`, and SIGINT. -/

import Mathlib.Data.List.Nodup

set_option autoImplicit false
set_option relaxedAutoImplicit false

namespace MdsBlackbox.Client.Processes

inductive Job
  | client
  | quitCmd
  | player
  | other
  deriving DecidableEq

/-- A process. Pids are reused and serial numbers are not; `reading` says that the process has the
FIFO open for reading, `signalled` that it has been sent SIGINT. -/
structure Proc where
  serial : Nat
  pid : Nat
  comm : String
  job : Job
  reading : Bool
  signalled : Bool
  deriving DecidableEq

structure ProcTable where
  procs : List Proc
  next : Nat
  deriving DecidableEq

def ProcTable.Alive (t : ProcTable) (n : Nat) : Prop := ∃ p ∈ t.procs, p.serial = n

instance (t : ProcTable) (n : Nat) : Decidable (t.Alive n) :=
  inferInstanceAs (Decidable (∃ p ∈ t.procs, p.serial = n))

def ProcTable.spawn (t : ProcTable) (pid : Nat) (comm : String) (job : Job) : Option ProcTable :=
  if ∀ p ∈ t.procs, p.pid ≠ pid then
    some ⟨t.procs ++ [⟨t.next, pid, comm, job, false, false⟩], t.next + 1⟩
  else none

def ProcTable.find (t : ProcTable) (pid : Nat) : Option Proc := t.procs.find? (·.pid = pid)

def ProcTable.openFifo (t : ProcTable) (n : Nat) : ProcTable :=
  { t with procs := t.procs.map fun p =>
      if p.serial = n ∧ p.job = .player then { p with reading := true } else p }

/-- `kill(pid, 2)`, whose result nobody looks at. -/
def ProcTable.kill (t : ProcTable) (pid : Nat) : ProcTable :=
  { t with procs := t.procs.map fun p => if p.pid = pid then { p with signalled := true } else p }

/-- `mplayer_cmd` blocks in its redirection until some process has the FIFO open for reading or a
signal ends it. An `mplayer` may end at any time, with or without a quit command or a signal. -/
def ProcTable.canEnd (t : ProcTable) (p : Proc) : Bool :=
  match p.job with
  | .client => false
  | .quitCmd => p.signalled || t.procs.any (·.reading)
  | .player => true
  | .other => true

def ProcTable.finish (t : ProcTable) (n : Nat) : Option ProcTable :=
  match t.procs.find? (·.serial = n) with
  | none => none
  | some p =>
    if t.canEnd p then some { t with procs := t.procs.filter (·.serial ≠ n) } else none

/-! What stays. -/

/-- Serial numbers grow, and no process comes back. -/
structure Evolves (t u : ProcTable) : Prop where
  next_le : t.next ≤ u.next
  ended : ∀ n < t.next, u.Alive n → t.Alive n

theorem Evolves.refl (t : ProcTable) : Evolves t t := ⟨Nat.le_refl _, fun _ _ h => h⟩

theorem evolves_spawn {t u : ProcTable} {pid : Nat} {comm : String} {job : Job}
    (h : t.spawn pid comm job = some u) : Evolves t u ∧ u.next = t.next + 1 := by
  unfold ProcTable.spawn at h
  split_ifs at h
  obtain rfl := Option.some.inj h
  refine ⟨⟨Nat.le_succ _, ?_⟩, rfl⟩
  rintro n hn ⟨p, hp, hserial⟩
  rcases List.mem_append.mp hp with hp | hp
  · exact ⟨p, hp, hserial⟩
  · obtain rfl := List.mem_singleton.mp hp
    exact absurd hserial (Nat.ne_of_gt hn)

theorem evolves_map {t : ProcTable} {f : Proc → Proc} (hf : ∀ p, (f p).serial = p.serial) :
    Evolves t { t with procs := t.procs.map f } := by
  refine ⟨Nat.le_refl _, ?_⟩
  rintro n _ ⟨p, hp, hserial⟩
  obtain ⟨q, hq, rfl⟩ := List.mem_map.mp hp
  exact ⟨q, hq, (hf q).symm.trans hserial⟩

theorem evolves_openFifo (t : ProcTable) (n : Nat) : Evolves t (t.openFifo n) :=
  evolves_map fun p => by split_ifs <;> rfl

theorem evolves_kill (t : ProcTable) (pid : Nat) : Evolves t (t.kill pid) :=
  evolves_map fun p => by split_ifs <;> rfl

theorem evolves_finish {t u : ProcTable} {n : Nat} (h : t.finish n = some u) : Evolves t u := by
  unfold ProcTable.finish at h
  split at h
  · cases h
  · split_ifs at h
    obtain rfl := Option.some.inj h
    refine ⟨Nat.le_refl _, ?_⟩
    rintro m _ ⟨p, hp, hserial⟩
    exact ⟨p, (List.mem_filter.mp hp).1, hserial⟩

/-! No two processes have one pid. -/

def ProcTable.Distinct (t : ProcTable) : Prop := (t.procs.map Proc.pid).Nodup

instance (t : ProcTable) : Decidable t.Distinct :=
  inferInstanceAs (Decidable (t.procs.map Proc.pid).Nodup)

theorem ProcTable.Distinct.find_iff {t : ProcTable} (h : t.Distinct) {pid : Nat} {p : Proc} :
    t.find pid = some p ↔ p ∈ t.procs ∧ p.pid = pid := by
  unfold ProcTable.find
  constructor
  · intro hfind
    exact ⟨List.mem_of_find?_eq_some hfind, by simpa using List.find?_some hfind⟩
  · rintro ⟨hp, rfl⟩
    cases hfind : t.procs.find? (·.pid = p.pid) with
    | none =>
      have hno := List.find?_eq_none.mp hfind p hp
      simp at hno
    | some q =>
      have hq := List.mem_of_find?_eq_some hfind
      have hpid : q.pid = p.pid := by simpa using List.find?_some hfind
      rw [List.inj_on_of_nodup_map h hq hp hpid]

theorem distinct_spawn {t u : ProcTable} {pid : Nat} {comm : String} {job : Job}
    (h : t.Distinct) (hspawn : t.spawn pid comm job = some u) : u.Distinct := by
  unfold ProcTable.spawn at hspawn
  split_ifs at hspawn with hfree
  obtain rfl := Option.some.inj hspawn
  have hnew : pid ∉ t.procs.map Proc.pid := by
    intro hmem
    obtain ⟨p, hp, hpid⟩ := List.mem_map.mp hmem
    exact hfree p hp hpid
  show ((t.procs ++ [_]).map Proc.pid).Nodup
  rw [List.map_append, List.map_singleton, ← List.concat_eq_append]
  exact (List.nodup_concat _ _).mpr ⟨hnew, h⟩

theorem distinct_map {t : ProcTable} {f : Proc → Proc} (h : t.Distinct)
    (hf : ∀ p, (f p).pid = p.pid) : ({ t with procs := t.procs.map f } : ProcTable).Distinct := by
  show ((t.procs.map f).map Proc.pid).Nodup
  rw [List.map_map]
  have hsame : Proc.pid ∘ f = Proc.pid := funext hf
  rw [hsame]
  exact h

theorem distinct_openFifo {t : ProcTable} (h : t.Distinct) (n : Nat) : (t.openFifo n).Distinct :=
  distinct_map h fun p => by split_ifs <;> rfl

theorem distinct_kill {t : ProcTable} (h : t.Distinct) (pid : Nat) : (t.kill pid).Distinct :=
  distinct_map h fun p => by split_ifs <;> rfl

theorem distinct_finish {t u : ProcTable} {n : Nat} (h : t.Distinct) (hu : t.finish n = some u) :
    u.Distinct := by
  unfold ProcTable.finish at hu
  split at hu
  · cases hu
  · split_ifs at hu
    obtain rfl := Option.some.inj hu
    exact h.sublist (List.filter_sublist.map Proc.pid)

end MdsBlackbox.Client.Processes
