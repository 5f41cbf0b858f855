/- module: MdsBlackbox/Lib/Statements
   layer: library
   digest: Straight-line calls interleaved statement by statement, with interrupts between. -/

import MdsBlackbox.Lib.Transition

set_option autoImplicit false
set_option relaxedAutoImplicit false

namespace MdsBlackbox.Lib.Statements

open MdsBlackbox.Lib.Transition

universe u v w

/-- The shared variables, and of every call made so far the statements it still has to execute. -/
structure Calls (σ : Type u) (κ : Type v) where
  shared : σ
  rest : List (List κ)
  deriving DecidableEq

inductive CallEvent (ρ : Type w)
  | call (r : ρ)
  | stmt (i : Nat)
  | interrupt
  deriving DecidableEq

variable {σ : Type u} {κ : Type v} {ρ : Type w}

def Calls.start (s : σ) : Calls σ κ := ⟨s, []⟩

/-- A call begins, call `i` executes its next statement, or an interrupt handler runs as a whole. -/
def callStep (body : ρ → List κ) (exec : σ → κ → σ) (interrupt : σ → σ) (s : Calls σ κ) :
    CallEvent ρ → Option (Calls σ κ)
  | .call r => some { s with rest := s.rest ++ [body r] }
  | .stmt i =>
    match s.rest[i]? with
    | some (c :: cs) => some ⟨exec s.shared c, s.rest.set i cs⟩
    | _ => none
  | .interrupt => some { s with shared := interrupt s.shared }

/-- No call is in progress. -/
def Calls.AtRest (s : Calls σ κ) : Prop := ∀ cs ∈ s.rest, cs = []

instance (s : Calls σ κ) : Decidable s.AtRest :=
  inferInstanceAs (Decidable (∀ cs ∈ s.rest, cs = []))

variable {body : ρ → List κ} {exec : σ → κ → σ} {interrupt : σ → σ}

theorem callStep_cases {s t : Calls σ κ} {e : CallEvent ρ}
    (hstep : callStep body exec interrupt s e = some t) :
    (∃ r, e = .call r ∧ t = { s with rest := s.rest ++ [body r] }) ∨
    (∃ i c cs, e = .stmt i ∧ s.rest[i]? = some (c :: cs) ∧
      t = ⟨exec s.shared c, s.rest.set i cs⟩) ∨
    (e = .interrupt ∧ t = { s with shared := interrupt s.shared }) := by
  cases e with
  | call r => exact Or.inl ⟨r, rfl, (Option.some.inj hstep).symm⟩
  | stmt i =>
    simp only [callStep] at hstep
    split at hstep
    · rename_i c cs hi
      exact Or.inr (Or.inl ⟨i, c, cs, rfl, hi, (Option.some.inj hstep).symm⟩)
    · cases hstep
  | interrupt => exact Or.inr (Or.inr ⟨rfl, (Option.some.inj hstep).symm⟩)

theorem shared_invariant {I : σ → Prop} (hexec : ∀ s c, I s → I (exec s c))
    (hint : ∀ s, I s → I (interrupt s)) {s : σ} (start : I s) {es : List (CallEvent ρ)}
    {t : Calls σ κ} (hrun : run (callStep body exec interrupt) (.start s) es = some t) :
    I t.shared := by
  refine invariant (I := fun u : Calls σ κ => I u.shared) start ?_ hrun
  intro u e v hu he
  rcases callStep_cases he with ⟨r, _, rfl⟩ | ⟨i, c, cs, _, _, rfl⟩ | ⟨_, rfl⟩
  · exact hu
  · exact hexec _ c hu
  · exact hint _ hu

/-! Calls that clean up behind themselves. -/

/-- Each statement keeps `P`, or a later one of the same call establishes it. -/
def CleansUp (exec : σ → κ → σ) (P : σ → Prop) : List κ → Prop
  | [] => True
  | c :: cs =>
    ((∀ s, P s → P (exec s c)) ∨ ∃ d ∈ cs, ∀ s, P (exec s d)) ∧ CleansUp exec P cs

/-- `P` holds, or some call in progress has yet to execute a statement that establishes it. -/
def Owed (exec : σ → κ → σ) (P : σ → Prop) (s : Calls σ κ) : Prop :=
  P s.shared ∨ ∃ cs ∈ s.rest, ∃ d ∈ cs, ∀ u, P (exec u d)

theorem mem_set_or_eq {α : Type u} {l : List α} {i : Nat} {a b x : α} (hi : l[i]? = some a)
    (hx : x ∈ l) : x ∈ l.set i b ∨ x = a := by
  obtain ⟨j, hj⟩ := List.getElem?_of_mem hx
  by_cases hij : i = j
  · subst hij
    exact Or.inr (Option.some.inj (hj.symm.trans hi))
  · left
    refine List.mem_of_getElem? (i := j) ?_
    rw [List.getElem?_set_ne hij, hj]

theorem owed_stmt {P : σ → Prop} {s : Calls σ κ} {i : Nat} {c : κ} {cs : List κ}
    (hi : s.rest[i]? = some (c :: cs)) (hclean : CleansUp exec P (c :: cs))
    (h : Owed exec P s) : Owed exec P ⟨exec s.shared c, s.rest.set i cs⟩ := by
  have hmem : cs ∈ s.rest.set i cs := List.mem_set ((List.getElem?_eq_some_iff.mp hi).1) cs
  rcases h with hP | ⟨ds, hds, d, hd, hest⟩
  · rcases hclean.1 with hkeep | ⟨d, hd, hest⟩
    · exact Or.inl (hkeep _ hP)
    · exact Or.inr ⟨cs, hmem, d, hd, hest⟩
  · rcases mem_set_or_eq (b := cs) hi hds with hother | rfl
    · exact Or.inr ⟨ds, hother, d, hd, hest⟩
    · -- the call that owes `P` takes its next statement, which may be the one that establishes it
      rcases List.mem_cons.mp hd with rfl | hd
      · exact Or.inl (hest _)
      · exact Or.inr ⟨cs, hmem, d, hd, hest⟩

/-- Where all calls clean up and the handler keeps `P`, `P` holds while no call is in progress. -/
theorem holds_at_rest {P : σ → Prop} (hbody : ∀ r, CleansUp exec P (body r))
    (hint : ∀ s, P s → P (interrupt s)) {s : σ} (start : P s) {es : List (CallEvent ρ)}
    {t : Calls σ κ} (hrun : run (callStep body exec interrupt) (.start s) es = some t)
    (hrest : t.AtRest) : P t.shared := by
  have hinv : (∀ cs ∈ t.rest, CleansUp exec P cs) ∧ Owed exec P t := by
    refine invariant (I := fun u => (∀ cs ∈ u.rest, CleansUp exec P cs) ∧ Owed exec P u)
      ⟨by simp [Calls.start], Or.inl start⟩ ?_ hrun
    rintro u e v ⟨hclean, howed⟩ he
    rcases callStep_cases he with ⟨r, _, rfl⟩ | ⟨i, c, cs, _, hi, rfl⟩ | ⟨_, rfl⟩
    · refine ⟨fun cs hcs => ?_, howed.imp id ?_⟩
      · rcases List.mem_append.mp hcs with hold | hnew
        · exact hclean cs hold
        · obtain rfl := List.mem_singleton.mp hnew
          exact hbody r
      · rintro ⟨cs, hcs, hest⟩
        exact ⟨cs, List.mem_append_left _ hcs, hest⟩
    · have hcall := hclean _ (List.mem_of_getElem? hi)
      refine ⟨fun ds hds => ?_, owed_stmt hi hcall howed⟩
      rcases List.mem_or_eq_of_mem_set hds with hold | rfl
      · exact hclean ds hold
      · exact hcall.2
    · exact ⟨hclean, howed.imp (hint _) id⟩
  rcases hinv.2 with hP | ⟨cs, hcs, d, hd, _⟩
  · exact hP
  · rw [hrest cs hcs] at hd
    cases hd

end MdsBlackbox.Lib.Statements
