/- module: MdsBlackbox/Lib/Fairness
   layer: library
   digest: Infinite behaviours of partial labelled steps, and progress under weak fairness. -/

import MdsBlackbox.Lib.Transition

set_option autoImplicit false
set_option relaxedAutoImplicit false

namespace MdsBlackbox.Lib.Fairness

open MdsBlackbox.Lib.Transition

universe u v w

variable {σ : Type u} {ε : Type v} {κ : Type w}

/-- A state for every time, and what leads to the next one: an event, or nothing. -/
structure Behaviour (step : σ → ε → Option σ) where
  state : Nat → σ
  event : Nat → Option ε
  taken : ∀ n e, event n = some e → step (state n) e = some (state (n + 1))
  rests : ∀ n, event n = none → state (n + 1) = state n

variable {step : σ → ε → Option σ}

theorem Behaviour.invariant (b : Behaviour step) {I : σ → Prop} (start : I (b.state 0))
    (next : ∀ s e t, I s → step s e = some t → I t) (n : Nat) : I (b.state n) := by
  induction n with
  | zero => exact start
  | succ n ih =>
    cases he : b.event n with
    | none =>
      rw [b.rests n he]
      exact ih
    | some e => exact next _ e _ ih (b.taken n e he)

/-! A finite run, after which nothing happens. -/

theorem take_succ_of_lt {es : List ε} {n : Nat} {e : ε} (he : es[n]? = some e) :
    es.take (n + 1) = es.take n ++ [e] := by
  rw [List.take_add_one, he, Option.toList_some]

theorem run_take {s t : σ} {es : List ε} (hrun : run step s es = some t) (n : Nat) :
    run step s (es.take n) = some ((run step s (es.take n)).getD s) := by
  rw [← List.take_append_drop n es] at hrun
  obtain ⟨m, hm, _⟩ := run_append_eq_some.mp hrun
  rw [hm, Option.getD_some]

theorem run_taken {s t : σ} {es : List ε} (hrun : run step s es = some t) (n : Nat) (e : ε)
    (he : es[n]? = some e) : step ((run step s (es.take n)).getD s) e =
      some ((run step s (es.take (n + 1))).getD s) := by
  have hall := run_take hrun (n + 1)
  rw [take_succ_of_lt he] at hall ⊢
  obtain ⟨m, hm, hstep⟩ := run_concat_eq_some.mp hall
  rw [hm, Option.getD_some]
  exact hstep

theorem run_rests (s : σ) (es : List ε) (n : Nat) (he : es[n]? = none) :
    (run step s (es.take (n + 1))).getD s = (run step s (es.take n)).getD s := by
  have hle : es.length ≤ n := List.getElem?_eq_none_iff.mp he
  rw [List.take_of_length_le hle, List.take_of_length_le (Nat.le_succ_of_le hle)]

def Behaviour.ofRun {s t : σ} {es : List ε} (hrun : run step s es = some t) : Behaviour step where
  state n := (run step s (es.take n)).getD s
  event n := es[n]?
  taken := run_taken hrun
  rests := run_rests s es

theorem ofRun_state {s t : σ} {es : List ε} (hrun : run step s es = some t) {n : Nat}
    (hn : es.length ≤ n) : (Behaviour.ofRun hrun).state n = t := by
  show (run step s (es.take n)).getD s = t
  rw [List.take_of_length_le hn, hrun, Option.getD_some]

/-! Weak fairness. -/

/-- Some event of the kind can be taken. -/
def Enabled (step : σ → ε → Option σ) (kind : ε → Prop) (s : σ) : Prop :=
  ∃ e, kind e ∧ (step s e).isSome

/-- Events of a kind that can be taken at all times from some time on are taken. -/
def Behaviour.WeaklyFair (b : Behaviour step) (kind : ε → Prop) : Prop :=
  ∀ n, (∀ m, n ≤ m → Enabled step kind (b.state m)) → ∃ m e, n ≤ m ∧ b.event m = some e ∧ kind e

/-- How the system gets from `P` to `Q`: at any time one kind of events helps. They can be taken,
and each of them leads to `Q` or lowers the measure; what else happens does so too, or leaves the
measure and the kind of events that helps as they are. -/
structure Progress (step : σ → ε → Option σ) (kind : κ → ε → Prop) (P Q : σ → Prop) where
  measure : σ → Nat
  helpful : σ → κ
  enabled : ∀ s, P s → Enabled step (kind (helpful s)) s
  kept : ∀ s e t, P s → step s e = some t → Q t ∨ P t ∧
    (measure t < measure s ∨ measure t = measure s ∧ helpful t = helpful s)
  helps : ∀ s e t, P s → step s e = some t → kind (helpful s) e → Q t ∨ P t ∧ measure t < measure s

variable {kind : κ → ε → Prop} {P Q : σ → Prop}

/-- From time `n` to time `m` the system gets to `Q` or nearer to it. -/
def Progress.Advances (p : Progress step kind P Q) (b : Behaviour step) (n m : Nat) : Prop :=
  (∀ k, n ≤ k → k < m → P (b.state k)) ∧
    (Q (b.state m) ∨ P (b.state m) ∧ p.measure (b.state m) < p.measure (b.state n))

def Progress.Stays (p : Progress step kind P Q) (b : Behaviour step) (n m : Nat) : Prop :=
  ∀ k, n ≤ k → k ≤ m → P (b.state k) ∧ p.measure (b.state k) = p.measure (b.state n) ∧
    p.helpful (b.state k) = p.helpful (b.state n)

theorem Progress.Stays.next {p : Progress step kind P Q} {b : Behaviour step} {n m : Nat}
    (h : p.Stays b n m) (hnm : n ≤ m) : p.Advances b n (m + 1) ∨ p.Stays b n (m + 1) := by
  obtain ⟨hP, hmeasure, hhelpful⟩ := h m hnm (Nat.le_refl m)
  have hbefore : ∀ k, n ≤ k → k < m + 1 → P (b.state k) :=
    fun k hnk hkm => (h k hnk (Nat.lt_succ_iff.mp hkm)).1
  have hlast : P (b.state (m + 1)) ∧ p.measure (b.state (m + 1)) = p.measure (b.state n) ∧
      p.helpful (b.state (m + 1)) = p.helpful (b.state n) → p.Stays b n (m + 1) := by
    intro hsame k hnk hkm
    rcases Nat.lt_or_eq_of_le hkm with hlt | rfl
    · exact h k hnk (Nat.lt_succ_iff.mp hlt)
    · exact hsame
  cases he : b.event m with
  | none =>
    refine Or.inr (hlast ?_)
    rw [b.rests m he]
    exact ⟨hP, hmeasure, hhelpful⟩
  | some e =>
    rcases p.kept _ e _ hP (b.taken m e he) with hQ | ⟨hP', hless | ⟨hsame, hsame'⟩⟩
    · exact Or.inl ⟨hbefore, Or.inl hQ⟩
    · exact Or.inl ⟨hbefore, Or.inr ⟨hP', hmeasure ▸ hless⟩⟩
    · exact Or.inr (hlast ⟨hP', hsame.trans hmeasure, hsame'.trans hhelpful⟩)

theorem Progress.advances (p : Progress step kind P Q) {b : Behaviour step}
    (fair : ∀ k, b.WeaklyFair (kind k)) {n : Nat} (hn : P (b.state n)) :
    ∃ m, n ≤ m ∧ p.Advances b n m := by
  by_contra hnever
  push Not at hnever
  have hstays : ∀ j, p.Stays b n (n + j) := by
    intro j
    induction j with
    | zero =>
      intro k hnk hkn
      obtain rfl := Nat.le_antisymm hkn hnk
      exact ⟨hn, rfl, rfl⟩
    | succ j ih =>
      exact (ih.next (Nat.le_add_right n j)).resolve_left (hnever _ (by omega))
  have hall : ∀ m, n ≤ m → P (b.state m) ∧ p.measure (b.state m) = p.measure (b.state n) ∧
      p.helpful (b.state m) = p.helpful (b.state n) := fun m hnm =>
    hstays (m - n) m hnm (by omega)
  obtain ⟨m, e, hnm, he, hkind⟩ := fair (p.helpful (b.state n)) n fun m hnm => by
    obtain ⟨hP, _, hhelpful⟩ := hall m hnm
    exact hhelpful ▸ p.enabled _ hP
  obtain ⟨hP, hmeasure, hhelpful⟩ := hall m hnm
  refine hnever (m + 1) (Nat.le_succ_of_le hnm) ⟨fun k hnk _ => (hall k hnk).1, ?_⟩
  exact hmeasure ▸ p.helps _ e _ hP (b.taken m e he) (hhelpful ▸ hkind)

/-- Under weak fairness `P` leads to `Q`, and lasts until then. -/
theorem Progress.eventually (p : Progress step kind P Q) {b : Behaviour step}
    (fair : ∀ k, b.WeaklyFair (kind k)) {n : Nat} (hn : P (b.state n)) :
    ∃ m, n ≤ m ∧ Q (b.state m) ∧ ∀ k, n ≤ k → k < m → P (b.state k) := by
  induction hmeasure : p.measure (b.state n) using Nat.strongRecOn generalizing n with
  | ind r ih =>
    obtain ⟨m, hnm, hbefore, hQ | ⟨hP, hless⟩⟩ := p.advances fair hn
    · exact ⟨m, hnm, hQ, hbefore⟩
    · obtain ⟨m', hmm', hQ, hafter⟩ := ih _ (hmeasure ▸ hless) hP rfl
      refine ⟨m', Nat.le_trans hnm hmm', hQ, fun k hnk hkm' => ?_⟩
      rcases Nat.lt_or_ge k m with hkm | hmk
      · exact hbefore k hnk hkm
      · exact hafter k hmk hkm'

end MdsBlackbox.Lib.Fairness
