/- module: MdsBlackbox/Lib/Transition
   layer: library
   digest: Finite runs of partial labelled steps, their invariants and their simulations. -/

import Mathlib.Data.List.Induction
import Mathlib.Data.Option.Basic

set_option autoImplicit false
set_option relaxedAutoImplicit false

namespace MdsBlackbox.Lib.Transition

universe u v w x y

variable {σ : Type u} {τ : Type v} {ε : Type w} {δ : Type x}

/-- Execute the events in order; `none` as soon as one of them is not enabled. -/
def run (step : σ → ε → Option σ) : σ → List ε → Option σ
  | s, [] => some s
  | s, e :: es => (step s e).bind fun t => run step t es

variable {step : σ → ε → Option σ}

@[simp] theorem run_nil (s : σ) : run step s [] = some s := rfl

theorem run_cons_eq_some {s u : σ} {e : ε} {es : List ε} :
    run step s (e :: es) = some u ↔ ∃ t, step s e = some t ∧ run step t es = some u := by
  simp [run, Option.bind_eq_some_iff]

theorem run_append (s : σ) (es fs : List ε) :
    run step s (es ++ fs) = (run step s es).bind fun t => run step t fs := by
  induction es generalizing s with
  | nil => rfl
  | cons e es ih =>
    simp only [List.cons_append, run, Option.bind_assoc]
    congr 1
    funext t
    exact ih t

theorem run_append_eq_some {s u : σ} {es fs : List ε} :
    run step s (es ++ fs) = some u ↔ ∃ t, run step s es = some t ∧ run step t fs = some u := by
  rw [run_append, Option.bind_eq_some_iff]

theorem run_concat_eq_some {s u : σ} {es : List ε} {e : ε} :
    run step s (es ++ [e]) = some u ↔ ∃ t, run step s es = some t ∧ step t e = some u := by
  rw [run_append_eq_some]
  simp [run]

theorem run_induction {I : List ε → σ → Prop} {s : σ} (start : I [] s)
    (next : ∀ es e t u, run step s es = some t → I es t → step t e = some u → I (es ++ [e]) u)
    {es : List ε} {t : σ} (hrun : run step s es = some t) : I es t := by
  induction es using List.reverseRecOn generalizing t with
  | nil =>
    obtain rfl : s = t := Option.some.inj hrun
    exact start
  | append_singleton es e ih =>
    obtain ⟨m, hm, he⟩ := run_concat_eq_some.mp hrun
    exact next es e m t hm (ih hm) he

theorem invariant {I : σ → Prop} {s : σ} (start : I s)
    (next : ∀ t e u, I t → step t e = some u → I u)
    {es : List ε} {t : σ} (hrun : run step s es = some t) : I t :=
  run_induction (I := fun _ => I) start (fun _ e t u _ hI hu => next t e u hI hu) hrun

/-- `P` holds in every state the run goes through, the first one included. -/
def Throughout (step : σ → ε → Option σ) (P : σ → Prop) (s : σ) (es : List ε) : Prop :=
  ∀ pre t, pre <+: es → run step s pre = some t → P t

theorem throughout_nil {P : σ → Prop} {s : σ} : Throughout step P s [] ↔ P s := by
  constructor
  · intro h
    exact h [] s (List.prefix_refl _) rfl
  · intro h pre t hp hrun
    obtain rfl := List.prefix_nil.mp hp
    obtain rfl : s = t := Option.some.inj hrun
    exact h

theorem throughout_concat {P : σ → Prop} {s t u : σ} {es : List ε} {e : ε}
    (hrun : run step s es = some t) (he : step t e = some u) :
    Throughout step P s (es ++ [e]) ↔ Throughout step P s es ∧ P u := by
  have hall : run step s (es ++ [e]) = some u := run_concat_eq_some.mpr ⟨t, hrun, he⟩
  constructor
  · intro h
    exact ⟨fun pre m hp => h pre m (hp.trans (List.prefix_append _ _)),
      h _ u (List.prefix_refl _) hall⟩
  · rintro ⟨h, hu⟩ pre m hp hm
    rcases List.prefix_concat_iff.mp hp with rfl | hp
    · obtain rfl : u = m := Option.some.inj (hall.symm.trans hm)
      exact hu
    · exact h pre m hp hm

theorem throughout_append {P : σ → Prop} {s t : σ} {es fs : List ε}
    (hrun : run step s es = some t) :
    Throughout step P s (es ++ fs) ↔ Throughout step P s es ∧ Throughout step P t fs := by
  constructor
  · intro h
    refine ⟨fun pre m hp => h pre m (hp.trans (List.prefix_append _ _)), ?_⟩
    intro pre m hp hm
    exact h (es ++ pre) m ((List.prefix_append_right_inj es).mpr hp)
      (run_append_eq_some.mpr ⟨t, hrun, hm⟩)
  · rintro ⟨hes, hfs⟩ pre m hp hm
    rcases List.prefix_or_prefix_of_prefix hp (List.prefix_append es fs) with hes' | ⟨rest, rfl⟩
    · exact hes pre m hes' hm
    · obtain ⟨t', ht', hm⟩ := run_append_eq_some.mp hm
      obtain rfl : t = t' := Option.some.inj (hrun.symm.trans ht')
      exact hfs rest m ((List.prefix_append_right_inj es).mp hp) hm

theorem throughout_cons {P : σ → Prop} {s t : σ} {e : ε} {es : List ε} (he : step s e = some t) :
    Throughout step P s (e :: es) ↔ P s ∧ Throughout step P t es := by
  have hrun : run step s [e] = some t := by simp [run, he]
  have hone : Throughout step P s [e] ↔ Throughout step P s [] ∧ P t :=
    throughout_concat (run_nil s) he
  rw [throughout_nil] at hone
  rw [← List.singleton_append, throughout_append hrun, hone]
  constructor
  · rintro ⟨⟨hs, _⟩, h⟩
    exact ⟨hs, h⟩
  · rintro ⟨hs, h⟩
    exact ⟨⟨hs, h [] t (List.nil_prefix) rfl⟩, h⟩

/-- Each event, at the moment it is taken, meets `C` in the state before it. -/
def EachStep (step : σ → ε → Option σ) (C : σ → ε → Prop) (s : σ) (es : List ε) : Prop :=
  ∀ pre e t, (pre ++ [e]) <+: es → run step s pre = some t → C t e

theorem EachStep.take {C : σ → ε → Prop} {s : σ} {es fs : List ε}
    (h : EachStep step C s es) (hp : fs <+: es) : EachStep step C s fs :=
  fun pre e t hpre hrun => h pre e t (hpre.trans hp) hrun

theorem EachStep.last {C : σ → ε → Prop} {s t : σ} {es : List ε} {e : ε}
    (h : EachStep step C s (es ++ [e])) (hrun : run step s es = some t) : C t e :=
  h es e t (List.prefix_refl _) hrun

theorem eachStep_nil (C : σ → ε → Prop) (s : σ) : EachStep step C s [] := by
  intro pre e t hp
  exact absurd (List.prefix_nil.mp hp) (by simp)

theorem eachStep_concat {C : σ → ε → Prop} {s : σ} {es : List ε} {e : ε} :
    EachStep step C s (es ++ [e]) ↔
      EachStep step C s es ∧ ∀ t, run step s es = some t → C t e := by
  constructor
  · intro h
    exact ⟨h.take (List.prefix_append _ _), fun t ht => h.last ht⟩
  · rintro ⟨h, hlast⟩ pre d t hp ht
    rcases List.prefix_concat_iff.mp hp with he | hp
    · obtain ⟨rfl, rfl⟩ := List.append_singleton_inj.mp he
      exact hlast t ht
    · exact h pre d t hp ht

theorem eachStep_cons {C : σ → ε → Prop} {s t : σ} {e : ε} {es : List ε} (he : step s e = some t) :
    EachStep step C s (e :: es) ↔ C s e ∧ EachStep step C t es := by
  constructor
  · intro h
    refine ⟨h [] e s (by simp) rfl, fun pre d u hp hu => ?_⟩
    exact h (e :: pre) d u (List.cons_prefix_cons.mpr ⟨rfl, hp⟩) (run_cons_eq_some.mpr ⟨t, he, hu⟩)
  · rintro ⟨hfirst, h⟩ pre d u hp hu
    cases pre with
    | nil =>
      obtain rfl : s = u := Option.some.inj hu
      obtain rfl : d = e := (List.cons_prefix_cons.mp hp).1
      exact hfirst
    | cons c pre =>
      obtain ⟨rfl, hrest⟩ := List.cons_prefix_cons.mp hp
      obtain ⟨m, hm, hu⟩ := run_cons_eq_some.mp hu
      obtain rfl : t = m := Option.some.inj (he.symm.trans hm)
      exact h pre d u hrest hu

theorem eachStep_cons_stuck {C : σ → ε → Prop} {s : σ} {e : ε} {es : List ε}
    (he : step s e = none) : EachStep step C s (e :: es) ↔ C s e := by
  constructor
  · exact fun h => h [] e s (by simp) rfl
  · rintro hfirst pre d u hp hu
    cases pre with
    | nil =>
      obtain rfl : s = u := Option.some.inj hu
      obtain rfl : d = e := (List.cons_prefix_cons.mp hp).1
      exact hfirst
    | cons c pre =>
      obtain ⟨rfl, _⟩ := List.cons_prefix_cons.mp hp
      obtain ⟨m, hm, _⟩ := run_cons_eq_some.mp hu
      exact absurd (he.symm.trans hm) (by simp)

/-- Guards can be evaluated along a concrete run. -/
instance decidableEachStep {C : σ → ε → Prop} [∀ s e, Decidable (C s e)] :
    (s : σ) → (es : List ε) → Decidable (EachStep step C s es)
  | s, [] => isTrue (eachStep_nil C s)
  | s, e :: es =>
    match he : step s e with
    | none => decidable_of_iff _ (eachStep_cons_stuck he).symm
    | some t =>
      have : Decidable (EachStep step C t es) := decidableEachStep t es
      decidable_of_iff _ (eachStep_cons he).symm

theorem guarded_induction {I : List ε → σ → Prop} {C : σ → ε → Prop} {s : σ} (start : I [] s)
    (next : ∀ es e t u, I es t → C t e → step t e = some u → I (es ++ [e]) u)
    {es : List ε} {t : σ} (guard : EachStep step C s es) (hrun : run step s es = some t) :
    I es t := by
  have all := run_induction (s := s)
    (I := fun fs u => EachStep step C s fs → I fs u) (fun _ => start)
    (fun fs e m u hm ih hu hg => next fs e m u (ih (hg.take (List.prefix_append _ _)))
      (hg.last hm) hu)
    hrun
  exact all guard

theorem throughout_of_eachStep {I P : σ → Prop} {C : σ → ε → Prop} {s : σ} (start : I s)
    (next : ∀ t e u, I t → C t e → step t e = some u → I u) (sound : ∀ t, I t → P t)
    {es : List ε} (guard : EachStep step C s es) : Throughout step P s es := by
  intro pre t hp hrun
  have hI : I t := guarded_induction (I := fun _ => I) start
    (fun _ e t u hI hC hu => next t e u hI hC hu) (guard.take hp) hrun
  exact sound t hI

theorem eachStep_of_eachStep {I : σ → Prop} {C P : σ → ε → Prop} {s t : σ} (start : I s)
    (next : ∀ t e u, I t → C t e → step t e = some u → I u)
    (sound : ∀ t e u, I t → C t e → step t e = some u → P t e)
    {es : List ε} (hrun : run step s es = some t) (guard : EachStep step C s es) :
    EachStep step P s es := by
  intro pre e m hp hm
  have hI : I m := guarded_induction (I := fun _ => I) start
    (fun _ e t u hI hC hu => next t e u hI hC hu)
    (guard.take ((List.prefix_append pre [e]).trans hp)) hm
  obtain ⟨suffix, rfl⟩ := hp
  obtain ⟨u, hu, _⟩ := run_append_eq_some.mp hrun
  obtain ⟨m', hm', he⟩ := run_concat_eq_some.mp hu
  obtain rfl : m = m' := Option.some.inj (hm.symm.trans hm')
  exact sound m e u hI (guard pre e m (List.prefix_append _ _) hm) he

theorem throughout_iff_eachStep {J P : σ → Prop} {C : σ → ε → Prop} {s t : σ}
    (startJ : J s) (startP : P s) (nextJ : ∀ t e u, J t → step t e = some u → J u)
    (exact_step : ∀ t e u, J t → P t → step t e = some u → (P u ↔ C t e))
    {es : List ε} (hrun : run step s es = some t) :
    Throughout step P s es ↔ EachStep step C s es := by
  constructor
  · intro good pre e m hp hm
    have hpre : pre <+: es := (List.prefix_append pre [e]).trans hp
    obtain ⟨suffix, rfl⟩ := hp
    obtain ⟨u, hu, _⟩ := run_append_eq_some.mp hrun
    obtain ⟨m', hm', he⟩ := run_concat_eq_some.mp hu
    obtain rfl : m = m' := Option.some.inj (hm.symm.trans hm')
    have hJ : J m := invariant startJ nextJ hm
    have hPm : P m := good pre m hpre hm
    exact (exact_step m e u hJ hPm he).mp (good (pre ++ [e]) u (List.prefix_append _ _) hu)
  · intro guard
    refine throughout_of_eachStep (I := fun u => J u ∧ P u) ⟨startJ, startP⟩ ?_ (fun _ h => h.2)
      guard
    intro m e u h hC hu
    exact ⟨nextJ m e u h.1 hu, (exact_step m e u h.1 h.2 hu).mpr hC⟩

/-- A record kept beside the states of a run: `record` sees the state before each event, and no
step ever looks at the record. -/
def history (step : σ → ε → Option σ) (record : σ → ε → τ → τ) : σ → τ → List ε → τ
  | _, h, [] => h
  | s, h, e :: es =>
    match step s e with
    | none => h
    | some t => history step record t (record s e h) es

theorem history_append {record : σ → ε → τ → τ} {s t : σ} {h : τ} {es fs : List ε}
    (hrun : run step s es = some t) :
    history step record s h (es ++ fs) = history step record t (history step record s h es) fs := by
  induction es generalizing s h with
  | nil =>
    obtain rfl : s = t := Option.some.inj hrun
    rfl
  | cons e es ih =>
    obtain ⟨m, hm, hrest⟩ := run_cons_eq_some.mp hrun
    simpa only [List.cons_append, history, hm] using ih hrest

theorem history_concat {record : σ → ε → τ → τ} {s t u : σ} {h : τ} {es : List ε} {e : ε}
    (hrun : run step s es = some t) (he : step t e = some u) :
    history step record s h (es ++ [e]) = record t e (history step record s h es) := by
  rw [history_append hrun]
  simp only [history, he]

theorem history_induction {record : σ → ε → τ → τ} {I : σ → τ → Prop} {s : σ} {h : τ}
    (start : I s h) (next : ∀ t e u k, I t k → step t e = some u → I u (record t e k))
    {es : List ε} {t : σ} (hrun : run step s es = some t) :
    I t (history step record s h es) := by
  refine run_induction (I := fun fs u => I u (history step record s h fs)) start ?_ hrun
  intro fs e m u hm ih hu
  rw [history_concat hm hu]
  exact next m e u _ ih hu

theorem history_stopped {record : σ → ε → τ → τ} {Stopped : σ → Prop}
    (stays : ∀ s e t h, Stopped s → step s e = some t → Stopped t ∧ record s e h = h)
    {s : σ} (hs : Stopped s) (h : τ) (es : List ε) : history step record s h es = h := by
  induction es generalizing s with
  | nil => rfl
  | cons e es ih =>
    cases he : step s e with
    | none => simp only [history, he]
    | some t =>
      obtain ⟨ht, hrecord⟩ := stays s e t h hs he
      simp only [history, he, hrecord]
      exact ih ht

/-- A variant of the system that goes on as the system does, event by event, until the first fatal
event, at which it stops for good, records what the system does before that event. -/
theorem history_fail_stop {ρ : Type y} {step' : ρ → δ → Option ρ} {record : σ → ε → τ → τ}
    {record' : ρ → δ → τ → τ} {R : σ → ρ → Prop} {f : ε → δ} {fatal : ε → Bool}
    {Stopped : ρ → Prop}
    (agree : ∀ s r e t, R s r → fatal e = false → step s e = some t →
      ∃ t', step' r (f e) = some t' ∧ R t t' ∧ ∀ h, record' r (f e) h = record s e h)
    (stop : ∀ s r e t, R s r → fatal e = true → step s e = some t →
      ∃ t', step' r (f e) = some t' ∧ Stopped t' ∧ ∀ h, record' r (f e) h = h)
    (stays : ∀ r d t h, Stopped r → step' r d = some t → Stopped t ∧ record' r d h = h)
    {s t : σ} {r : ρ} (start : R s r) (h : τ) {es : List ε} (hrun : run step s es = some t) :
    history step' record' r h (es.map f) =
      history step record s h (es.takeWhile fun e => !fatal e) := by
  induction es generalizing s r h with
  | nil => rfl
  | cons e es ih =>
    obtain ⟨m, hm, hrest⟩ := run_cons_eq_some.mp hrun
    cases hf : fatal e with
    | false =>
      obtain ⟨m', hm', hR, hrecord⟩ := agree s r e m start hf hm
      rw [List.takeWhile_cons_of_pos (by simp [hf])]
      simp only [List.map_cons, history, hm, hm', hrecord]
      exact ih hR _ hrest
    | true =>
      obtain ⟨m', hm', hstopped, hrecord⟩ := stop s r e m start hf hm
      rw [List.takeWhile_cons_of_neg (by simp [hf])]
      simp only [List.map_cons, history, hm', hrecord]
      exact history_stopped stays hstopped h _

theorem run_simulates {step' : τ → δ → Option τ} {f : σ → τ} {g : ε → Option δ} {I : σ → Prop}
    {s t : σ} (start : I s) (keep : ∀ t e u, I t → step t e = some u → I u)
    (visible : ∀ t e u d, I t → step t e = some u → g e = some d → step' (f t) d = some (f u))
    (hidden : ∀ t e u, I t → step t e = some u → g e = none → f u = f t)
    {es : List ε} (hrun : run step s es = some t) :
    run step' (f s) (es.filterMap g) = some (f t) := by
  have both : I t ∧ run step' (f s) (es.filterMap g) = some (f t) := by
    refine run_induction (s := s)
      (I := fun fs u => I u ∧ run step' (f s) (fs.filterMap g) = some (f u)) ⟨start, rfl⟩ ?_ hrun
    intro fs e m u _ ih hu
    refine ⟨keep m e u ih.1 hu, ?_⟩
    cases hg : g e with
    | none => simpa [List.filterMap_append, hg, hidden m e u ih.1 hu hg] using ih.2
    | some d =>
      have hd := visible m e u d ih.1 hu hg
      rw [List.filterMap_append]
      exact run_append_eq_some.mpr ⟨f m, ih.2, by simp [run, hg, hd]⟩
  exact both.2

theorem eachStep_simulates {step' : τ → δ → Option τ} {f : σ → τ} {g : ε → Option δ} {I : σ → Prop}
    {C : σ → ε → Prop} {C' : τ → δ → Prop} {s t : σ} (start : I s)
    (keep : ∀ t e u, I t → step t e = some u → I u)
    (visible : ∀ t e u d, I t → step t e = some u → g e = some d → step' (f t) d = some (f u))
    (hidden : ∀ t e u, I t → step t e = some u → g e = none → f u = f t)
    (guard : ∀ t e d, C t e → g e = some d → C' (f t) d)
    {es : List ε} (hrun : run step s es = some t) (each : EachStep step C s es) :
    EachStep step' C' (f s) (es.filterMap g) := by
  revert each
  refine run_induction (I := fun fs _ => EachStep step C s fs →
    EachStep step' C' (f s) (fs.filterMap g)) (fun _ => eachStep_nil _ _) ?_ hrun
  intro fs e m u hm ih hu each
  obtain ⟨hfs, hlast⟩ := eachStep_concat.mp each
  rw [List.filterMap_append]
  cases hg : g e with
  | none => simpa [hg] using ih hfs
  | some d =>
    have hd : [e].filterMap g = [d] := by simp [hg]
    rw [hd, eachStep_concat]
    refine ⟨ih hfs, fun v hv => ?_⟩
    have hm' : run step' (f s) (fs.filterMap g) = some (f m) :=
      run_simulates start keep visible hidden hm
    obtain rfl : f m = v := Option.some.inj (hm'.symm.trans hv)
    exact guard m e d (hlast m hm) hg

/-- Deleted events: a run stays related to the run without them when the system answers to every
kept event on both sides and the relation survives every deleted one. -/
theorem run_filter {R : σ → σ → Prop} {kept : ε → Bool}
    (visible : ∀ s t e u, R s t → kept e = true → step s e = some u →
      ∃ v, step t e = some v ∧ R u v)
    (hidden : ∀ s t e u, R s t → kept e = false → step s e = some u → R u t)
    {s t u : σ} (start : R s t) {es : List ε} (hrun : run step s es = some u) :
    ∃ v, run step t (es.filter kept) = some v ∧ R u v := by
  induction es generalizing s t with
  | nil =>
    obtain rfl : s = u := Option.some.inj hrun
    exact ⟨t, rfl, start⟩
  | cons e es ih =>
    obtain ⟨m, hm, hrest⟩ := run_cons_eq_some.mp hrun
    cases hk : kept e with
    | true =>
      obtain ⟨n, hn, hR⟩ := visible s t e m start hk hm
      obtain ⟨v, hv, hRv⟩ := ih hR hrest
      rw [List.filter_cons_of_pos hk]
      exact ⟨v, run_cons_eq_some.mpr ⟨n, hn, hv⟩, hRv⟩
    | false =>
      obtain ⟨v, hv, hRv⟩ := ih (hidden s t e m start hk hm) hrest
      rw [List.filter_cons_of_neg (by simp [hk])]
      exact ⟨v, hv, hRv⟩

/-- A forward simulation of a total abstract action: whatever the abstract inputs, the concrete
system can take them and stays related. -/
theorem run_refines {R : σ → τ → Prop} {act : τ → δ → τ} {input : δ → ε}
    (forward : ∀ s t d, R s t → ∃ u, step s (input d) = some u ∧ R u (act t d))
    {s : σ} {t : τ} (start : R s t) (ds : List δ) :
    ∃ u, run step s (ds.map input) = some u ∧ R u (ds.foldl act t) := by
  induction ds generalizing s t with
  | nil => exact ⟨s, rfl, start⟩
  | cons d ds ih =>
    obtain ⟨m, hm, hR⟩ := forward s t d start
    obtain ⟨u, hu, hRu⟩ := ih hR
    exact ⟨u, run_cons_eq_some.mpr ⟨m, hm, hu⟩, hRu⟩

end MdsBlackbox.Lib.Transition
