/- module: MdsBlackbox/Lib/Loop
   layer: library
   digest: Programs that may fault or run on, and the rules for their loops. -/

import Mathlib.Init

set_option autoImplicit false
set_option relaxedAutoImplicit false

namespace MdsBlackbox.Lib.Loop

universe u v w

/-- Where a program stands after the turns that its loops were given: not yet at its end, stopped
by a fault, or ended with a value. -/
inductive Outcome (ε : Type u) (α : Type v)
  | running
  | fault (e : ε)
  | done (a : α)
  deriving DecidableEq

variable {ε : Type u} {σ : Type w}

def Outcome.bind {α β : Type v} : Outcome ε α → (α → Outcome ε β) → Outcome ε β
  | .running, _ => .running
  | .fault e, _ => .fault e
  | .done a, f => f a

instance : Monad (Outcome ε) where
  pure := .done
  bind := Outcome.bind

section
variable {α β : Type v}

@[simp] theorem pure_eq (a : α) : (pure a : Outcome ε α) = .done a := rfl

@[simp] theorem done_bind (a : α) (f : α → Outcome ε β) : (.done a >>= f) = f a := rfl

@[simp] theorem fault_bind (e : ε) (f : α → Outcome ε β) : (.fault e >>= f) = .fault e := rfl

@[simp] theorem running_bind (f : α → Outcome ε β) : (.running >>= f) = .running := rfl

/-! More turns. -/

/-- `y` is `x`, or what `x` comes to when its loops are given more turns. -/
def Outcome.Le (x y : Outcome ε α) : Prop := x ≠ .running → y = x

theorem Outcome.Le.refl (x : Outcome ε α) : x.Le x := fun _ => rfl

theorem bind_mono {x y : Outcome ε α} {f g : α → Outcome ε β} (hx : x.Le y)
    (hf : ∀ a, (f a).Le (g a)) : (x >>= f).Le (y >>= g) := by
  intro hne
  cases x with
  | running => exact absurd rfl hne
  | fault e => rw [hx (by simp)]; rfl
  | done a =>
    rw [hx (by simp)]
    exact hf a hne

theorem outcome_unique {f : Nat → Outcome ε α} (hf : ∀ n m, n ≤ m → (f n).Le (f m)) {n m : Nat}
    {x y : Outcome ε α} (hn : f n = x) (hm : f m = y) (hx : x ≠ .running) (hy : y ≠ .running) :
    x = y := by
  subst hn hm
  rcases Nat.le_total n m with h | h
  · exact (hf n m h hx).symm
  · exact hf m n h hy

end

/-! Loops. -/

/-- A turn of a loop goes on to the next one or leaves the loop. -/
inductive Turn (σ : Type w) (α : Type v)
  | next (s : σ)
  | leave (a : α)
  deriving DecidableEq

variable {α : Type w}

/-- A loop that is given `n` turns at most. -/
def loop (body : σ → Outcome ε (Turn σ α)) : Nat → σ → Outcome ε α
  | 0, _ => .running
  | n + 1, s => do
    match ← body s with
    | .next t => loop body n t
    | .leave a => pure a

variable {body : σ → Outcome ε (Turn σ α)}

theorem loop_next {s t : σ} (h : body s = .done (.next t)) (n : Nat) :
    loop body (n + 1) s = loop body n t := by
  simp [loop, h]

theorem loop_leave {s : σ} {a : α} (h : body s = .done (.leave a)) (n : Nat) :
    loop body (n + 1) s = .done a := by
  simp [loop, h]

theorem loop_fault {s : σ} {e : ε} (h : body s = .fault e) (n : Nat) :
    loop body (n + 1) s = .fault e := by
  simp [loop, h]

theorem loop_mono {n m : Nat} (h : n ≤ m) (s : σ) : (loop body n s).Le (loop body m s) := by
  induction n generalizing m s with
  | zero => exact fun hne => absurd rfl hne
  | succ n ih =>
    obtain ⟨m, rfl⟩ : ∃ k, m = k + 1 := Nat.exists_eq_succ_of_ne_zero (by omega)
    refine bind_mono (Outcome.Le.refl _) fun turn => ?_
    cases turn with
    | next t => exact ih (by omega) t
    | leave a => exact Outcome.Le.refl _

theorem loop_ends (I : σ → Prop) (Q : α → Prop) (variant : σ → Nat)
    (turn : ∀ s, I s → (∃ a, body s = .done (.leave a) ∧ Q a) ∨
      ∃ t, body s = .done (.next t) ∧ I t ∧ variant t < variant s)
    {s : σ} (hs : I s) {n : Nat} (hn : variant s < n) : ∃ a, loop body n s = .done a ∧ Q a := by
  induction n generalizing s with
  | zero => omega
  | succ n ih =>
    rcases turn s hs with ⟨a, hbody, hQ⟩ | ⟨t, hbody, ht, hdown⟩
    · exact ⟨a, loop_leave hbody n, hQ⟩
    · rw [loop_next hbody]
      exact ih ht (by omega)

end MdsBlackbox.Lib.Loop
