import Mathlib

/-!
# Systems of steps

A system has initial states and steps. What holds initially and is kept by each step holds in every
state that is reached; a step may be shown to keep it with the help of what is known already.
-/

universe u

/-- A transition system over `σ`. -/
structure System (σ : Type u) where
  init : σ → Prop
  step : σ → σ → Prop

namespace System

variable {σ : Type u} {S : System σ}

/-- The states that the system comes to. -/
inductive Reach (S : System σ) : σ → Prop
  | init {s : σ} : S.init s → Reach S s
  | step {s s' : σ} : Reach S s → S.step s s' → Reach S s'

/-- It holds initially and no step breaks it. -/
structure Invariant (S : System σ) (I : σ → Prop) : Prop where
  init : ∀ {s}, S.init s → I s
  step : ∀ {s s'}, I s → S.step s s' → I s'

namespace Invariant

theorem reach {I : σ → Prop} (h : S.Invariant I) {s : σ} (hs : S.Reach s) : I s := by
  induction hs with
  | init hinit => exact h.init hinit
  | step _ hstep ih => exact h.step ih hstep

/-- Another invariant, its steps taken from states with the first. -/
theorem and {I J : σ → Prop} (h : S.Invariant I) (hinit : ∀ {s}, S.init s → J s)
    (hstep : ∀ {s s'}, I s → J s → S.step s s' → J s') : S.Invariant fun s => I s ∧ J s where
  init hs := ⟨h.init hs, hinit hs⟩
  step hs hs' := ⟨h.step hs.1 hs', hstep hs.1 hs.2 hs'⟩

end Invariant

end System
