import Mathlib

/-!
# Programs over calls

A program has its result or makes a call to code outside it and goes on with the answer. A run is the
list of calls with the answers they got, whatever answers those were; `Every` is what holds of every
run, with a rule for each way a program is put together. A world answers the calls from a state of
its own, and what it does with a program is one of the runs.
-/

universe u w

/-- Programs with calls `C`, answered by `ans`. -/
inductive Prog (C : Type u) (ans : C → Type u) (ρ : Type u) : Type u
  | ret (r : ρ) : Prog C ans ρ
  | call (c : C) (k : ans c → Prog C ans ρ) : Prog C ans ρ

namespace Prog

variable {C : Type u} {ans : C → Type u} {ρ ρ' : Type u}

/-- A call with its answer. -/
abbrev Event (C : Type u) (ans : C → Type u) := (c : C) × ans c

def bind : Prog C ans ρ → (ρ → Prog C ans ρ') → Prog C ans ρ'
  | .ret r, f => f r
  | .call c k, f => .call c fun a => (k a).bind f

instance : Monad (Prog C ans) where
  pure := .ret
  bind := bind

/-- The call whose answer is the result. -/
def ask (c : C) : Prog C ans (ans c) := .call c .ret

/-- The calls a run makes, with their answers, and its result. -/
inductive Run : Prog C ans ρ → List (Event C ans) → ρ → Prop
  | ret {r : ρ} : Run (.ret r) [] r
  | call {c : C} {k : ans c → Prog C ans ρ} {a : ans c} {t : List (Event C ans)} {r : ρ} :
    Run (k a) t r → Run (.call c k) (⟨c, a⟩ :: t) r

/-- It holds of the calls and the result of every run. -/
def Every : Prog C ans ρ → (List (Event C ans) → ρ → Prop) → Prop
  | .ret r, Q => Q [] r
  | .call c k, Q => ∀ a, (k a).Every fun t r => Q (⟨c, a⟩ :: t) r

theorem every_iff {p : Prog C ans ρ} {Q : List (Event C ans) → ρ → Prop} :
    p.Every Q ↔ ∀ t r, Run p t r → Q t r := by
  induction p generalizing Q with
  | ret r =>
    constructor
    · rintro h t r ⟨⟩
      exact h
    · intro h
      exact h [] r .ret
  | call c k ih =>
    constructor
    · rintro h t r ⟨⟩
      next hrun => exact (ih _).mp (h _) _ r hrun
    · intro h a
      exact (ih a).mpr fun t r hrun => h _ r (.call hrun)

theorem every_ret {r : ρ} {Q : List (Event C ans) → ρ → Prop} :
    (pure r : Prog C ans ρ).Every Q ↔ Q [] r := Iff.rfl

theorem every_ask {c : C} {Q : List (Event C ans) → ans c → Prop} :
    (ask c : Prog C ans (ans c)).Every Q ↔ ∀ a, Q [⟨c, a⟩] a := Iff.rfl

theorem every_bind {p : Prog C ans ρ} {f : ρ → Prog C ans ρ'} {Q : List (Event C ans) → ρ' → Prop} :
    (p >>= f).Every Q ↔ p.Every fun t a => (f a).Every fun t' r => Q (t ++ t') r := by
  induction p generalizing Q with
  | ret r => exact Iff.rfl
  | call c k ih =>
    show (∀ a, (k a >>= f).Every _) ↔ ∀ a, (k a).Every _
    exact forall_congr' fun a => ih a

theorem Every.imp {p : Prog C ans ρ} {Q R : List (Event C ans) → ρ → Prop} (h : p.Every Q)
    (himp : ∀ t r, Q t r → R t r) : p.Every R :=
  every_iff.mpr fun t r hrun => himp t r (every_iff.mp h t r hrun)

theorem Every.and {p : Prog C ans ρ} {Q R : List (Event C ans) → ρ → Prop} (h : p.Every Q)
    (h' : p.Every R) : p.Every fun t r => Q t r ∧ R t r :=
  every_iff.mpr fun t r hrun => ⟨every_iff.mp h t r hrun, every_iff.mp h' t r hrun⟩

/-! ## Worlds -/

/-- Code that answers the calls, with a state of its own. -/
def World (C : Type u) (ans : C → Type u) (σ : Type w) := (c : C) → σ → ans c × σ

variable {σ : Type w}

/-- The program in a world: what it calls, its result, and the state it leaves. -/
def exec (world : World C ans σ) : Prog C ans ρ → σ → List (Event C ans) × ρ × σ
  | .ret r, s => ([], r, s)
  | .call c k, s =>
    let (a, s') := world c s
    let (t, r, s'') := (k a).exec world s'
    (⟨c, a⟩ :: t, r, s'')

theorem exec_ret {world : World C ans σ} {r : ρ} {s : σ} :
    (pure r : Prog C ans ρ).exec world s = ([], r, s) := rfl

/-- A call that is answered with `a`, and the state behind it. -/
theorem exec_ask {world : World C ans σ} {c : C} {f : ans c → Prog C ans ρ} {s s' : σ} {a : ans c}
    (h : world c s = (a, s')) :
    (ask c >>= f : Prog C ans ρ).exec world s =
      (⟨c, a⟩ :: ((f a).exec world s').1, ((f a).exec world s').2) := by
  have hcall : (ask c >>= f : Prog C ans ρ).exec world s =
      (⟨c, (world c s).1⟩ :: ((f (world c s).1).exec world (world c s).2).1,
        ((f (world c s).1).exec world (world c s).2).2) := rfl
  rw [hcall, h]

theorem exec_run (world : World C ans σ) (p : Prog C ans ρ) (s : σ) :
    Run p (p.exec world s).1 (p.exec world s).2.1 := by
  induction p generalizing s with
  | ret r => exact .ret
  | call c k ih => exact .call (ih _ _)

/-! ## Worlds that choose -/

/-- A trace that a world may answer, with what each event may make of its state. -/
inductive Steps (step : σ → Event C ans → σ → Prop) : σ → List (Event C ans) → σ → Prop
  | nil {s : σ} : Steps step s [] s
  | cons {s s' s'' : σ} {e : Event C ans} {t : List (Event C ans)} :
    step s e s' → Steps step s' t s'' → Steps step s (e :: t) s''

variable {step : σ → Event C ans → σ → Prop}

theorem steps_append {s s'' : σ} {t t' : List (Event C ans)} :
    Steps step s (t ++ t') s'' ↔ ∃ s', Steps step s t s' ∧ Steps step s' t' s'' := by
  induction t generalizing s with
  | nil =>
    refine ⟨fun h => ⟨s, .nil, h⟩, ?_⟩
    rintro ⟨s', ⟨⟩, h⟩
    exact h
  | cons e t ih =>
    constructor
    · rintro ⟨⟩
      next s₁ he ht =>
        obtain ⟨s', ht, ht'⟩ := ih.mp ht
        exact ⟨s', .cons he ht, ht'⟩
    · rintro ⟨s', h, ht'⟩
      cases h with
      | cons he ht => exact .cons he (ih.mpr ⟨s', ht, ht'⟩)

theorem steps_singleton {s s' : σ} {e : Event C ans} : Steps step s [e] s' ↔ step s e s' := by
  constructor
  · rintro ⟨⟩
    next he ht =>
      cases ht
      exact he
  · exact fun h => .cons h .nil

end Prog
