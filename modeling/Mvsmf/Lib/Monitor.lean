import Mvsmf.Lib.Prog

/-!
# Monitors

A monitor watches the calls of a program with a state of its own and says which call it allows in
it. A program obeys it if, whatever the answers, it makes none but allowed calls; there is a rule for
each way a program is put together. In a run of such a program every call was allowed by what had
been answered before it.
-/

universe u w

namespace Prog

variable {C : Type u} {ans : C → Type u} {ρ ρ' : Type u}

/-- A state that goes along with the events, and the calls allowed in it. -/
structure Monitor (C : Type u) (ans : C → Type u) (σ : Type w) where
  next : σ → Event C ans → σ
  allow : σ → C → Prop

namespace Monitor

variable {σ : Type w} (m : Monitor C ans σ)

/-- The state behind some events. -/
def after (s : σ) (t : List (Event C ans)) : σ := t.foldl m.next s

/-- The program makes only calls that are allowed, and what it comes to has `Q`. -/
def Obeys : σ → Prog C ans ρ → (σ → ρ → Prop) → Prop
  | s, .ret r, Q => Q s r
  | s, .call c k, Q => m.allow s c ∧ ∀ a, Obeys (m.next s ⟨c, a⟩) (k a) Q

variable {m} {s : σ}

theorem obeys_ret {r : ρ} {Q : σ → ρ → Prop} : m.Obeys s (pure r) Q ↔ Q s r := Iff.rfl

theorem obeys_bind {p : Prog C ans ρ} {f : ρ → Prog C ans ρ'} {Q : σ → ρ' → Prop} :
    m.Obeys s (p >>= f) Q ↔ m.Obeys s p fun s' r => m.Obeys s' (f r) Q := by
  induction p generalizing s with
  | ret r => exact Iff.rfl
  | call c k ih => exact and_congr_right fun _ => forall_congr' fun a => ih a

theorem obeys_ask_bind {c : C} {f : ans c → Prog C ans ρ} {Q : σ → ρ → Prop} :
    m.Obeys s (ask c >>= f) Q ↔ m.allow s c ∧ ∀ a, m.Obeys (m.next s ⟨c, a⟩) (f a) Q := Iff.rfl

theorem Obeys.imp {p : Prog C ans ρ} {Q R : σ → ρ → Prop} (h : m.Obeys s p Q)
    (himp : ∀ s r, Q s r → R s r) : m.Obeys s p R := by
  induction p generalizing s with
  | ret r => exact himp s r h
  | call c k ih => exact ⟨h.1, fun a => ih a (h.2 a)⟩

/-- What the program comes to has `Q`, in the state behind the run. -/
theorem Obeys.result {p : Prog C ans ρ} {Q : σ → ρ → Prop} {t : List (Event C ans)} {r : ρ}
    (h : m.Obeys s p Q) (hrun : Run p t r) : Q (m.after s t) r := by
  induction hrun generalizing s with
  | ret => exact h
  | call _ ih => exact ih (h.2 _)

/-- Every call of a run was allowed by what was answered before it. -/
theorem Obeys.allowed {p : Prog C ans ρ} {Q : σ → ρ → Prop} {t : List (Event C ans)} {r : ρ}
    (h : m.Obeys s p Q) (hrun : Run p t r) {before behind : List (Event C ans)} {e : Event C ans}
    (ht : t = before ++ e :: behind) : m.allow (m.after s before) e.1 := by
  induction hrun generalizing s before with
  | ret => exact absurd ht (List.append_ne_nil_of_right_ne_nil _ (List.cons_ne_nil _ _)).symm
  | call _ ih =>
    cases before with
    | nil =>
      obtain ⟨rfl, -⟩ := List.cons.inj ht
      exact h.1
    | cons _ before =>
      obtain ⟨rfl, htail⟩ := List.cons.inj ht
      exact ih (h.2 _) htail

/-- What the allowed calls keep of the state and of what has been answered, a run keeps. -/
theorem Obeys.invariant {p : Prog C ans ρ} {Q : σ → ρ → Prop} {t : List (Event C ans)} {r : ρ}
    (h : m.Obeys s p Q) (hrun : Run p t r) {I : σ → List (Event C ans) → Prop}
    (hstep : ∀ s t e, I s t → m.allow s e.1 → I (m.next s e) (t ++ [e]))
    {before : List (Event C ans)} (hI : I s before) : I (m.after s t) (before ++ t) := by
  induction hrun generalizing s before with
  | ret => rwa [List.append_nil]
  | call _ ih =>
    have hnext := ih (h.2 _) (hstep s before _ hI h.1)
    rwa [List.append_assoc] at hnext

/-! ## What a program keeps -/

/-- From a state with `I` the program obeys, and it leaves one with `I`. -/
def Keeps (m : Monitor C ans σ) (I : σ → Prop) (p : Prog C ans ρ) : Prop :=
  ∀ s, I s → m.Obeys s p fun s' _ => I s'

variable {I : σ → Prop}

theorem Keeps.ret (r : ρ) : m.Keeps I (pure r : Prog C ans ρ) := fun _ h => h

theorem Keeps.ask {c : C} (h : ∀ s, I s → m.allow s c ∧ ∀ a, I (m.next s ⟨c, a⟩)) :
    m.Keeps I (ask c : Prog C ans (ans c)) := fun s hs => h s hs

theorem Keeps.bind {p : Prog C ans ρ} {f : ρ → Prog C ans ρ'} (hp : m.Keeps I p)
    (hf : ∀ r, m.Keeps I (f r)) : m.Keeps I (p >>= f) :=
  fun s hs => obeys_bind.mpr ((hp s hs).imp fun s' r hs' => hf r s' hs')

theorem Keeps.ite {c : Prop} [Decidable c] {p p' : Prog C ans ρ} (hp : m.Keeps I p)
    (hp' : m.Keeps I p') : m.Keeps I (if c then p else p') := by
  split
  · exact hp
  · exact hp'

/-! ## The history as the state -/

/-- The state is what has been answered so far. -/
def history (allow : List (Event C ans) → C → Prop) : Monitor C ans (List (Event C ans)) where
  next h e := h ++ [e]
  allow := allow

theorem after_history (allow : List (Event C ans) → C → Prop) (h t : List (Event C ans)) :
    (history allow).after h t = h ++ t := by
  induction t generalizing h with
  | nil => exact (List.append_nil h).symm
  | cons e t ih =>
    have hstep : (history allow).after h (e :: t) = (history allow).after (h ++ [e]) t := rfl
    rw [hstep, ih, List.append_assoc]
    rfl

/-- In a run from the start a call is allowed by the part of the run before it. -/
theorem Obeys.history_allowed {allow : List (Event C ans) → C → Prop} {p : Prog C ans ρ}
    {Q : List (Event C ans) → ρ → Prop} {t : List (Event C ans)} {r : ρ}
    (h : (history allow).Obeys [] p Q) (hrun : Run p t r) {before behind : List (Event C ans)}
    {e : Event C ans} (ht : t = before ++ e :: behind) : allow before e.1 := by
  have hallow := h.allowed hrun ht
  rwa [after_history] at hallow

theorem Obeys.history_result {allow : List (Event C ans) → C → Prop} {p : Prog C ans ρ}
    {Q : List (Event C ans) → ρ → Prop} {t : List (Event C ans)} {r : ρ}
    (h : (history allow).Obeys [] p Q) (hrun : Run p t r) : Q t r := by
  have hQ := h.result hrun
  rwa [after_history] at hQ

end Monitor

/-! ## Calls that do not look at the state -/

/-- A call whose answer is the same in every state, and that leaves the state alone. -/
def World.Blind {σ : Type w} (world : World C ans σ) (c : C) : Prop :=
  ∀ s s', (world c s).1 = (world c s').1 ∧ (world c s).2 = s

/-- A program that makes only such calls does the same in every state. -/
theorem exec_blind {σ : Type w} {world : World C ans σ} {p : Prog C ans ρ} {s : σ}
    (h : ∀ e ∈ (p.exec world s).1, world.Blind e.1) (s' : σ) :
    p.exec world s' = ((p.exec world s).1, (p.exec world s).2.1, s') := by
  induction p generalizing s s' with
  | ret r => rfl
  | call c k ih =>
    have hc : world.Blind c := h ⟨c, (world c s).1⟩ List.mem_cons_self
    obtain ⟨hans, hstate'⟩ := hc s' s
    obtain ⟨-, hstate⟩ := hc s s
    have hrest := ih (world c s).1 (s := (world c s).2)
      (fun e he => h e (List.mem_cons_of_mem _ he)) s'
    have hcall : (Prog.call c k).exec world s' =
        (⟨c, (world c s').1⟩ :: ((k (world c s').1).exec world (world c s').2).1,
          ((k (world c s').1).exec world (world c s').2).2) := rfl
    rw [hcall, hans, hstate', hrest]
    rfl

end Prog
