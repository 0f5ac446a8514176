import Mathlib

/-!
# Times that lines go by

Some entries of a list carry a time and some do not; one without a time of its own goes by the time
of the entry before it. Where the times do not decrease, the last one is the latest.
-/

universe u v w

namespace Stamps

variable {α : Type u} {β : Type v} {γ : Type w}

/-- The time that is current behind the entries. -/
def last (own : α → Option β) (cur : Option β) (as : List α) : Option β :=
  as.foldl (fun c a => (own a).or c) cur

/-- The entries, each with the time it goes by. -/
def carried (own : α → Option β) : Option β → List α → List (Option β × α)
  | _, [] => []
  | cur, a :: as => ((own a).or cur, a) :: carried own ((own a).or cur) as

variable {own : α → Option β}

@[simp] theorem last_nil (cur : Option β) : last own cur [] = cur := rfl

@[simp] theorem last_cons (cur : Option β) (a : α) (as : List α) :
    last own cur (a :: as) = last own ((own a).or cur) as := rfl

theorem last_append (cur : Option β) (as bs : List α) :
    last own cur (as ++ bs) = last own (last own cur as) bs := List.foldl_append

theorem last_concat (cur : Option β) (as : List α) (a : α) :
    last own cur (as ++ [a]) = (own a).or (last own cur as) := last_append cur as [a]

@[simp] theorem length_carried (cur : Option β) (as : List α) :
    (carried own cur as).length = as.length := by
  induction as generalizing cur with
  | nil => rfl
  | cons a as ih => rw [carried, List.length_cons, List.length_cons, ih]

theorem carried_append (cur : Option β) (as bs : List α) :
    carried own cur (as ++ bs) = carried own cur as ++ carried own (last own cur as) bs := by
  induction as generalizing cur with
  | nil => rfl
  | cons a as ih => rw [List.cons_append, carried, carried, last_cons, ih, List.cons_append]

theorem carried_concat (cur : Option β) (as : List α) (a : α) :
    carried own cur (as ++ [a]) =
      carried own cur as ++ [((own a).or (last own cur as), a)] := carried_append cur as [a]

/-- The time behind the entries is the one before them or one of theirs. -/
theorem last_mem {as : List α} {cur : Option β} {t : β} (h : last own cur as = some t) :
    cur = some t ∨ ∃ a ∈ as, own a = some t := by
  induction as generalizing cur with
  | nil => exact Or.inl h
  | cons a as ih =>
    rcases ih (last_cons cur a as ▸ h) with hcur | ⟨b, hb, hown⟩
    · cases ha : own a with
      | none =>
        rw [ha] at hcur
        exact Or.inl hcur
      | some s =>
        rw [ha] at hcur
        exact Or.inr ⟨a, List.mem_cons_self, ha.trans hcur⟩
    · exact Or.inr ⟨b, List.mem_cons_of_mem a hb, hown⟩

/-- The time before the entries is only current behind them if none has its own. -/
theorem last_eq_or (cur : Option β) (as : List α) : last own cur as = (last own none as).or cur := by
  induction as generalizing cur with
  | nil => rfl
  | cons a as ih =>
    rw [last_cons, last_cons, ih ((own a).or cur), ih ((own a).or none), Option.or_none,
      Option.or_assoc]

/-- What is counted of the entries does not depend on the time before them, if it counts none that
goes by that one. -/
theorem countP_carried {cur : Option β} {p : Option β × α → Bool} (hnone : ∀ a, p (none, a) = false)
    (hcur : ∀ a, p (cur, a) = false) (as : List α) :
    (carried own cur as).countP p = (carried own none as).countP p := by
  induction as with
  | nil => rfl
  | cons a as ih =>
    rw [carried, carried]
    cases own a with
    | none => rw [Option.none_or, Option.none_or, List.countP_cons, List.countP_cons, hcur, hnone, ih]
    | some t => rfl

theorem countP_carried_none_le {p : Option β × α → Bool} (hnone : ∀ a, p (none, a) = false)
    (cur : Option β) (as : List α) :
    (carried own none as).countP p ≤ (carried own cur as).countP p := by
  induction as with
  | nil => exact Nat.le_refl _
  | cons a as ih =>
    rw [carried, carried]
    cases own a with
    | some t => exact Nat.le_refl _
    | none =>
      rw [Option.none_or, Option.none_or, List.countP_cons, List.countP_cons, hnone,
        if_neg Bool.false_ne_true]
      exact Nat.le_add_right_of_le ih

/-- A time that an entry goes by is the one before the entries or one of theirs. -/
theorem carried_mem {as : List α} {cur : Option β} {p : Option β × α} {t : β}
    (hp : p ∈ carried own cur as) (ht : p.1 = some t) :
    cur = some t ∨ ∃ a ∈ as, own a = some t := by
  induction as generalizing cur with
  | nil => cases hp
  | cons a as ih =>
    have hnow : (own a).or cur = some t → cur = some t ∨ ∃ b ∈ a :: as, own b = some t := by
      intro h
      have hlast : last own cur [a] = some t := h
      rcases last_mem hlast with hcur | ⟨b, hb, hown⟩
      · exact Or.inl hcur
      · exact Or.inr ⟨b, List.mem_cons.mpr (Or.inl (List.mem_singleton.mp hb)), hown⟩
    rw [carried, List.mem_cons] at hp
    rcases hp with rfl | hp
    · exact hnow ht
    · rcases ih hp with hcur | ⟨b, hb, hown⟩
      · exact hnow hcur
      · exact Or.inr ⟨b, List.mem_cons_of_mem a hb, hown⟩

/-- With a time before the entries there is one behind them. -/
theorem last_isSome {as : List α} {cur : Option β} (h : cur.isSome) : (last own cur as).isSome := by
  induction as generalizing cur with
  | nil => exact h
  | cons a as ih =>
    have hor : ((own a).or cur).isSome := by
      cases own a with
      | none => exact h
      | some t => rfl
    exact ih hor

end Stamps
