import Mathlib

/-!
# Tables of slots

A table is a function from slot numbers. A search goes through the numbers in ascending order and
stops at the first hit; the least slot is the first of those with the smallest measure.
-/

namespace Slots

variable {n : Nat} {α : Type}

/-- The first slot with `p`. -/
def first (p : α → Bool) (s : Fin n → α) : Option (Fin n) :=
  (List.finRange n).find? fun i => p (s i)

theorem first_some {p : α → Bool} {s : Fin n → α} {i : Fin n} (h : first p s = some i) :
    p (s i) = true := by
  have := List.find?_some h
  exact this

/-- The slots in front of the first hit are none. -/
theorem first_before {p : α → Bool} {s : Fin n → α} {i j : Fin n} (h : first p s = some i)
    (hj : j < i) : p (s j) = false := by
  obtain ⟨-, as, bs, hsplit, has⟩ := List.find?_eq_some_iff_append.mp h
  have hmem : j ∈ as ++ i :: bs := by
    rw [← hsplit]
    exact List.mem_finRange j
  have hsorted : (as ++ i :: bs).Pairwise (· < ·) := by
    rw [← hsplit]
    exact List.sortedLT_finRange n |>.pairwise
  rcases List.mem_append.mp hmem with hja | hjb
  · simpa using has j hja
  · rcases List.mem_cons.mp hjb with rfl | hjb
    · exact absurd hj (lt_irrefl _)
    · have := List.rel_of_pairwise_cons (List.pairwise_append.mp hsorted).2.1 hjb
      exact absurd hj (lt_asymm this)

theorem first_none {p : α → Bool} {s : Fin n → α} :
    first p s = none ↔ ∀ i, p (s i) = false := by
  simp [first]

/-- The least slot by a measure, ties going to the first. -/
def least [NeZero n] (f : α → UInt64) (s : Fin n → α) : Fin n :=
  (List.finRange n).tail.foldl (fun lru i => if f (s i) < f (s lru) then i else lru) 0

theorem foldl_least_le (f : α → UInt64) (s : Fin n → α) (is : List (Fin n)) (b : Fin n) :
    let m := is.foldl (fun lru i => if f (s i) < f (s lru) then i else lru) b
    f (s m) ≤ f (s b) ∧ ∀ i ∈ is, f (s m) ≤ f (s i) := by
  induction is generalizing b with
  | nil => exact ⟨UInt64.le_refl _, by simp⟩
  | cons a is ih =>
    obtain ⟨hb, his⟩ := ih (if f (s a) < f (s b) then a else b)
    simp only [List.foldl_cons]
    split at hb
    next h =>
      rw [if_pos h] at his ⊢
      refine ⟨UInt64.le_trans hb (UInt64.le_of_lt h), fun i hi => ?_⟩
      rcases List.mem_cons.mp hi with rfl | hi
      · exact hb
      · exact his i hi
    next h =>
      rw [if_neg h] at his ⊢
      refine ⟨hb, fun i hi => ?_⟩
      rcases List.mem_cons.mp hi with rfl | hi
      · exact UInt64.le_trans hb (UInt64.not_lt.mp h)
      · exact his i hi

theorem least_le [NeZero n] (f : α → UInt64) (s : Fin n → α) (i : Fin n) :
    f (s (least f s)) ≤ f (s i) := by
  obtain ⟨h0, hall⟩ := foldl_least_le f s (List.finRange n).tail 0
  have hi : i = 0 ∨ i ∈ (List.finRange n).tail := by
    obtain ⟨k, rfl⟩ := Nat.exists_eq_succ_of_ne_zero (NeZero.ne n)
    have := List.mem_finRange i
    rw [List.finRange_succ] at this ⊢
    simpa using this
  rcases hi with rfl | hi
  · exact h0
  · exact hall i hi

end Slots
