import Mathlib

/-!
# Fields between separators

Fields put together with a separator are the fields of the text exactly if none of them has the
separator in it.
-/

namespace List

variable {α : Type*} [DecidableEq α] {x : α}

theorem notMem_of_mem_splitOn {xs : List α} : ∀ f ∈ xs.splitOn x, x ∉ f := by
  induction hn : xs.length using Nat.strongRecOn generalizing xs with
  | ind n ih =>
    subst hn
    by_cases hx : x ∈ xs
    · obtain ⟨as, bs, rfl, has⟩ := eq_append_cons_of_mem hx
      rw [splitOn_append_cons_self_of_not_mem has]
      refine forall_mem_cons.mpr ⟨has, ih bs.length ?_ rfl⟩
      rw [length_append, length_cons]
      omega
    · rw [splitOn_eq_singleton hx]
      exact forall_mem_singleton.mpr hx

/-- What is split is what was put together, if a separator in the one would be one in the other. -/
theorem splitOn_intercalate_eq_iff {fields fields' : List (List α)} (hne : fields ≠ [])
    (hsub : (∀ f ∈ fields', x ∉ f) → ∀ f ∈ fields, x ∉ f) :
    ([x].intercalate fields).splitOn x = fields' ↔ fields = fields' ∧ ∀ f ∈ fields', x ∉ f := by
  constructor
  · intro h
    have hfields' : ∀ f ∈ fields', x ∉ f := h ▸ notMem_of_mem_splitOn
    rw [splitOn_intercalate x (hsub hfields') hne] at h
    exact ⟨h, hfields'⟩
  · rintro ⟨rfl, h⟩
    exact splitOn_intercalate x h hne

end List
