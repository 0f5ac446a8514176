import Mathlib

/-!
# Strings of bytes

Bytes compare as unsigned numbers and strings of them as `strcmp` has it: a string that ends first
comes first. A string that is longer than another one has a limit among those no longer than it.
-/

instance instLinearOrderUInt8 : LinearOrder UInt8 where
  le_refl := UInt8.le_refl
  le_trans _ _ _ := UInt8.le_trans
  lt_iff_le_not_ge a b := by
    rw [UInt8.lt_iff_toNat_lt, UInt8.le_iff_toNat_le, UInt8.le_iff_toNat_le]
    omega
  le_antisymm _ _ := UInt8.le_antisymm
  le_total := UInt8.le_total
  toDecidableLE := inferInstance
  toDecidableEq := inferInstance
  toDecidableLT := inferInstance
  compare_eq_compareOfLessAndEq _ _ := rfl

namespace CLib

variable {α : Type} [LinearOrder α]

/-- `strcmp` of what stands in front of the terminating zeros. -/
def strcmp : List α → List α → Ordering
  | [], [] => .eq
  | [], _ :: _ => .lt
  | _ :: _, [] => .gt
  | a :: as, b :: bs => (compare a b).then (strcmp as bs)

theorem strcmp_lt_iff {as bs : List α} : strcmp as bs = .lt ↔ as < bs := by
  induction as generalizing bs with
  | nil => cases bs <;> simp [strcmp]
  | cons a as ih =>
    cases bs with
    | nil => simp [strcmp]
    | cons b bs =>
      rw [strcmp, Ordering.then_eq_lt, compare_lt_iff_lt, compare_eq_iff_eq, ih,
        List.cons_lt_cons_iff]

theorem strcmp_eq_iff {as bs : List α} : strcmp as bs = .eq ↔ as = bs := by
  induction as generalizing bs with
  | nil => cases bs <;> simp [strcmp]
  | cons a as ih =>
    cases bs with
    | nil => simp [strcmp]
    | cons b bs => rw [strcmp, Ordering.then_eq_eq, compare_eq_iff_eq, ih, List.cons.injEq]

theorem strcmp_isLE_iff {as bs : List α} : (strcmp as bs).isLE = true ↔ as ≤ bs := by
  rw [Ordering.isLE_iff_eq_lt_or_eq_eq, strcmp_lt_iff, strcmp_eq_iff, le_iff_lt_or_eq]

/-- A name no longer than the key comes behind a value that goes on behind the key exactly if it comes
behind the key. -/
theorem append_le_iff {key rest name : List α} (hrest : rest ≠ [])
    (hlen : name.length ≤ key.length) : key ++ rest ≤ name ↔ key < name := by
  rw [← not_lt]
  induction key generalizing name with
  | nil =>
    obtain rfl : name = [] := List.eq_nil_of_length_eq_zero (Nat.le_zero.mp hlen)
    obtain ⟨c, rest, rfl⟩ := List.exists_cons_of_ne_nil hrest
    exact iff_of_false (fun h => h (List.nil_lt_cons c rest)) (lt_irrefl _)
  | cons a key ih =>
    cases name with
    | nil =>
      exact iff_of_false (fun h => h (List.nil_lt_cons a (key ++ rest))) (List.not_lt_nil _)
    | cons b name =>
      rw [List.cons_append, List.cons_lt_cons_iff, List.cons_lt_cons_iff,
        ← ih (Nat.le_of_succ_le_succ hlen)]
      rcases lt_trichotomy a b with hab | rfl | hab
      · exact iff_of_true (by simp [hab.not_gt, hab.ne']) (.inl hab)
      · simp
      · exact iff_of_false (fun h => h (.inl hab)) (by simp [hab.not_gt, hab.ne'])

theorem append_lt_append_iff {as bs : List α} (hlen : as.length = bs.length) (cs ds : List α) :
    as ++ cs < bs ++ ds ↔ as < bs ∨ as = bs ∧ cs < ds := by
  induction as generalizing bs with
  | nil =>
    obtain rfl : bs = [] := List.eq_nil_of_length_eq_zero hlen.symm
    simp
  | cons a as ih =>
    cases bs with
    | nil => cases hlen
    | cons b bs =>
      rw [List.cons_append, List.cons_append, List.cons_lt_cons_iff, List.cons_lt_cons_iff,
        ih (Nat.succ.inj hlen), List.cons.injEq]
      tauto

/-- Fields of one length decide, and what is behind them does only where they are the same. -/
theorem append_le_append_iff {as bs : List α} (hlen : as.length = bs.length) (cs ds : List α) :
    as ++ cs ≤ bs ++ ds ↔ as < bs ∨ as = bs ∧ cs ≤ ds := by
  have heq : as ++ cs = bs ++ ds ↔ as = bs ∧ cs = ds :=
    ⟨fun h => List.append_inj h hlen, fun ⟨h, h'⟩ => by rw [h, h']⟩
  rw [le_iff_lt_or_eq, append_lt_append_iff hlen, heq, le_iff_lt_or_eq]
  tauto

end CLib
