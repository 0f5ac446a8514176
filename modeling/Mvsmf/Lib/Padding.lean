import Mathlib

/-!
# Padding

A line stored in a record of a fixed length comes back with padding behind it. Two lines are the
same up to padding when the longer one is the shorter with padding; written into records of a width
neither exceeds they are then one record.
-/

namespace Padding

variable {α : Type*} (b : α)

/-- `t` is `s` with padding behind it; an empty line has none. -/
def Padded (s t : List α) : Prop := ∃ n, t = s ++ List.replicate n b ∧ (s = [] → n = 0)

/-- The record of a line. -/
def record (width : Nat) (s : List α) : List α := s ++ List.replicate (width - s.length) b

variable {b} {p : α → Bool} {s t : List α}

/-! ## What padding does to a scan -/

theorem rdropWhile_append (h : ∀ x ∈ t, p x = true) : (s ++ t).rdropWhile p = s.rdropWhile p := by
  rw [List.rdropWhile, List.reverse_append, List.dropWhile_append_of_pos]
  · rfl
  · simpa using h

theorem rdropWhile_pad (h : p b = true) (n : Nat) :
    (s ++ List.replicate n b).rdropWhile p = s.rdropWhile p := by
  apply rdropWhile_append
  intro x hx
  rw [List.eq_of_mem_replicate hx]
  exact h

theorem rdropWhile_append_eq (h : s.rdropWhile p = s) (t : List α) :
    (s ++ t).rdropWhile p = s ++ t.rdropWhile p := by
  rw [List.rdropWhile] at h
  rw [List.rdropWhile, List.rdropWhile, List.reverse_append, List.dropWhile_append]
  split
  next ht =>
    rw [h, List.isEmpty_iff.mp ht]
    simp
  next => rw [List.reverse_append, List.reverse_reverse]

theorem rdropWhile_append_self (h : t.rdropWhile p = t) (hne : t ≠ []) (s : List α) :
    (s ++ t).rdropWhile p = s ++ t := by
  rw [List.rdropWhile_eq_self_iff] at h ⊢
  intro hst
  rw [List.getLast_append_of_ne_nil _ hne]
  exact h hne

/-- A scan over what padding is stops where it did, or runs out with it. -/
theorem dropWhile_pad (h : p b = true) (n : Nat) :
    (s ++ List.replicate n b).dropWhile p =
      if s.dropWhile p = [] then [] else s.dropWhile p ++ List.replicate n b := by
  rw [List.dropWhile_append]
  simp [h]

/-- A scan that padding ends. -/
theorem dropWhile_to_pad (h : p b = false) (n : Nat) :
    (s ++ List.replicate n b).dropWhile p = s.dropWhile p ++ List.replicate n b := by
  rw [List.dropWhile_append]
  split
  next hs =>
    rw [List.isEmpty_iff.mp hs]
    simp [h]
  next => rfl

theorem takeWhile_to_pad (h : p b = false) (n : Nat) :
    (s ++ List.replicate n b).takeWhile p = s.takeWhile p := by
  rw [List.takeWhile_append]
  split
  next hs =>
    have hall : s.takeWhile p = s := (List.takeWhile_prefix p).eq_of_length hs
    rw [hall, List.takeWhile_replicate, h]
    simp
  next => rfl

/-! ## Lines up to padding -/

theorem Padded.refl (s : List α) : Padded b s s := ⟨0, by simp⟩

theorem Padded.eq_nil_iff (h : Padded b s t) : s = [] ↔ t = [] := by
  obtain ⟨n, rfl, hn⟩ := h
  constructor
  · intro hs
    rw [hn hs, hs]
    rfl
  · intro ht
    exact (List.append_eq_nil_iff.mp ht).1

theorem Padded.record_eq {width : Nat} (h : Padded b s t) (ht : t.length ≤ width) :
    record b width t = record b width s := by
  obtain ⟨n, rfl, -⟩ := h
  rw [List.length_append, List.length_replicate] at ht
  rw [record, record, List.append_assoc, List.replicate_append_replicate]
  congr 2
  rw [List.length_append, List.length_replicate]
  omega

theorem map_record_eq {width : Nat} {R : List α → List α → Prop}
    (hR : ∀ s t, R s t → Padded b s t ∧ t.length ≤ width) {ss ts : List (List α)}
    (h : List.Forall₂ R ss ts) : ts.map (record b width) = ss.map (record b width) := by
  induction h with
  | nil => rfl
  | cons hst _ ih =>
    obtain ⟨hpad, hlen⟩ := hR _ _ hst
    rw [List.map_cons, List.map_cons, hpad.record_eq hlen, ih]

/-- Padding keeps which lines are empty. -/
theorem forall₂_filter [DecidableEq α] {R : List α → List α → Prop}
    (hR : ∀ s t, R s t → Padded b s t) {ss ts : List (List α)} (h : List.Forall₂ R ss ts) :
    List.Forall₂ R (ss.filter (· ≠ [])) (ts.filter (· ≠ [])) := by
  induction h with
  | nil => exact .nil
  | @cons s t ss ts hst _ ih =>
    have hiff := (hR s t hst).eq_nil_iff
    by_cases hs : s = []
    · have ht := hiff.mp hs
      rw [List.filter_cons_of_neg (by simpa using hs), List.filter_cons_of_neg (by simpa using ht)]
      exact ih
    · have ht : t ≠ [] := fun ht => hs (hiff.mpr ht)
      rw [List.filter_cons_of_pos (by simpa using hs), List.filter_cons_of_pos (by simpa using ht)]
      exact .cons hst ih

/-! ## Blank records -/

section Blank

variable [DecidableEq α] (b)

/-- Nothing but padding. -/
def blank (s : List α) : Bool := s.all (· == b)

variable {b}

theorem blank_record {width : Nat} : blank b (record b width s) = blank b s := by
  simp [blank, record]

theorem countP_blank_record {width : Nat} (ss : List (List α)) :
    (ss.map (record b width)).countP (blank b) = ss.countP (blank b) := by
  rw [List.countP_map]
  congr 1
  funext s
  exact blank_record

/-- The blank lines are the empty ones and those of padding. -/
theorem countP_blank_filter (ss : List (List α)) :
    ss.countP (blank b) = (ss.filter (· ≠ [])).countP (blank b) + ss.countP (· = []) := by
  induction ss with
  | nil => rfl
  | cons s ss ih =>
    by_cases hs : s = []
    · rw [List.filter_cons_of_neg (by simpa using hs), List.countP_cons_of_pos (by simp [hs, blank]),
        List.countP_cons_of_pos (by simpa using hs), ih, Nat.add_assoc]
    · rw [List.filter_cons_of_pos (by simpa using hs), List.countP_cons, List.countP_cons,
        List.countP_cons_of_neg (by simpa using hs), ih]
      omega

end Blank

end Padding
