import Mathlib

/-!
# Leases

A resource is taken and given back. While it is out it may be tracked by someone who gives it back if
its taker does not, and be taken out of that hand again. A trace is followed resource by resource;
one that cannot be followed gives back what is not out or takes what is not there.
-/

universe u

namespace Lease

/-- Where a resource is. -/
inductive Status
  | free
  | tracked
  | loose
  deriving DecidableEq, Repr

/-- It is given back also by an attempt that fails. -/
inductive Happening
  | taken (tracked : Bool)
  | untracked
  | given (failed : Bool)
  deriving DecidableEq, Repr

def Status.next : Status → Happening → Option Status
  | .free, .taken true => some .tracked
  | .free, .taken false => some .loose
  | .tracked, .untracked => some .loose
  | .tracked, .given _ => some .free
  | .loose, .given _ => some .free
  | _, _ => none

/-- What is out can be given back. -/
theorem next_given {st : Status} (h : st ≠ .free) (failed : Bool) :
    st.next (.given failed) = some .free := by
  cases st with
  | free => exact absurd rfl h
  | tracked => rfl
  | loose => rfl

variable {R : Type u} [DecidableEq R]

/-- What happens to one resource. -/
abbrev Event (R : Type u) := R × Happening

/-- Where `r` is behind the trace. -/
def follow (r : R) (t : List (Event R)) : Option Status :=
  t.foldl (fun st e => if e.1 = r then st.bind fun s => s.next e.2 else st) (some .free)

@[simp] theorem follow_nil (r : R) : follow r [] = some .free := rfl

theorem follow_snoc (r : R) (t : List (Event R)) (e : Event R) :
    follow r (t ++ [e]) =
      if e.1 = r then (follow r t).bind fun s => s.next e.2 else follow r t := by
  rw [follow, List.foldl_append]
  rfl

theorem follow_snoc_same {r : R} {t : List (Event R)} {h : Happening} {s : Status}
    (hs : follow r t = some s) : follow r (t ++ [(r, h)]) = s.next h := by
  rw [follow_snoc, if_pos rfl, hs]
  rfl

theorem follow_snoc_other {r : R} {t : List (Event R)} {e : Event R} (hne : e.1 ≠ r) :
    follow r (t ++ [e]) = follow r t := by
  rw [follow_snoc, if_neg hne]

/-- How often `r` is taken. -/
def taken (r : R) (t : List (Event R)) : Nat :=
  t.countP fun e => e.1 = r ∧ (e.2 = .taken true ∨ e.2 = .taken false)

/-- How often it is given back. -/
def given (r : R) (t : List (Event R)) : Nat :=
  t.countP fun e => e.1 = r ∧ (e.2 = .given true ∨ e.2 = .given false)

/-- What has been taken has been given back once, but for what is still out. -/
theorem taken_eq {r : R} {t : List (Event R)} {s : Status} (h : follow r t = some s) :
    taken r t = given r t + if s = .free then 0 else 1 := by
  induction t using List.reverseRecOn generalizing s with
  | nil =>
    cases h
    rfl
  | append_singleton t e ih =>
    obtain ⟨q, happening⟩ := e
    rw [follow_snoc] at h
    dsimp only at h
    split at h
    · next hq =>
      subst hq
      obtain ⟨s', hs', hnext⟩ := Option.bind_eq_some_iff.mp h
      have ht := ih hs'
      rw [taken, given, List.countP_append, List.countP_append, ← taken, ← given, ht]
      cases s' <;> cases happening with
      | taken tracked => cases tracked <;> cases hnext <;> simp
      | untracked => cases hnext <;> simp
      | given failed => cases failed <;> cases hnext <;> simp
    · next hq =>
      have ht := ih h
      simpa [taken, given, List.countP_append, hq] using ht

/-- All that is tracked is given back. -/
theorem follow_give {r : R} {rs : List R} {t : List (Event R)} {failed : R → Bool} (hnodup : rs.Nodup)
    (htracked : ∀ q ∈ rs, follow q t = some .tracked) :
    follow r (t ++ rs.map fun q => (q, .given (failed q))) =
      if r ∈ rs then some .free else follow r t := by
  induction rs generalizing t with
  | nil => simp
  | cons q rs ih =>
    obtain ⟨hq, hrest⟩ := List.nodup_cons.mp hnodup
    rw [List.map_cons, List.append_cons, ih hrest]
    · split
      · next hr => rw [if_pos (List.mem_cons_of_mem _ hr)]
      · next hr =>
        by_cases hrq : r = q
        · subst hrq
          rw [if_pos List.mem_cons_self, follow_snoc_same (htracked r List.mem_cons_self)]
          rfl
        · rw [if_neg (by simp [hrq, hr]), follow_snoc_other (Ne.symm hrq)]
    · intro q' hq'
      rw [follow_snoc_other (by rintro rfl; exact hq hq')]
      exact htracked q' (List.mem_cons_of_mem _ hq')

/-- What happens to `r`, in order. -/
def happenings (r : R) (t : List (Event R)) : List Happening :=
  (t.filter fun e => e.1 = r).map (·.2)

theorem happenings_snoc (r : R) (t : List (Event R)) (e : Event R) :
    happenings r (t ++ [e]) = if e.1 = r then happenings r t ++ [e.2] else happenings r t := by
  rw [happenings, List.filter_append, List.map_append, ← happenings, List.filter_singleton]
  by_cases he : e.1 = r <;> simp [he]

theorem Status.next_eq_loose {st : Status} {h : Happening} (hnext : st.next h = some .loose) :
    h = .taken false ∨ h = .untracked := by
  cases st <;> cases h with
  | taken tracked => cases tracked <;> simp_all [Status.next]
  | untracked => simp_all [Status.next]
  | given failed => simp_all [Status.next]

/-- What is out without being tracked was not tracked when it was taken, or is no more. -/
theorem last_of_loose {r : R} {t : List (Event R)} (h : follow r t = some .loose) :
    (happenings r t).getLast? = some (.taken false) ∨
      (happenings r t).getLast? = some .untracked := by
  induction t using List.reverseRecOn with
  | nil => cases h
  | append_singleton t e ih =>
    rw [happenings_snoc]
    rw [follow_snoc] at h
    split at h
    · next he =>
      rw [if_pos he, List.getLast?_concat]
      obtain ⟨st, -, hnext⟩ := Option.bind_eq_some_iff.mp h
      exact (Status.next_eq_loose hnext).imp (congrArg some) (congrArg some)
    · next he =>
      rw [if_neg he]
      exact ih h

/-- All that is given back is so once, and nothing else is. -/
theorem happenings_give (r : R) {rs : List R} {failed : R → Bool} (hnodup : rs.Nodup) :
    happenings r (rs.map fun q => (q, .given (failed q))) =
      if r ∈ rs then [.given (failed r)] else [] := by
  induction rs with
  | nil => rfl
  | cons q rs ih =>
    obtain ⟨hq, hrest⟩ := List.nodup_cons.mp hnodup
    have ih := ih hrest
    rw [happenings] at ih ⊢
    by_cases hqr : q = r
    · subst hqr
      rw [if_neg hq] at ih
      rw [List.map_cons, List.filter_cons_of_pos (by simp), List.map_cons, ih,
        if_pos List.mem_cons_self]
    · rw [List.map_cons, List.filter_cons_of_neg (by simpa using hqr), ih]
      simp [Ne.symm hqr]

end Lease
