import Mathlib

/-!
# Scans of a table that grows

A table is a list, oldest entry first, that new entries are put behind. A scan goes over it from
one entry on, with a state, takes a line from some entries and may stop; what it takes of a table
is a prefix of what it takes of the table grown. `fill` puts lines into a buffer of a given size
and leaves out those it has no room for.
-/

universe u v w

namespace Table

variable {α : Type u}

/-! ## An entry and what is behind it -/

/-- The oldest entry with `p`, and the entries behind it. -/
def oldest (p : α → Bool) : List α → Option (α × List α)
  | [] => none
  | a :: as => if p a then some (a, as) else oldest p as

/-- The newest entry with `p`, and the entries behind it. -/
def newest (p : α → Bool) : List α → Option (α × List α)
  | [] => none
  | a :: as =>
    match newest p as with
    | some r => some r
    | none => if p a then some (a, as) else none

theorem oldest_none {p : α → Bool} {as : List α} (h : ∀ a ∈ as, p a = false) :
    oldest p as = none := by
  induction as with
  | nil => rfl
  | cons a as ih =>
    rw [List.forall_mem_cons] at h
    rw [oldest, h.1]
    exact ih h.2

theorem newest_none {p : α → Bool} {as : List α} (h : ∀ a ∈ as, p a = false) :
    newest p as = none := by
  induction as with
  | nil => rfl
  | cons a as ih =>
    rw [List.forall_mem_cons] at h
    rw [newest, ih h.2, h.1]
    rfl

theorem newest_isSome {p : α → Bool} {t : List α} {a : α} (hmem : a ∈ t) (ha : p a = true) :
    ∃ r, newest p t = some r := by
  induction t with
  | nil => simp at hmem
  | cons x t ih =>
    rw [newest]
    cases hn : newest p t with
    | some r => exact ⟨r, rfl⟩
    | none =>
      rcases List.mem_cons.mp hmem with rfl | hmem
      · exact ⟨(a, t), if_pos ha⟩
      · obtain ⟨r, hr⟩ := ih hmem
        rw [hr] at hn
        contradiction

theorem oldest_append {p : α → Bool} {as : List α} {a : α} (bs : List α)
    (has : ∀ x ∈ as, p x = false) (ha : p a = true) :
    oldest p (as ++ a :: bs) = some (a, bs) := by
  induction as with
  | nil => rw [List.nil_append, oldest, if_pos ha]
  | cons x as ih =>
    rw [List.forall_mem_cons] at has
    rw [List.cons_append, oldest, has.1]
    exact ih has.2

theorem newest_append {p : α → Bool} {a : α} {bs : List α} (as : List α) (ha : p a = true)
    (hbs : ∀ x ∈ bs, p x = false) : newest p (as ++ a :: bs) = some (a, bs) := by
  induction as with
  | nil => rw [List.nil_append, newest, newest_none hbs, if_pos ha]
  | cons x as ih => rw [List.cons_append, newest, ih]

theorem newest_some {p : α → Bool} {t : List α} {a : α} {bs : List α}
    (h : newest p t = some (a, bs)) :
    ∃ as, t = as ++ a :: bs ∧ p a = true ∧ ∀ x ∈ bs, p x = false := by
  induction t with
  | nil => simp [newest] at h
  | cons x t ih =>
    rw [newest] at h
    cases hn : newest p t with
    | some r =>
      rw [hn] at h
      obtain rfl : r = (a, bs) := Option.some.inj h
      obtain ⟨as, rfl, ha, hbs⟩ := ih hn
      exact ⟨x :: as, rfl, ha, hbs⟩
    | none =>
      rw [hn] at h
      dsimp only at h
      split at h
      next hx =>
        obtain ⟨rfl, rfl⟩ := Prod.mk.inj (Option.some.inj h)
        refine ⟨[], rfl, hx, fun y hy => ?_⟩
        cases hy' : p y with
        | false => rfl
        | true =>
          obtain ⟨r, hr⟩ := newest_isSome hy hy'
          rw [hr] at hn
          contradiction
      next => contradiction

/-! ## Tables with one entry to find -/

/-- In a table with one entry with `p`, the oldest with a `q` that it has and that implies `p`. -/
theorem oldest_of_newest {p q : α → Bool} (hqp : ∀ x, q x = true → p x = true) {t : List α}
    (hone : t.countP p ≤ 1) {a : α} {bs : List α} (h : newest p t = some (a, bs))
    (ha : q a = true) : oldest q t = some (a, bs) := by
  obtain ⟨as, rfl, hpa, -⟩ := newest_some h
  apply oldest_append bs _ ha
  intro x hx
  rw [List.countP_append, List.countP_cons_of_pos hpa] at hone
  have hzero : as.countP p = 0 := by omega
  cases hq : q x with
  | false => rfl
  | true => exact absurd (hqp x hq) (List.countP_eq_zero.mp hzero x hx)

theorem oldest_of_newest_none {p q : α → Bool} (hqp : ∀ x, q x = true → p x = true) {t : List α}
    (h : newest p t = none) : oldest q t = none := by
  apply oldest_none
  intro x hx
  cases hq : q x with
  | false => rfl
  | true =>
    obtain ⟨r, hr⟩ := newest_isSome hx (hqp x hq)
    rw [hr] at h
    contradiction

/-- A later state of the table: entries without `p` are lost in front, new ones put behind. -/
def Extends (p : α → Bool) (t t' : List α) : Prop :=
  ∃ lost kept new, t = lost ++ kept ∧ t' = kept ++ new ∧ ∀ a ∈ lost, p a = false

/-- The entry with `p` stays, and what was behind it stays there. -/
theorem Extends.newest {p : α → Bool} {t t' : List α} (h : Extends p t t')
    (hone : t'.countP p ≤ 1) {a : α} {bs : List α} (ht : newest p t = some (a, bs)) :
    ∃ new, newest p t' = some (a, bs ++ new) := by
  obtain ⟨lost, kept, new, htl, rfl, hlost⟩ := h
  obtain ⟨as, rfl, ha, hbs⟩ := newest_some ht
  obtain ⟨mid, hkept⟩ : ∃ mid, kept = mid ++ a :: bs := by
    rcases List.append_eq_append_iff.mp htl with ⟨mid, hm, hk⟩ | ⟨mid, hm, hk⟩
    · cases mid with
      | nil => exact ⟨[], hk.symm⟩
      | cons x mid =>
        obtain ⟨rfl, -⟩ := List.cons.inj hk
        have := hlost a (by rw [hm]; simp)
        rw [ha] at this
        contradiction
    · exact ⟨mid, hk⟩
  subst hkept
  refine ⟨new, ?_⟩
  rw [List.append_assoc, List.cons_append]
  apply newest_append mid ha
  rw [List.append_assoc, List.countP_append, List.cons_append, List.countP_cons_of_pos ha] at hone
  have hzero : (bs ++ new).countP p = 0 := by omega
  intro x hx
  simpa using List.countP_eq_zero.mp hzero x hx

end Table

/-! ## Scans -/

/-- A scan with states `σ` over entries `α`, taking `β`s: an entry ends it, or is passed with a new
state and perhaps taken. -/
structure Scan (σ : Type u) (α : Type v) (β : Type w) where
  step : σ → α → Option (σ × Option β)

namespace Scan

variable {σ : Type u} {α : Type v} {β : Type w}

/-- What the scan takes. -/
def takes (S : Scan σ α β) : σ → List α → List β
  | _, [] => []
  | s, a :: as =>
    match S.step s a with
    | none => []
    | some (s', b) => b.toList ++ S.takes s' as

/-- Entries put behind the table are taken behind the others, if at all. -/
theorem takes_prefix (S : Scan σ α β) (s : σ) (as bs : List α) :
    S.takes s as <+: S.takes s (as ++ bs) := by
  induction as generalizing s with
  | nil => exact List.nil_prefix
  | cons a as ih =>
    rw [List.cons_append, takes, takes]
    cases S.step s a with
    | none => exact List.prefix_rfl
    | some r => exact (List.prefix_append_right_inj _).mpr (ih r.1)

/-- Entries that are all alike, each taken the same way. -/
theorem takes_replicate (S : Scan σ α β) (state : Nat → σ) {a : α} {b : β}
    (h : ∀ k, S.step (state k) a = some (state (k + 1), some b)) (n k : Nat) :
    S.takes (state k) (List.replicate n a) = List.replicate n b := by
  induction n generalizing k with
  | zero => rfl
  | succ n ih =>
    rw [List.replicate_succ, takes, h, List.replicate_succ]
    exact congrArg (b :: ·) (ih (k + 1))

end Scan

/-! ## Lines in a buffer -/

section
variable {α : Type u}

/-- The lines that are not empty, each with its end. -/
def endedLines (eol : α) (ls : List (List α)) : List α :=
  (ls.filter (· ≠ [])).flatMap (· ++ [eol])

/-- The lines that are not empty and that a buffer of `cap` still has room for when `used` of it
are used, each with its end; one more than that stays free. -/
def fill (eol : α) (cap : Nat) : Nat → List (List α) → List α
  | _, [] => []
  | used, l :: ls =>
    if l ≠ [] ∧ used + l.length + 1 < cap then
      l ++ eol :: fill eol cap (used + l.length + 1) ls
    else fill eol cap used ls

@[simp] theorem endedLines_nil (eol : α) : endedLines eol [] = [] := rfl

theorem endedLines_cons {l : List α} (h : l ≠ []) (eol : α) (ls : List (List α)) :
    endedLines eol (l :: ls) = l ++ eol :: endedLines eol ls := by
  simp [endedLines, h]

@[simp] theorem endedLines_cons_nil (eol : α) (ls : List (List α)) :
    endedLines eol ([] :: ls) = endedLines eol ls := by
  simp [endedLines]

theorem endedLines_append (eol : α) (ls ms : List (List α)) :
    endedLines eol (ls ++ ms) = endedLines eol ls ++ endedLines eol ms := by
  simp [endedLines]

theorem endedLines_replicate_length {l : List α} (hl : l ≠ []) (eol : α) (n : Nat) :
    (endedLines eol (List.replicate n l)).length = n * (l.length + 1) := by
  induction n with
  | zero => simp
  | succ n ih =>
    rw [List.replicate_succ, endedLines_cons hl, List.length_append, List.length_cons, ih]
    ring

theorem fill_length_le (eol : α) (cap used : Nat) (ls : List (List α)) :
    (fill eol cap used ls).length ≤ (endedLines eol ls).length := by
  induction ls generalizing used with
  | nil => exact Nat.le_refl _
  | cons l ls ih =>
    rw [fill]
    by_cases hl : l = []
    · subst hl
      simpa using ih used
    · rw [endedLines_cons hl]
      split
      · simpa using ih _
      · simp only [List.length_append, List.length_cons]
        have := ih used
        omega

/-- The buffer has all lines exactly if they and one more fit into it. -/
theorem fill_eq_iff {eol : α} {cap used : Nat} {ls : List (List α)} :
    fill eol cap used ls = endedLines eol ls ↔
      endedLines eol ls = [] ∨ used + (endedLines eol ls).length < cap := by
  induction ls generalizing used with
  | nil => simp [fill]
  | cons l ls ih =>
    rw [fill]
    by_cases hl : l = []
    · subst hl
      simpa using ih
    · rw [endedLines_cons hl]
      have hne : l ++ eol :: endedLines eol ls ≠ [] := by simp
      split
      next h =>
        rw [List.append_cancel_left_eq, List.cons_inj_right, ih]
        simp only [hne, false_or, List.length_append, List.length_cons]
        constructor
        · rintro (hnil | hlt)
          · rw [hnil, List.length_nil]
            omega
          · omega
        · intro hlt
          right
          omega
      next h =>
        have hfull : cap ≤ used + l.length + 1 := by
          by_contra hlt
          exact h ⟨hl, by omega⟩
        constructor
        · intro heq
          have hle := fill_length_le eol cap used ls
          rw [heq] at hle
          simp only [List.length_append, List.length_cons] at hle
          omega
        · intro hlt
          simp only [hne, false_or, List.length_append, List.length_cons] at hlt
          omega

end
