import Mathlib

/-!
# Patterns with one saved position

A pattern is a list of tokens; its language is `Matches`. A matcher that goes back to its last star
only keeps, beside what is left of pattern and text, the pattern behind that star and the text it
was met at. It can still succeed when what is left matches, or what is behind the star matches some
later rest of the text (`Alive`); each move of the matcher keeps that, the one to a new star because
what stands between two stars takes as many characters as it has tokens (`Aligned`).
-/

universe u

namespace Glob

inductive Token (α : Type u)
  | any
  | one
  | lit (a : α)

variable {α : Type u}

/-- The token takes exactly this character. -/
def Token.Takes : Token α → α → Prop
  | .any, _ => False
  | .one, _ => True
  | .lit a, x => a = x

/-- The language of a pattern. -/
inductive Matches : List (Token α) → List α → Prop
  | nil : Matches [] []
  | any {ts : List (Token α)} (us : List α) {xs : List α} :
    Matches ts xs → Matches (.any :: ts) (us ++ xs)
  | takes {t : Token α} {ts : List (Token α)} {x : α} {xs : List α} :
    t.Takes x → Matches ts xs → Matches (t :: ts) (x :: xs)

/-! ## The language -/

section

variable {t : Token α} {ts qs : List (Token α)} {x : α} {xs : List α}

theorem matches_any_iff : Matches (.any :: ts) xs ↔ ∃ s, s <:+ xs ∧ Matches ts s := by
  constructor
  · intro h
    cases h with
    | any us h => exact ⟨_, List.suffix_append _ _, h⟩
    | takes ht _ => exact ht.elim
  · rintro ⟨s, ⟨us, rfl⟩, h⟩
    exact .any us h

theorem matches_cons_iff (ht : t ≠ .any) :
    Matches (t :: ts) (x :: xs) ↔ t.Takes x ∧ Matches ts xs := by
  constructor
  · intro h
    generalize htext : x :: xs = text at h
    cases h with
    | any => exact absurd rfl ht
    | takes htx h =>
      obtain ⟨rfl, rfl⟩ := List.cons.inj htext
      exact ⟨htx, h⟩
  · rintro ⟨htx, h⟩
    exact .takes htx h

theorem Token.Takes.ne_any (h : t.Takes x) : t ≠ .any := by
  rintro rfl
  exact h

theorem not_matches_nil (x : α) (xs : List α) : ¬ Matches [] (x :: xs) := nofun

/-- Only stars match nothing. -/
theorem matches_empty_iff : Matches ts ([] : List α) ↔ ∀ t ∈ ts, t = .any := by
  induction ts with
  | nil => exact iff_of_true .nil nofun
  | cons t ts ih =>
    rw [List.forall_mem_cons, ← ih]
    constructor
    · intro h
      generalize htext : [] = text at h
      cases h with
      | any us h =>
        obtain ⟨rfl, rfl⟩ := List.append_eq_nil_iff.mp htext.symm
        exact ⟨rfl, h⟩
      | takes => cases htext
    · rintro ⟨rfl, h⟩
      exact .any [] h

/-- Tokens before the first star take one character each. -/
theorem Matches.of_append (hq : ∀ q ∈ qs, q ≠ .any) (h : Matches (qs ++ ts) xs) :
    ∃ us vs, xs = us ++ vs ∧ us.length = qs.length ∧ Matches ts vs := by
  induction qs generalizing xs with
  | nil => exact ⟨[], xs, rfl, rfl, h⟩
  | cons q qs ih =>
    rw [List.forall_mem_cons] at hq
    cases h with
    | any => exact absurd rfl hq.1
    | takes _ h =>
      obtain ⟨us, vs, rfl, hlen, hm⟩ := ih hq.2 h
      exact ⟨_ :: us, vs, rfl, congrArg (· + 1) hlen, hm⟩

/-- Literals at the start of a pattern stand in the text. -/
theorem Matches.lit_prefix {as : List α} (h : Matches (as.map .lit ++ ts) xs) : as <+: xs := by
  induction as generalizing xs with
  | nil => exact List.nil_prefix
  | cons a as ih =>
    cases h with
    | takes ha h =>
      obtain rfl : a = _ := ha
      exact List.cons_prefix_cons.mpr ⟨rfl, ih h⟩

theorem Matches.lit {as : List α} (h : Matches ts xs) : Matches (as.map .lit ++ ts) (as ++ xs) := by
  induction as with
  | nil => exact h
  | cons a as ih => exact .takes rfl ih

theorem matches_any (xs : List α) : Matches [.any] xs := by
  rw [← List.append_nil xs]
  exact .any xs .nil

/-- The language can be decided, a star by all rests of the text. -/
instance decMatches [DecidableEq α] :
    (ts : List (Token α)) → (xs : List α) → Decidable (Matches ts xs)
  | [], [] => isTrue .nil
  | [], x :: xs => isFalse (not_matches_nil x xs)
  | .any :: ts, xs =>
    have : ∀ s, Decidable (Matches ts s) := decMatches ts
    decidable_of_iff (∃ s ∈ xs.tails, Matches ts s) (by simp only [List.mem_tails, matches_any_iff])
  | .one :: _, [] => isFalse nofun
  | .lit _ :: _, [] => isFalse nofun
  | .one :: ts, x :: xs =>
    have := decMatches ts xs
    decidable_of_iff (Matches ts xs) (by simp [matches_cons_iff, Token.Takes])
  | .lit a :: ts, x :: xs =>
    have := decMatches ts xs
    decidable_of_iff (a = x ∧ Matches ts xs) (by simp [matches_cons_iff, Token.Takes])

end

/-! ## The matcher -/

/-- What is behind the last star, and the text it was met at. -/
abbrev Saved (α : Type u) := Option (List (Token α) × List α)

/-- The match can still be found: where the matcher stands, or with the last star taking more. -/
def Alive (ts : List (Token α)) (xs : List α) (saved : Saved α) : Prop :=
  Matches ts xs ∨ ∃ p ∈ saved, ∃ s, s <:+ p.2 ∧ s.length < p.2.length ∧ Matches p.1 s

/-- Since the last star each token took one character. -/
def Aligned (ts : List (Token α)) (xs : List α) (saved : Saved α) : Prop :=
  ∀ p ∈ saved, ∃ qs us, (∀ q ∈ qs, q ≠ Token.any) ∧ us.length = qs.length ∧
    p.1 = qs ++ ts ∧ p.2 = us ++ xs

section

variable {t : Token α} {ts ts' : List (Token α)} {x : α} {xs : List α} {saved : Saved α}

theorem alive_none : Alive ts xs none ↔ Matches ts xs := by
  simp [Alive]

theorem Aligned.none : Aligned ts xs (none : Saved α) := nofun

theorem Aligned.star : Aligned ts xs (some (ts, xs)) := by
  intro p hp
  cases hp
  exact ⟨[], [], nofun, rfl, rfl, rfl⟩

theorem Aligned.takes (h : Aligned (t :: ts) (x :: xs) saved) (ht : t.Takes x) :
    Aligned ts xs saved := by
  intro p hp
  obtain ⟨qs, us, hq, hlen, h1, h2⟩ := h p hp
  refine ⟨qs ++ [t], us ++ [x], ?_, by simp [hlen], by simpa using h1, by simpa using h2⟩
  intro q hmem
  rcases List.mem_append.mp hmem with hmem | hmem
  · exact hq q hmem
  · rw [List.mem_singleton.mp hmem]
    exact ht.ne_any

/-- A token takes its character. -/
theorem alive_takes (ht : t.Takes x) : Alive (t :: ts) (x :: xs) saved ↔ Alive ts xs saved := by
  rw [Alive, Alive, matches_cons_iff ht.ne_any, and_iff_right ht]

/-- Whatever was saved, a match behind a star is one of the star. -/
theorem Alive.star (h : Alive ts xs (some (ts, xs))) : Matches (.any :: ts) xs := by
  rw [matches_any_iff]
  rcases h with h | ⟨p, hp, s, hs, -, hm⟩
  · exact ⟨xs, List.suffix_rfl, h⟩
  · cases hp
    exact ⟨s, hs, hm⟩

/-- At a new star the saved one is given up. -/
theorem alive_star (ha : Aligned (.any :: ts) xs saved) :
    Alive (.any :: ts) xs saved ↔ Alive ts xs (some (ts, xs)) := by
  refine ⟨?_, fun h => .inl h.star⟩
  -- a rest of the text that is matched behind this star
  suffices hrest : Alive (.any :: ts) xs saved → ∃ s, s <:+ xs ∧ Matches ts s by
    intro h
    obtain ⟨s, hs, hm⟩ := hrest h
    rcases hs.length_le.eq_or_lt with hlen | hlen
    · rw [hs.eq_of_length hlen] at hm
      exact .inl hm
    · exact .inr ⟨_, rfl, s, hs, hlen, hm⟩
  rintro (h | ⟨⟨ps, text⟩, hp, s, hs, hlt, hm⟩)
  · exact matches_any_iff.mp h
  · obtain ⟨qs, us, hq, hlen, rfl, rfl⟩ := ha _ hp
    obtain ⟨as, vs, rfl, has, hv⟩ := hm.of_append hq
    obtain ⟨r, hr, hmr⟩ := matches_any_iff.mp hv
    refine ⟨r, ?_, hmr⟩
    have hsuffix : r <:+ us ++ xs := (hr.trans (List.suffix_append _ _)).trans hs
    refine List.suffix_of_suffix_length_le hsuffix (List.suffix_append _ _) ?_
    have := hr.length_le
    simp only [List.length_append] at hlt
    omega

/-- Where nothing is matched, the star takes one more character. -/
theorem alive_retry (h : ¬ Matches ts' xs) :
    Alive ts' xs (some (ts, x :: text)) ↔ Alive ts text (some (ts, text)) := by
  constructor
  · rintro (hm | ⟨p, hp, s, hs, hlt, hm⟩)
    · exact absurd hm h
    · cases hp
      rcases List.suffix_cons_iff.mp hs with rfl | hs
      · exact absurd rfl hlt.ne
      · rcases hs.length_le.eq_or_lt with hlen | hlen
        · rw [hs.eq_of_length hlen] at hm
          exact .inl hm
        · exact .inr ⟨_, rfl, s, hs, hlen, hm⟩
  · rintro (hm | ⟨p, hp, s, hs, -, hm⟩)
    · exact .inr ⟨_, rfl, text, List.suffix_cons _ _, Nat.lt_succ_self _, hm⟩
    · cases hp
      exact .inr ⟨_, rfl, s, hs.trans (List.suffix_cons _ _),
        Nat.lt_succ_of_le hs.length_le, hm⟩

/-- At the end of the text no star can take more. -/
theorem alive_end (ha : Aligned ts [] saved) : Alive ts [] saved ↔ ∀ t ∈ ts, t = .any := by
  rw [← matches_empty_iff]
  refine ⟨?_, .inl⟩
  rintro (h | ⟨p, hp, s, -, hlt, hm⟩)
  · exact h
  · obtain ⟨qs, us, hq, hlen, h1, h2⟩ := ha p hp
    rw [h1] at hm
    obtain ⟨as, vs, rfl, has, -⟩ := hm.of_append hq
    rw [h2] at hlt
    simp only [List.length_append, List.length_nil] at hlt
    omega

end

end Glob
