import Mvsmf.Lib.Glob
import Mvsmf.Lib.Loop
import Mathlib

/-!
# Member patterns

`member_match` compares a name of the directory with a pattern of the query, both in EBCDIC. Its loop
goes back to the last star it noted. A star of the pattern that meets the same character in the name
is taken for that character and not noted, so names that hold the character are told apart from the
language of the pattern.
-/

namespace Mvsmf

/-- `'*'` in EBCDIC. -/
def STAR : UInt8 := 0x5C

/-- `'%'` in EBCDIC. -/
def PERCENT : UInt8 := 0x6C

/-- The positions in name and pattern, and of the last noted star: its own and that of the name it
was met at. -/
structure MatchState where
  n : Nat
  p : Nat
  star : Option (Nat × Nat)
  behind : ∀ s ∈ star, s.2 ≤ n

/-- One turn of the loop, which leaves it with `return 0` (`none`) or at the end of the name with the
position in the pattern. -/
def memberMatchStep (name pat : List UInt8) (s : MatchState) : MatchState ⊕ Option Nat :=
  match name[s.n]? with
  | none => .inr (some s.p)
  | some c =>
    if pat[s.p]? = some PERCENT ∨ pat[s.p]? = some c then
      .inl ⟨s.n + 1, s.p + 1, s.star, fun t ht => Nat.le_succ_of_le (s.behind t ht)⟩
    else if pat[s.p]? = some STAR then
      .inl ⟨s.n, s.p + 1, some (s.p, s.n), by rintro _ ⟨⟩; exact Nat.le_refl _⟩
    else
      match s.star with
      | some (starP, starN) =>
        .inl ⟨starN + 1, starP + 1, some (starP, starN + 1), by rintro _ ⟨⟩; exact Nat.le_refl _⟩
      | none => .inr none

/-- What a turn that goes round again does: both characters are taken, a star is noted, or the match
goes back to the noted one. -/
theorem memberMatchStep_inl {name pat : List UInt8} {s s' : MatchState}
    (h : memberMatchStep name pat s = .inl s') :
    ∃ c, name[s.n]? = some c ∧
      (((pat[s.p]? = some PERCENT ∨ pat[s.p]? = some c) ∧
          s'.n = s.n + 1 ∧ s'.p = s.p + 1 ∧ s'.star = s.star) ∨
        (pat[s.p]? = some STAR ∧ c ≠ STAR ∧
          s'.n = s.n ∧ s'.p = s.p + 1 ∧ s'.star = some (s.p, s.n)) ∨
        ((pat[s.p]? ≠ some PERCENT ∧ pat[s.p]? ≠ some c ∧ pat[s.p]? ≠ some STAR) ∧
          ∃ starP starN, s.star = some (starP, starN) ∧
            s'.n = starN + 1 ∧ s'.p = starP + 1 ∧ s'.star = some (starP, starN + 1))) := by
  unfold memberMatchStep at h
  split at h
  · cases h
  · next c hc =>
    refine ⟨c, hc, ?_⟩
    split at h
    · next htake =>
      cases h
      exact .inl ⟨htake, rfl, rfl, rfl⟩
    · next htake =>
      rw [not_or] at htake
      split at h
      · next hstar =>
        cases h
        refine .inr (.inl ⟨hstar, ?_, rfl, rfl, rfl⟩)
        rintro rfl
        exact htake.2 hstar
      · next hstar =>
        split at h
        · next starP starN hs =>
          cases h
          exact .inr (.inr ⟨⟨htake.1, htake.2, hstar⟩, starP, starN, hs, rfl, rfl, rfl⟩)
        · cases h

/-- How a turn leaves the loop. -/
theorem memberMatchStep_inr {name pat : List UInt8} {s : MatchState} {r : Option Nat}
    (h : memberMatchStep name pat s = .inr r) :
    (name[s.n]? = none ∧ r = some s.p) ∨
      (∃ c, name[s.n]? = some c ∧ pat[s.p]? ≠ some PERCENT ∧ pat[s.p]? ≠ some c ∧
        pat[s.p]? ≠ some STAR ∧ s.star = none ∧ r = none) := by
  unfold memberMatchStep at h
  split at h
  · next hn =>
    cases h
    exact .inl ⟨hn, rfl⟩
  · next c hc =>
    split at h
    · cases h
    · next htake =>
      rw [not_or] at htake
      split at h
      · cases h
      · next hstar =>
        split at h
        · cases h
        · next hs =>
          cases h
          exact .inr ⟨c, hc, htake.1, htake.2, hstar, hs, rfl⟩

/-! ## The loop ends -/

/-- What the last star can still take, or more than that as long as none is noted. -/
def MatchState.retries (s : MatchState) (namelen : Nat) : Nat :=
  match s.star with
  | some (_, starN) => namelen - starN
  | none => namelen + 1

theorem lex_lt {a a' b b' k : Nat} (hb : b' ≤ k) (h : a' < a ∨ a' ≤ a ∧ b' < b) :
    a' * (k + 1) + b' < a * (k + 1) + b := by
  rcases h with h | ⟨h, hlt⟩
  · calc
      a' * (k + 1) + b' < a' * (k + 1) + (k + 1) := by omega
      _ = (a' + 1) * (k + 1) := by ring
      _ ≤ a * (k + 1) := Nat.mul_le_mul_right _ h
      _ ≤ a * (k + 1) + b := Nat.le_add_right _ _
  · exact Nat.add_lt_add_of_le_of_lt (Nat.mul_le_mul_right _ h) hlt

/-- The loop of `member_match`: a turn leaves less for the last star, or less to compare. -/
def memberMatchLoop (name pat : List UInt8) : Loop MatchState (Option Nat) where
  step := memberMatchStep name pat
  measure s := s.retries name.length * (name.length + pat.length + 1) +
    ((name.length - s.n) + (pat.length - s.p))
  lowers := by
    intro s s' h
    apply lex_lt
    · omega
    · obtain ⟨c, hc, hturn⟩ := memberMatchStep_inl h
      have hn : s.n < name.length := (List.getElem?_eq_some_iff.mp hc).1
      rcases hturn with ⟨-, hn', hp', hs'⟩ | ⟨hstar, -, hn', hp', hs'⟩ | ⟨-, q, m, hs, hn', hp', hs'⟩
      · right
        rw [MatchState.retries, hs']
        exact ⟨Nat.le_refl _, by omega⟩
      · have hp : s.p < pat.length := (List.getElem?_eq_some_iff.mp hstar).1
        rw [MatchState.retries, MatchState.retries, hs']
        cases hs : s.star with
        | none =>
          left
          simp only
          omega
        | some t =>
          have := s.behind t hs
          right
          simp only
          omega
      · have := s.behind _ hs
        left
        rw [MatchState.retries, MatchState.retries, hs', hs]
        simp only at this ⊢
        omega

/-- The stars at the end of the pattern match the empty rest. -/
def memberMatch (name pat : List UInt8) : Bool :=
  match (memberMatchLoop name pat).exec ⟨0, 0, none, nofun⟩ with
  | some p => ((pat.drop p).dropWhile (· == STAR)).isEmpty
  | none => false

/-! ## The language of a pattern -/

/-- What a character of a pattern stands for. -/
def token (b : UInt8) : Glob.Token UInt8 :=
  if b = STAR then .any else if b = PERCENT then .one else .lit b

theorem token_eq_any {b : UInt8} : token b = .any ↔ b = STAR := by
  unfold token
  split
  · next h => exact iff_of_true rfl h
  · next h => split <;> exact iff_of_false nofun h

theorem token_takes {b c : UInt8} (hb : b ≠ STAR) : (token b).Takes c ↔ b = PERCENT ∨ b = c := by
  rw [token, if_neg hb]
  split
  · next h => simp [Glob.Token.Takes, h]
  · next h => simp [Glob.Token.Takes, h]

/-- What is left of the pattern from a position on. -/
def tokensFrom (pat : List UInt8) (p : Nat) : List (Glob.Token UInt8) := (pat.drop p).map token

theorem tokensFrom_cons {pat : List UInt8} {p : Nat} {b : UInt8} (h : pat[p]? = some b) :
    tokensFrom pat p = token b :: tokensFrom pat (p + 1) := by
  obtain ⟨hp, rfl⟩ := List.getElem?_eq_some_iff.mp h
  rw [tokensFrom, List.drop_eq_getElem_cons hp]
  rfl

theorem drop_cons {name : List UInt8} {n : Nat} {c : UInt8} (h : name[n]? = some c) :
    name.drop n = c :: name.drop (n + 1) := by
  obtain ⟨hn, rfl⟩ := List.getElem?_eq_some_iff.mp h
  exact List.drop_eq_getElem_cons hn

theorem drop_nil {α : Type} {xs : List α} {n : Nat} (h : xs[n]? = none) : xs.drop n = [] :=
  List.drop_eq_nil_of_le (List.getElem?_eq_none_iff.mp h)

/-- The trailing stars are tokens that match nothing. -/
theorem trailing_stars {pat : List UInt8} {p : Nat} :
    ((pat.drop p).dropWhile (· == STAR)).isEmpty = true ↔ ∀ t ∈ tokensFrom pat p, t = .any := by
  rw [List.isEmpty_iff, List.dropWhile_eq_nil_iff, tokensFrom, List.forall_mem_map]
  simp only [token_eq_any, beq_iff_eq]

/-- The match can still be found from this state. -/
def MatchState.Alive (name pat : List UInt8) (s : MatchState) : Prop :=
  Glob.Alive (tokensFrom pat s.p) (name.drop s.n)
    (s.star.map fun t => (tokensFrom pat (t.1 + 1), name.drop t.2))

def MatchState.Aligned (name pat : List UInt8) (s : MatchState) : Prop :=
  Glob.Aligned (tokensFrom pat s.p) (name.drop s.n)
    (s.star.map fun t => (tokensFrom pat (t.1 + 1), name.drop t.2))

/-- No token but a star stands where nothing is taken. -/
theorem not_matches_rest {pat : List UInt8} {p : Nat} {c : UInt8} (hpct : pat[p]? ≠ some PERCENT)
    (hc : pat[p]? ≠ some c) (hstar : pat[p]? ≠ some STAR) (xs : List UInt8) :
    ¬ Glob.Matches (tokensFrom pat p) (c :: xs) := by
  cases hp : pat[p]? with
  | none =>
    rw [tokensFrom, drop_nil hp]
    exact Glob.not_matches_nil c xs
  | some b =>
    rw [hp] at hpct hc hstar
    simp only [ne_eq, Option.some.injEq] at hpct hc hstar
    have hany : token b ≠ .any := fun h => hstar (token_eq_any.mp h)
    rw [tokensFrom_cons hp, Glob.matches_cons_iff hany, token_takes hstar]
    rintro ⟨h | h, -⟩
    · exact hpct h
    · exact hc h

/-- Going back to the noted star is what the pattern allows. -/
theorem alive_back {name pat : List UInt8} {s s' : MatchState} {c : UInt8} {q m : Nat}
    (hn : name[s.n]? = some c) (hs : s.star = some (q, m)) (hn' : s'.n = m + 1)
    (hp' : s'.p = q + 1) (hs' : s'.star = some (q, m + 1))
    (hno : ¬ Glob.Matches (tokensFrom pat s.p) (name.drop s.n)) :
    s.Alive name pat ↔ s'.Alive name pat := by
  have hm : m ≤ s.n := s.behind _ hs
  obtain ⟨b, hb⟩ : ∃ b, name[m]? = some b := by
    have := (List.getElem?_eq_some_iff.mp hn).1
    exact ⟨name[m], List.getElem?_eq_getElem _⟩
  rw [MatchState.Alive, MatchState.Alive, hs, hs', hn', hp', Option.map_some, Option.map_some,
    drop_cons hb]
  exact Glob.alive_retry hno

/-- Whatever the name holds, no turn finds a match that is not there. -/
theorem alive_of_step {name pat : List UInt8} {s s' : MatchState}
    (h : memberMatchStep name pat s = .inl s') (hal : s'.Alive name pat) : s.Alive name pat := by
  obtain ⟨c, hc, hturn⟩ := memberMatchStep_inl h
  rcases hturn with ⟨htake, hn', hp', hs'⟩ | ⟨hstar, -, hn', hp', hs'⟩ | ⟨hno, q, m, hs, hn', hp', hs'⟩
  · obtain ⟨b, hb, hbc⟩ : ∃ b, pat[s.p]? = some b ∧ (b = PERCENT ∨ b = c) := by
      rcases htake with h | h
      · exact ⟨_, h, .inl rfl⟩
      · exact ⟨_, h, .inr rfl⟩
    rw [MatchState.Alive, hs', hn', hp'] at hal
    rw [MatchState.Alive, tokensFrom_cons hb, drop_cons hc]
    by_cases hbs : b = STAR
    · -- the star of the pattern was taken for the character of the name
      rw [token_eq_any.mpr hbs]
      exact hal.imp_left (.any [c])
    · exact (Glob.alive_takes ((token_takes hbs).mpr hbc)).mpr hal
  · rw [MatchState.Alive, hs', hn', hp', Option.map_some] at hal
    rw [MatchState.Alive, tokensFrom_cons hstar, token_eq_any.mpr rfl]
    exact .inl hal.star
  · obtain ⟨hpct, hne, hstar⟩ := hno
    have hm := not_matches_rest hpct hne hstar (name.drop (s.n + 1))
    rw [← drop_cons hc] at hm
    exact (alive_back hc hs hn' hp' hs' hm).mpr hal

/-- `member_match` accepts only what the pattern stands for. -/
theorem memberMatch_sound {name pat : List UInt8} (h : memberMatch name pat = true) :
    Glob.Matches (tokensFrom pat 0) name := by
  have hrule := (memberMatchLoop name pat).rule
    (P := fun s r => ∀ p, r = some p → (∀ t ∈ tokensFrom pat p, t = .any) → s.Alive name pat)
    ?_ ?_ ⟨0, 0, none, nofun⟩
  · unfold memberMatch at h
    split at h
    · next p hp =>
      exact Glob.alive_none.mp (hrule p hp (trailing_stars.mp h))
    · cases h
  · intro s r h p hr hall
    rcases memberMatchStep_inr h with ⟨hn, hr'⟩ | ⟨_, -, -, -, -, -, hr'⟩
    · obtain rfl : p = s.p := Option.some.inj (hr.symm.trans hr')
      left
      rw [drop_nil hn]
      exact Glob.matches_empty_iff.mpr hall
    · rw [hr'] at hr
      cases hr
  · intro s s' h ih p hr hall
    exact alive_of_step h (ih p hr hall)

/-! ## Names and patterns without a star -/

section

variable {name pat : List UInt8} (hplain : STAR ∉ name ∨ STAR ∉ pat)
include hplain

theorem alive_step {s s' : MatchState} (h : memberMatchStep name pat s = .inl s')
    (ha : s.Aligned name pat) : s'.Aligned name pat ∧ (s.Alive name pat → s'.Alive name pat) := by
  obtain ⟨c, hc, hturn⟩ := memberMatchStep_inl h
  rcases hturn with ⟨htake, hn', hp', hs'⟩ | ⟨hstar, -, hn', hp', hs'⟩ | ⟨hno, q, m, hs, hn', hp', hs'⟩
  · obtain ⟨b, hb, hbc⟩ : ∃ b, pat[s.p]? = some b ∧ (b = PERCENT ∨ b = c) := by
      rcases htake with h | h
      · exact ⟨_, h, .inl rfl⟩
      · exact ⟨_, h, .inr rfl⟩
    have hbs : b ≠ STAR := by
      rintro rfl
      rcases hplain with hname | hpat
      · exact hname (hbc.resolve_left (by decide) ▸ List.mem_of_getElem? hc)
      · exact hpat (List.mem_of_getElem? hb)
    have htakes : (token b).Takes c := (token_takes hbs).mpr hbc
    rw [MatchState.Aligned, tokensFrom_cons hb, drop_cons hc] at ha
    rw [MatchState.Aligned, MatchState.Alive, MatchState.Alive, hs', hn', hp', tokensFrom_cons hb,
      drop_cons hc]
    exact ⟨ha.takes htakes, (Glob.alive_takes htakes).mp⟩
  · rw [MatchState.Aligned, tokensFrom_cons hstar, token_eq_any.mpr rfl] at ha
    rw [MatchState.Aligned, MatchState.Alive, MatchState.Alive, hs', hn', hp',
      tokensFrom_cons hstar, token_eq_any.mpr rfl, Option.map_some]
    exact ⟨.star, (Glob.alive_star ha).mp⟩
  · obtain ⟨hpct, hne, hstar⟩ := hno
    have hm := not_matches_rest hpct hne hstar (name.drop (s.n + 1))
    rw [← drop_cons hc] at hm
    refine ⟨?_, (alive_back hc hs hn' hp' hs' hm).mp⟩
    rw [MatchState.Aligned, hs', hn', hp', Option.map_some]
    exact .star

theorem memberMatch_complete (h : Glob.Matches (tokensFrom pat 0) name) :
    memberMatch name pat = true := by
  have hrule := (memberMatchLoop name pat).rule
    (P := fun s r => s.Aligned name pat → s.Alive name pat →
      ∃ p, r = some p ∧ ∀ t ∈ tokensFrom pat p, t = .any)
    ?_ ?_ ⟨0, 0, none, nofun⟩
  · obtain ⟨p, hp, hall⟩ := hrule Glob.Aligned.none (Glob.alive_none.mpr h)
    rw [memberMatch, hp]
    exact trailing_stars.mpr hall
  · intro s r h ha hal
    rcases memberMatchStep_inr h with ⟨hn, hr⟩ | ⟨c, hc, hpct, hne, hstar, hs, -⟩
    · refine ⟨s.p, hr, ?_⟩
      rw [MatchState.Aligned, drop_nil hn] at ha
      rw [MatchState.Alive, drop_nil hn] at hal
      exact (Glob.alive_end ha).mp hal
    · rw [MatchState.Alive, hs, Option.map_none, Glob.alive_none, drop_cons hc] at hal
      exact absurd hal (not_matches_rest hpct hne hstar _)
  · intro s s' h ih ha hal
    obtain ⟨ha', hal'⟩ := alive_step hplain h ha
    exact ih ha' (hal' hal)

end

/-! ## Names with a star -/

/-- Where each character is taken and no star noted, the loop goes straight on. -/
theorem exec_takes {name pat : List UInt8} {k : Nat} {s : MatchState} (hs : s.star = none)
    (htake : ∀ i < k, ∃ c, name[s.n + i]? = some c ∧
      (pat[s.p + i]? = some PERCENT ∨ pat[s.p + i]? = some c)) :
    (memberMatchLoop name pat).exec s =
      (memberMatchLoop name pat).exec ⟨s.n + k, s.p + k, none, nofun⟩ := by
  induction k generalizing s with
  | zero =>
    obtain ⟨n, p, star, behind⟩ := s
    obtain rfl : star = none := hs
    rfl
  | succ k ih =>
    obtain ⟨c, hc, hp⟩ := htake 0 (Nat.succ_pos k)
    have hstep : (memberMatchLoop name pat).step s = .inl ⟨s.n + 1, s.p + 1, s.star,
        fun t ht => Nat.le_succ_of_le (s.behind t ht)⟩ := by
      rw [Nat.add_zero] at hc hp
      simp only [memberMatchLoop, memberMatchStep, hc, if_pos hp]
    have hrest := ih (s := ⟨s.n + 1, s.p + 1, s.star,
      fun t ht => Nat.le_succ_of_le (s.behind t ht)⟩) hs ?_
    · rw [Loop.exec_next _ hstep, hrest]
      simp only [Nat.add_assoc, Nat.add_comm 1 k]
    · intro i hi
      obtain ⟨c, hc, hp⟩ := htake (i + 1) (Nat.succ_lt_succ hi)
      have hshift : ∀ m, m + 1 + i = m + (i + 1) := fun m => by omega
      exact ⟨c, by rw [hshift, hc], by rwa [hshift]⟩

/-- The pattern that asks for as many characters as the name has, after any run of them: its star is
where the name has one. -/
def starPattern (us ws : List UInt8) : List UInt8 :=
  List.replicate us.length PERCENT ++ STAR :: List.replicate (ws.length + 1) PERCENT

theorem starPattern_takes {us ws : List UInt8} {i : Nat} (hi : i < (us ++ STAR :: ws).length) :
    ∃ c, (us ++ STAR :: ws)[i]? = some c ∧
      ((starPattern us ws)[i]? = some PERCENT ∨ (starPattern us ws)[i]? = some c) := by
  refine ⟨(us ++ STAR :: ws)[i], List.getElem?_eq_getElem hi, ?_⟩
  rw [List.length_append, List.length_cons] at hi
  rcases Nat.lt_trichotomy i us.length with h | rfl | h
  · left
    rw [starPattern, List.getElem?_append_left (by simpa using h), List.getElem?_replicate, if_pos h]
  · right
    rw [starPattern, List.getElem?_append_right (by simp), List.getElem_append_right (by simp)]
    simp
  · left
    rw [starPattern, List.getElem?_append_right (by simpa using h.le), List.length_replicate,
      show i - us.length = (i - us.length - 1) + 1 by omega, List.getElem?_cons_succ,
      List.getElem?_replicate, if_pos (by omega)]

theorem memberMatch_starPattern (us ws : List UInt8) :
    memberMatch (us ++ STAR :: ws) (starPattern us ws) = false := by
  have hend : (memberMatchLoop (us ++ STAR :: ws) (starPattern us ws)).exec ⟨0, 0, none, nofun⟩ =
      some (us ++ STAR :: ws).length := by
    rw [exec_takes (k := (us ++ STAR :: ws).length) rfl]
    · apply Loop.exec_done
      simp only [memberMatchLoop, memberMatchStep, Nat.zero_add, List.getElem?_length]
    · intro i hi
      rw [Nat.zero_add]
      exact starPattern_takes hi
  have hrest : (starPattern us ws).drop (us ++ STAR :: ws).length = [PERCENT] := by
    rw [starPattern, List.length_append, List.length_cons, List.drop_append, List.length_replicate,
      List.drop_eq_nil_of_le (by simp), Nat.add_sub_cancel_left, List.drop_succ_cons,
      List.drop_replicate, Nat.add_sub_cancel_left]
    rfl
  rw [memberMatch, hend]
  simp only [hrest]
  rfl

theorem matches_replicate (us vs : List UInt8) {n : Nat} (hn : us.length = n) {pat : List UInt8}
    (h : Glob.Matches (pat.map token) vs) :
    Glob.Matches ((List.replicate n PERCENT ++ pat).map token) (us ++ vs) := by
  subst hn
  induction us with
  | nil => exact h
  | cons u us ih => exact .takes trivial ih

theorem matches_starPattern (us ws : List UInt8) :
    Glob.Matches (tokensFrom (starPattern us ws) 0) (us ++ STAR :: ws) := by
  have hrest : Glob.Matches ((List.replicate (ws.length + 1) PERCENT).map token) (STAR :: ws) := by
    have hnil : Glob.Matches (([] : List UInt8).map token) [] := .nil
    simpa using matches_replicate (STAR :: ws) [] rfl hnil
  exact matches_replicate us (STAR :: ws) rfl (.any [] hrest)

end Mvsmf
