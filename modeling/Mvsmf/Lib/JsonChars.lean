import Mvsmf.Lib.JsonText

/-!
# Parts of a string

A blank between the quotes of a JSON text stands for itself, so a string falls into parts there. And
wherever in a JSON text a name in quotes has a colon and a quote behind it, a string begins at that
quote.
-/

namespace Json

theorem hexFrom_ne_blank {hs : List Char} {n u : Nat} (h : hexFrom n hs = some u) : ' ' ∉ hs := by
  induction hs generalizing n with
  | nil => exact nofun
  | cons c hs ih =>
    obtain ⟨d, hd, hu⟩ := Option.bind_eq_some_iff.mp h
    refine List.not_mem_cons_of_ne_of_not_mem ?_ (ih hu)
    rintro rfl
    exact nomatch hd

/-- A string in two parts at a blank. -/
theorem Chars.split_blank {xs ys : List Char} {us : List Nat} (h : Chars (xs ++ ' ' :: ys) us) :
    ∃ vs ws, us = vs ++ 32 :: ws ∧ Chars xs vs ∧ Chars ys ws := by
  generalize htext : xs ++ ' ' :: ys = text at h
  induction h generalizing xs with
  | nil => exact absurd htext (by simp)
  | @plain c cs us hc htail ih =>
    cases xs with
    | nil =>
      obtain ⟨rfl, rfl⟩ := List.cons.inj htext
      exact ⟨[], us, rfl, .nil, htail⟩
    | cons x xs =>
      obtain ⟨rfl, hcs⟩ := List.cons.inj htext
      obtain ⟨vs, ws, rfl, hvs, hws⟩ := ih hcs
      exact ⟨_, ws, rfl, .plain hc hvs, hws⟩
  | @short e u cs us he htail ih =>
    rcases xs with _ | ⟨x, _ | ⟨y, xs⟩⟩
    · exact absurd (List.cons.inj htext).1 (by decide)
    · obtain ⟨-, hrest⟩ := List.cons.inj htext
      obtain ⟨rfl, -⟩ := List.cons.inj hrest
      cases he
    · obtain ⟨rfl, hrest⟩ := List.cons.inj htext
      obtain ⟨rfl, hcs⟩ := List.cons.inj hrest
      obtain ⟨vs, ws, rfl, hvs, hws⟩ := ih hcs
      exact ⟨_, ws, rfl, .short he hvs, hws⟩
  | @code hs u cs us hl hu htail ih =>
    rcases xs with _ | ⟨x, _ | ⟨y, xs⟩⟩
    · exact absurd (List.cons.inj htext).1 (by decide)
    · obtain ⟨-, hrest⟩ := List.cons.inj htext
      exact absurd (List.cons.inj hrest).1 (by decide)
    · obtain ⟨rfl, hrest⟩ := List.cons.inj htext
      obtain ⟨rfl, hcs⟩ := List.cons.inj hrest
      rcases List.append_eq_append_iff.mp hcs with ⟨mid, rfl, hmid⟩ | ⟨mid, rfl, hmid⟩
      · cases mid with
        | nil =>
          rw [List.append_nil] at hl hu
          obtain ⟨vs, ws, rfl, hvs, hws⟩ := @ih [] hmid
          cases hvs
          exact ⟨[u], ws, rfl, by simpa using Chars.code hl hu .nil, hws⟩
        | cons m mid =>
          obtain ⟨rfl, -⟩ := List.cons.inj hmid
          exact absurd (List.mem_append_right xs List.mem_cons_self) (hexFrom_ne_blank hu)
      · obtain ⟨vs, ws, rfl, hvs, hws⟩ := ih hmid.symm
        exact ⟨u :: vs, ws, rfl, .code hl hu hvs, hws⟩

/-- What is written without an escape stands for itself. -/
theorem Chars.split_plain {ps ys : List Char} {us : List Nat} (hps : '\\' ∉ ps)
    (h : Chars (ps ++ ys) us) : ∃ ws, us = units ps ++ ws ∧ Chars ys ws ∧ ∀ c ∈ ps, Plain c := by
  induction ps generalizing us with
  | nil => exact ⟨us, rfl, h, nofun⟩
  | cons p ps ih =>
    have hp : p ≠ '\\' := fun hp => hps (by rw [hp]; exact List.mem_cons_self)
    generalize htext : p :: ps ++ ys = text at h
    cases h with
    | nil => cases htext
    | plain hplain htail =>
      obtain ⟨rfl, rfl⟩ := List.cons.inj htext
      obtain ⟨ws, rfl, hws, hall⟩ := ih (fun hin => hps (List.mem_cons_of_mem _ hin)) htail
      exact ⟨ws, rfl, hws, List.forall_mem_cons.mpr ⟨hplain, hall⟩⟩
    | short => exact absurd (List.cons.inj htext).1 hp
    | code => exact absurd (List.cons.inj htext).1 hp

theorem Chars.count_blank {text : List Char} {us : List Nat} (h : Chars text us) :
    text.count ' ' ≤ us.count 32 := by
  induction h with
  | nil => exact Nat.le_refl 0
  | @plain c cs us hc _ ih =>
    by_cases hblank : c = ' '
    · subst hblank
      rw [List.count_cons_self, show ' '.toNat = 32 from rfl, List.count_cons_self]
      exact Nat.succ_le_succ ih
    · rw [List.count_cons_of_ne hblank]
      exact Nat.le_trans ih (List.count_le_count_cons)
  | @short e u cs us he _ ih =>
    have hne : e ≠ ' ' := by
      rintro rfl
      cases he
    rw [List.count_cons_of_ne (by decide), List.count_cons_of_ne hne]
    exact Nat.le_trans ih (List.count_le_count_cons)
  | @code hs u cs us hl hu _ ih =>
    rw [List.count_cons_of_ne (by decide), List.count_cons_of_ne (by decide), List.count_append,
      List.count_eq_zero_of_not_mem (hexFrom_ne_blank hu), Nat.zero_add]
    exact Nat.le_trans ih (List.count_le_count_cons)

/-! ## A string behind a name -/

section Named

variable {st : List Frame} {v : Value} {t gap sep : List Char}

/-- The text reads on as a string. -/
def BeginsString (t : List Char) : Prop :=
  ∃ text us rest, t = text ++ '"' :: rest ∧ Chars text us

theorem read_gap {m : Mode} {c : Char} {cs : List Char} (hgap : ∀ c ∈ gap, isSpace c = true)
    (hm : ∀ c, isSpace c = true → step ⟨st, m⟩ c = some ⟨st, m⟩) :
    read ⟨st, m⟩ (gap ++ c :: cs) = (step ⟨st, m⟩ c).bind (read · cs) := by
  induction gap with
  | nil => exact read_cons _ _ _
  | cons d gap ih =>
    obtain ⟨hd, hgap⟩ := List.forall_mem_cons.mp hgap
    rw [List.cons_append, read_cons, hm d hd]
    exact ih hgap

theorem read_colon (hgap : ∀ c ∈ gap, isSpace c = true) (hsep : ∀ c ∈ sep, isSpace c = true)
    (h : read ⟨st, .colon⟩ (gap ++ ':' :: (sep ++ '"' :: t)) = some v) : BeginsString t := by
  rw [read_gap hgap fun c hc => by simp [step, hc]] at h
  have hvalue : step ⟨st, .colon⟩ ':' = some ⟨st, .value false⟩ := rfl
  rw [hvalue, Option.bind_some, read_gap hsep fun c hc => by simp [step, hc]] at h
  obtain ⟨text, us, rest, ht, hchars, -⟩ := @read_chars st false _ [] _ h
  exact ⟨text, us, rest, ht, hchars⟩

theorem read_after (hgap : ∀ c ∈ gap, isSpace c = true) (cs : List Char) :
    read ⟨st, .after⟩ (gap ++ ':' :: cs) = none := by
  rw [read_gap hgap fun c hc => by simp [step, separator, hc]]
  rfl

theorem quoted_key {us : List Nat} {s : State} (h : quoted st us true = some s) :
    ∃ st', s = ⟨st', .colon⟩ := by
  unfold quoted at h
  dsimp only at h
  split at h
  · cases h
    exact ⟨_, rfl⟩
  · cases h

/-- A name that ends in front of a colon is a key. -/
theorem read_name {k : Bool} {acc : List Nat} {key : List Char} (hkey : ∀ c ∈ key, isWord c = true)
    (hgap : ∀ c ∈ gap, isSpace c = true) (hsep : ∀ c ∈ sep, isSpace c = true)
    (h : read ⟨st, .chars k acc⟩ (key ++ '"' :: (gap ++ ':' :: (sep ++ '"' :: t))) = some v) :
    BeginsString t := by
  have hfeed := (Chars.of_plain fun c hc => plain_of_isWord (hkey c hc)).feed st k acc
  rw [read_append, hfeed, Option.bind_some, read_cons] at h
  have hclose : step ⟨st, .chars k (acc ++ units key)⟩ '"' = quoted st (acc ++ units key) k := rfl
  rw [hclose] at h
  cases k with
  | false =>
    rw [quoted, Option.bind_some, read_after hgap] at h
    cases h
  | true =>
    obtain ⟨s, hs, hread⟩ := Option.bind_eq_some_iff.mp h
    obtain ⟨st', rfl⟩ := quoted_key hs
    exact read_colon hgap hsep hread

/-- A character of a word stands neither behind a value nor in front of a colon. -/
theorem step_word_none {c : Char} (h : isWord c = true) :
    step ⟨st, .after⟩ c = none ∧ step ⟨st, .colon⟩ c = none := by
  have hspace := isSpace_of_isWord h
  constructor
  · simp only [step, separator, hspace, if_neg (isWord_ne h (d := ',') rfl),
      if_neg (isWord_ne h (d := ']') rfl), if_neg (isWord_ne h (d := '}') rfl), Bool.false_eq_true,
      if_false]
  · simp only [step, hspace, if_neg (isWord_ne h (d := ':') rfl), Bool.false_eq_true, if_false]

/-- Behind a quoted name, a colon and a quote a string begins, wherever that is in the text. -/
theorem read_named {s : State} {key : List Char} (hkey : ∀ c ∈ key, isWord c = true) (hne : key ≠ [])
    (hgap : ∀ c ∈ gap, isSpace c = true) (hsep : ∀ c ∈ sep, isSpace c = true)
    (h : read s ('"' :: (key ++ '"' :: (gap ++ ':' :: (sep ++ '"' :: t)))) = some v) :
    BeginsString t := by
  obtain ⟨st, m⟩ := s
  obtain ⟨s, hs, hread⟩ := Option.bind_eq_some_iff.mp ((read_cons ..).symm.trans h)
  cases m with
  | value first =>
    cases hs
    exact read_name hkey hgap hsep hread
  | key first =>
    cases hs
    exact read_name hkey hgap hsep hread
  | colon => cases hs
  | after => cases hs
  | chars k us =>
    -- the quote ends a string, which no name follows
    obtain ⟨c, key, rfl⟩ := List.exists_cons_of_ne_nil hne
    have hword := hkey c List.mem_cons_self
    rw [List.cons_append, read_cons] at hread
    have hclose : quoted st us k = some s := hs
    cases k with
    | false =>
      cases hclose
      rw [(step_word_none hword).1] at hread
      cases hread
    | true =>
      obtain ⟨st', rfl⟩ := quoted_key hclose
      rw [(step_word_none hword).2] at hread
      cases hread
  | escape k us =>
    cases hs
    exact read_name hkey hgap hsep hread
  | code k us n left => cases hs
  | word cs =>
    obtain ⟨w, -, hsep⟩ := Option.bind_eq_some_iff.mp hs
    cases hsep

end Named

end Json
