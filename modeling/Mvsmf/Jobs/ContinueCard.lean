import Mvsmf.Jobs.CardPasses

/-!
# The card that continues

`jobcard_continue` makes the last line of a JOB card end in a comma, moving its last operand to a card
of its own where the line is full. What it leaves holds the operands of the line: on one card, or cut
behind a comma that separates operands. Only a line that ends in a comma past column 71 it leaves as
it is.
-/

namespace Mvsmf

open Jcl

/-! ## Card lines -/

/-- The operand field of a card: behind the blanks of a continuation, or behind a name and the
operation. -/
def operandText (line : Text) : Text :=
  let rest := line.drop 2
  if rest.head? = some ' ' then Jcl.field false (rest.dropWhile (· == ' '))
  else
    let behindName := (rest.dropWhile (· != ' ')).dropWhile (· == ' ')
    Jcl.field false ((behindName.dropWhile (· != ' ')).dropWhile (· == ' '))

/-- The operands of a card; a comma behind the last joins it to the next card. -/
def lineOperands (line : Text) : List Text :=
  let text := operandText line
  if text = [] then []
  else split false 0 (if endsInComma text then text.dropLast else text)

/-- What stands in front of the operand field but for the blanks. -/
inductive CardStem : Text → Prop
  | job {name : Text} {k : Nat} :
    name ≠ [] → (∀ c ∈ name, c ≠ ' ' ∧ c ≠ ',' ∧ c ≠ '\'' ∧ c ≠ '(' ∧ c ≠ ')') →
      CardStem ("//".toList ++ (name ++ (List.replicate (k + 1) ' ' ++ "JOB".toList)))
  | continuation : CardStem "//".toList

/-- A line of a JOB card with its operand field: all apostrophes and parentheses are closed, and
there is no comment behind it. -/
structure JobLine (line text : Text) : Prop where
  layout : ∃ stem m n, CardStem stem ∧
    line = stem ++ (List.replicate m ' ' ++ (text ++ List.replicate n ' ')) ∧
    (text ≠ [] → 0 < m) ∧ (stem = "//".toList → text ≠ [])
  whole : Jcl.field false text = text
  closed : text.foldl scan (false, 0) = (false, 0)
  columns : line.length ≤ 80

theorem CardStem.plain {stem : Text} (h : CardStem stem) :
    ∀ c ∈ stem, c ≠ ',' ∧ c ≠ '\'' ∧ c ≠ '(' ∧ c ≠ ')' := by
  intro c hc
  cases h with
  | job _ hname =>
    simp only [List.mem_append] at hc
    rcases hc with hc | hc | hc | hc
    · rw [List.mem_pair.mp hc |>.elim id id]
      decide
    · exact (hname c hc).2
    · rw [List.eq_of_mem_replicate hc]
      decide
    · rcases List.mem_cons.mp hc with rfl | hc
      · decide
      · rcases List.mem_pair.mp hc with rfl | rfl <;> decide
  | continuation =>
    rw [List.mem_pair.mp hc |>.elim id id]
    decide

/-- A card ends in no blank in front of its operands. -/
theorem CardStem.concat {stem : Text} (h : CardStem stem) : ∃ s c, stem = s ++ [c] ∧ c ≠ ' ' := by
  cases h with
  | @job name k _ _ =>
    refine ⟨"//".toList ++ (name ++ (List.replicate (k + 1) ' ' ++ "JO".toList)), 'B', ?_, by decide⟩
    simp only [List.append_assoc]
    rfl
  | continuation => exact ⟨['/'], '/', rfl, by decide⟩

/-- The operand field is behind the blanks. -/
theorem operandText_stem {stem : Text} (h : CardStem stem) (m : Nat) (rest : Text) :
    operandText (stem ++ (List.replicate (m + 1) ' ' ++ rest)) =
      Jcl.field false (rest.dropWhile (· == ' ')) := by
  have hblanks (n : Nat) (s : Text) :
      (List.replicate n ' ' ++ s).dropWhile (· == ' ') = s.dropWhile (· == ' ') :=
    List.dropWhile_append_of_pos fun c hc => by rw [List.eq_of_mem_replicate hc]; rfl
  cases h with
  | @job name k hne hname =>
    have hdrop : ("//".toList ++ (name ++ (List.replicate (k + 1) ' ' ++ "JOB".toList)) ++
        (List.replicate (m + 1) ' ' ++ rest)).drop 2 =
          name ++ (List.replicate (k + 1) ' ' ++ ("JOB".toList ++
            (List.replicate (m + 1) ' ' ++ rest))) := by
      simp only [List.append_assoc]
      rfl
    have hhead : (name ++ (List.replicate (k + 1) ' ' ++ ("JOB".toList ++
        (List.replicate (m + 1) ' ' ++ rest)))).head? ≠ some ' ' := by
      cases name with
      | nil => exact absurd rfl hne
      | cons c name => exact fun hc => (hname c List.mem_cons_self).1 (Option.some.inj hc)
    have hjob : ∀ c ∈ "JOB".toList, c ≠ ' ' := by simp
    rw [operandText, hdrop, if_neg hhead, dropWhile_word fun c hc => (hname c hc).1, hblanks]
    show Jcl.field false ((("JOB".toList ++ (List.replicate (m + 1) ' ' ++ rest)).dropWhile
      (· != ' ')).dropWhile (· == ' ')) = _
    rw [dropWhile_word hjob, hblanks]
  | continuation =>
    have hdrop : ("//".toList ++ (List.replicate (m + 1) ' ' ++ rest)).drop 2 =
        List.replicate (m + 1) ' ' ++ rest := rfl
    have hhead : (List.replicate (m + 1) ' ' ++ rest).head? = some ' ' := rfl
    rw [operandText, hdrop, if_pos hhead, hblanks]

/-- Behind the operation there may be nothing, or what belongs to it. -/
theorem operandText_bare {stem tail : Text} (h : CardStem stem) (hstem : stem ≠ "//".toList)
    (htail : ∀ c ∈ tail, c ≠ ' ') : operandText (stem ++ tail) = [] := by
  cases h with
  | @job name k hne hname =>
    have hdrop : ("//".toList ++ (name ++ (List.replicate (k + 1) ' ' ++ "JOB".toList)) ++ tail).drop 2 =
        name ++ (List.replicate (k + 1) ' ' ++ ("JOB".toList ++ tail)) := by
      simp only [List.append_assoc]
      rfl
    have hhead : (name ++ (List.replicate (k + 1) ' ' ++ ("JOB".toList ++ tail))).head? ≠ some ' ' := by
      cases name with
      | nil => exact absurd rfl hne
      | cons c name => exact fun hc => (hname c List.mem_cons_self).1 (Option.some.inj hc)
    have hblanks : (List.replicate (k + 1) ' ' ++ ("JOB".toList ++ tail)).dropWhile (· == ' ') =
        "JOB".toList ++ tail := by
      rw [List.dropWhile_append_of_pos fun c hc => by rw [List.eq_of_mem_replicate hc]; rfl]
      rfl
    have hword : ("JOB".toList ++ tail).dropWhile (· != ' ') = [] := by
      refine List.dropWhile_eq_nil_iff.mpr fun c hc => ?_
      rcases List.mem_append.mp hc with hc | hc
      · exact (by simp : ∀ c ∈ "JOB".toList, (c != ' ') = true) c hc
      · exact bne_iff_ne.mpr (htail c hc)
    rw [operandText, hdrop, if_neg hhead, dropWhile_word fun c hc => (hname c hc).1, hblanks]
    show Jcl.field false ((("JOB".toList ++ tail).dropWhile (· != ' ')).dropWhile (· == ' ')) = []
    rw [hword]
    rfl
  | continuation => exact absurd rfl hstem

/-- A text that blanks outside apostrophes stand behind. -/
theorem field_blanks {q : Bool} {t : Text} (h : Jcl.field q t = t) (hq : Jcl.quoted q t = false)
    (n : Nat) : Jcl.field q (t ++ List.replicate n ' ') = t := by
  induction t generalizing q with
  | nil =>
    obtain rfl : q = false := hq
    cases n <;> rfl
  | cons c cs ih =>
    obtain ⟨hc, hcs⟩ := (field_append_self q [c] cs).mp h
    have hquoted : Jcl.quoted (Jcl.quoted q [c]) cs = false := by
      rw [← quoted_append]
      exact hq
    rw [List.cons_append]
    have hfield (u : Text) : Jcl.field q (c :: u) = c :: Jcl.field (Jcl.quoted q [c]) u := by
      rw [Jcl.field] at hc ⊢
      by_cases hquote : c = '\''
      · rw [if_pos hquote, Jcl.quoted, List.foldl_cons, if_pos hquote]
        rfl
      · rw [if_neg hquote] at hc ⊢
        rw [Jcl.quoted, List.foldl_cons, if_neg hquote]
        split
        · next hblank =>
          rw [if_pos hblank] at hc
          cases hc
        · rfl
    rw [hfield, ih hcs hquoted]

theorem head_ne_blank {t : Text} (h : Jcl.field false t = t) : t.head? ≠ some ' ' := by
  cases t with
  | nil => exact nofun
  | cons c cs =>
    intro hc
    obtain rfl : c = ' ' := Option.some.inj hc
    cases h

/-- The operand field of a card line. -/
theorem operandText_line {stem t : Text} (hs : CardStem stem) (h : Jcl.field false t = t)
    (hq : Jcl.quoted false t = false) (m n : Nat) :
    operandText (stem ++ (List.replicate (m + 1) ' ' ++ (t ++ List.replicate n ' '))) = t := by
  rw [operandText_stem hs]
  have hhead := head_ne_blank h
  cases t with
  | nil =>
    have hall : (List.replicate n ' ').dropWhile (· == ' ') = [] :=
      List.dropWhile_eq_nil_iff.mpr fun c hc => by rw [List.eq_of_mem_replicate hc]; rfl
    rw [List.nil_append, hall]
    rfl
  | cons c cs =>
    have hc : ¬(c == ' ') = true := fun hc => hhead (congrArg some (eq_of_beq hc))
    rw [List.cons_append, List.dropWhile_cons_of_neg (p := (· == ' ')) hc, ← List.cons_append,
      field_blanks h hq]

/-! ## What it leaves -/

def Continued.cards (r : Continued) : List Text := r.line :: r.moved.toList

/-- The cards hold the operands of a line, and the card that follows them continues them. -/
structure Yields (line : Text) (cards : List Text) : Prop where
  operands : cards.flatMap lineOperands = lineOperands line
  columns : ∀ card ∈ cards, card.length ≤ JOBCARD_LAST_COL
  comma : ∃ card ∈ cards.getLast?, endsInComma card
  cut : ∀ first moved, cards = [first, moved] → ∃ x o,
    line.rdropWhile (· == ' ') = x ++ ',' :: o ∧ x.foldl scan (false, 0) = (false, 0) ∧
      first = x ++ [','] ∧ moved = indent ++ o ++ [',']

/-- Refused with the line as it is, or continued. -/
def ContinuesWell (line : Text) (r : Continued) : Prop :=
  r.rc = -1 ∧ r.cards = [line.rdropWhile (· == ' ')] ∧ r.cards.flatMap lineOperands = lineOperands line ∨
    (r.rc = 0 ∨ r.rc = 1 ∨ r.rc = 2) ∧ Yields line r.cards

section

variable {line text : Text}

theorem endsInComma_concat (t : Text) : endsInComma (t ++ [',']) = true := by
  rw [endsInComma, List.getLast?_concat]
  rfl

theorem getLast?_eq_comma (t : Text) : t.getLast? = some ',' ↔ endsInComma t = true := by
  rw [endsInComma, beq_iff_eq]

/-- A card whose operand field has a comma behind it. -/
theorem lineOperands_more {t card : Text} (h : operandText card = t ++ [',']) :
    lineOperands card = split false 0 t := by
  rw [lineOperands, h]
  simp only [endsInComma_concat, if_true, List.dropLast_concat]
  exact if_neg (List.append_ne_nil_of_right_ne_nil t (List.cons_ne_nil _ _))

theorem lineOperands_last {t card : Text} (h : operandText card = t) (hne : t ≠ [])
    (hcomma : endsInComma t = false) : lineOperands card = split false 0 t := by
  rw [lineOperands, h]
  simp only [hcomma, if_neg hne, Bool.false_eq_true, if_false]

/-- A text whose blanks and apostrophes are closed does not end in a blank. -/
theorem getLast_ne_blank (hwhole : Jcl.field false text = text) (hq : Jcl.quoted false text = false) :
    text.getLast? ≠ some ' ' := by
  intro hlast
  obtain ⟨t, rfl⟩ := List.getLast?_eq_some_iff.mp hlast
  obtain ⟨-, hblank⟩ := (field_append_self false t [' ']).mp hwhole
  rw [Jcl.quoted_append] at hq
  have hopen : Jcl.quoted false t = true := by
    cases hstate : Jcl.quoted false t with
    | true => rfl
    | false =>
      rw [hstate] at hblank
      cases hblank
  rw [hopen] at hq
  cases hq

/-- A line without its blanks. -/
theorem rdropWhile_line {s : Text} {c : Char} (hc : c ≠ ' ') (n : Nat) :
    (s ++ [c] ++ List.replicate n ' ').rdropWhile (· == ' ') = s ++ [c] := by
  rw [Padding.rdropWhile_pad rfl]
  exact List.rdropWhile_concat_neg _ _ _ (by rwa [beq_iff_eq])

/-- A line without operands. -/
theorem continue_bare {stem : Text} (hs : CardStem stem) (hstem : stem ≠ "//".toList)
    (hline : lineOperands line = []) (htrim : line.rdropWhile (· == ' ') = stem) (size : Nat) :
    ContinuesWell line (jobcardContinue line size) := by
  have hbare : operandText stem = [] := by
    have h : operandText (stem ++ []) = [] := operandText_bare hs hstem (List.forall_mem_nil _)
    rwa [List.append_nil] at h
  have hmore : operandText (stem ++ [',']) = [] :=
    operandText_bare hs hstem fun c hc => by rw [List.mem_singleton.mp hc]; decide
  obtain ⟨s, c, hconcat, hc⟩ := hs.concat
  have hplain := hs.plain
  have hcomma : stem.getLast? ≠ some ',' := by
    rw [hconcat, List.getLast?_concat]
    intro h
    have hmem : c ∈ stem := by
      rw [hconcat]
      exact List.mem_append_right s List.mem_cons_self
    exact (hplain c hmem).1 (Option.some.inj h)
  have hne : stem ≠ [] := by
    rw [hconcat]
    exact List.append_ne_nil_of_right_ne_nil s (List.cons_ne_nil c [])
  have hrefused : ContinuesWell line ⟨-1, stem, none⟩ := by
    refine .inl ⟨rfl, congrArg (fun t => [t]) htrim.symm, ?_⟩
    rw [hline]
    show [stem].flatMap lineOperands = []
    rw [List.flatMap_singleton, lineOperands, hbare]
    rfl
  rw [jobcardContinue, htrim]
  dsimp only
  rw [if_neg (not_or.mpr ⟨hne, hcomma⟩)]
  split
  · next hshort =>
    refine .inr ⟨.inr (.inl rfl), ?_⟩
    refine ⟨?_, ?_, ⟨_, rfl, endsInComma_concat stem⟩, by rintro _ _ ⟨⟩⟩
    · rw [hline]
      show [stem ++ [',']].flatMap lineOperands = []
      rw [List.flatMap_singleton, lineOperands, hmore]
      rfl
    · intro card hcard
      rw [List.mem_singleton.mp hcard, List.length_append]
      exact hshort
  · split
    · exact hrefused
    · split
      · exact hrefused
      · next ii hii =>
        obtain ⟨x, y, heq, -⟩ := lastComma_scan hii
        have hmem : ',' ∈ stem := by
          rw [heq]
          exact List.mem_append_right x List.mem_cons_self
        exact absurd rfl (hplain ',' hmem).1

theorem endsInComma_append (s : Text) {t : Text} (hne : t ≠ []) :
    endsInComma (s ++ t) = endsInComma t := by
  rw [endsInComma, endsInComma, List.getLast?_append_of_ne_nil s hne]

/-- A comma of a line is in its operand field. -/
theorem comma_in_field {stem x y : Text} (hs : CardStem stem) {m : Nat}
    (h : stem ++ (List.replicate m ' ' ++ text) = x ++ ',' :: y) :
    ∃ z, x = stem ++ (List.replicate m ' ' ++ z) ∧ text = z ++ ',' :: y := by
  rw [← List.append_assoc] at h
  rcases List.append_eq_append_iff.mp h with ⟨z, rfl, htext⟩ | ⟨z, hfront, htext⟩
  · exact ⟨z, List.append_assoc _ _ _, htext⟩
  · cases z with
    | nil =>
      rw [List.append_nil] at hfront
      exact ⟨[], by rw [List.append_nil, hfront], htext.symm⟩
    | cons c z =>
      obtain rfl : ',' = c := (List.cons.inj htext).1
      have hmem : ',' ∈ stem ++ List.replicate m ' ' := by
        rw [hfront]
        exact List.mem_append_right x List.mem_cons_self
      rcases List.mem_append.mp hmem with hmem | hmem
      · exact absurd rfl (hs.plain ',' hmem).1
      · exact absurd (List.eq_of_mem_replicate hmem) (by decide)

/-- A line with operands. -/
theorem continue_operands {stem : Text} (hs : CardStem stem) {m : Nat}
    (hwhole : Jcl.field false text = text) (hclosed : text.foldl scan (false, 0) = (false, 0))
    (hne : text ≠ []) (hline : operandText line = text)
    (htrim : line.rdropWhile (· == ' ') = stem ++ (List.replicate (m + 1) ' ' ++ text)) (size : Nat)
    (hfits : ¬(JOBCARD_LAST_COL < (line.rdropWhile (· == ' ')).length ∧
      endsInComma (line.rdropWhile (· == ' ')) = true)) :
    ContinuesWell line (jobcardContinue line size) := by
  have hq : Jcl.quoted false text = false :=
    (scan_fst (false, 0) text).symm.trans (congrArg Prod.fst hclosed)
  have hfront (t : Text) : operandText (stem ++ (List.replicate (m + 1) ' ' ++ t)) =
      operandText (stem ++ (List.replicate (m + 1) ' ' ++ (t ++ List.replicate 0 ' '))) := by
    rw [List.replicate_zero, List.append_nil]
  have hends : endsInComma (stem ++ (List.replicate (m + 1) ' ' ++ text)) = endsInComma text := by
    rw [← List.append_assoc, endsInComma_append _ hne]
  have hrefused : ContinuesWell line ⟨-1, stem ++ (List.replicate (m + 1) ' ' ++ text), none⟩ := by
    refine .inl ⟨rfl, congrArg (fun t => [t]) htrim.symm, ?_⟩
    show [stem ++ (List.replicate (m + 1) ' ' ++ text)].flatMap lineOperands = _
    rw [List.flatMap_singleton, lineOperands, lineOperands, hline, hfront,
      operandText_line hs hwhole hq m 0]
  rw [htrim] at hfits
  rw [jobcardContinue, htrim]
  dsimp only
  by_cases hcomma : endsInComma text = true
  · -- the comma is there, and in column 71 or before
    rw [if_pos (.inr ((getLast?_eq_comma _).mpr (hends.trans hcomma)))]
    refine .inr ⟨.inl rfl, ?_, ?_, ⟨_, rfl, hends.trans hcomma⟩, by rintro _ _ ⟨⟩⟩
    · show [stem ++ (List.replicate (m + 1) ' ' ++ text)].flatMap lineOperands = _
      rw [List.flatMap_singleton, lineOperands, lineOperands, hline, hfront,
        operandText_line hs hwhole hq m 0]
    · intro card hcard
      rw [List.mem_singleton.mp hcard]
      exact Nat.not_lt.mp fun hlong => hfits ⟨hlong, hends.trans hcomma⟩
  have hlast : endsInComma text = false := Bool.not_eq_true _ ▸ hcomma
  have hoperands : lineOperands line = split false 0 text := lineOperands_last hline hne hlast
  have hnonempty : stem ++ (List.replicate (m + 1) ' ' ++ text) ≠ [] :=
    List.append_ne_nil_of_right_ne_nil _ (List.append_ne_nil_of_right_ne_nil _ hne)
  rw [if_neg (not_or.mpr ⟨hnonempty, mt (getLast?_eq_comma _).mp (by rwa [hends])⟩)]
  split
  · next hshort =>
    have hmore : stem ++ (List.replicate (m + 1) ' ' ++ text) ++ [','] =
        stem ++ (List.replicate (m + 1) ' ' ++ (text ++ [','])) := by
      simp only [List.append_assoc]
    have hfield :
        operandText (stem ++ (List.replicate (m + 1) ' ' ++ (text ++ [',']))) = text ++ [','] := by
      rw [hfront]
      refine operandText_line hs ((field_append_self false text [',']).mpr ⟨hwhole, ?_⟩) ?_ m 0
      · rw [hq]
        rfl
      · rw [Jcl.quoted_append, hq]
        rfl
    refine .inr ⟨.inr (.inl rfl), ?_, ?_, ⟨_, rfl, endsInComma_concat _⟩, by rintro _ _ ⟨⟩⟩
    · show [stem ++ (List.replicate (m + 1) ' ' ++ text) ++ [',']].flatMap lineOperands = _
      rw [List.flatMap_singleton, hmore, lineOperands_more hfield, hoperands]
    · intro card hcard
      rw [List.mem_singleton.mp hcard, List.length_append]
      exact hshort
  · split
    · exact hrefused
    · next hfull =>
      split
      · exact hrefused
      · next ii hii =>
        split
        · exact hrefused
        · next hroom =>
          obtain ⟨x, y, heq, hlen, hscan⟩ := lastComma_scan hii
          obtain ⟨z, rfl, rfl⟩ := comma_in_field hs heq
          have hz : z.foldl scan (false, 0) = (false, 0) := by
            have hplain : ∀ c ∈ stem ++ List.replicate (m + 1) ' ', c ≠ '\'' ∧ c ≠ '(' ∧ c ≠ ')' := by
              intro c hc
              rcases List.mem_append.mp hc with hc | hc
              · exact (hs.plain c hc).2
              · rw [List.eq_of_mem_replicate hc]
                decide
            rwa [← List.append_assoc, List.foldl_append, scan_plain hplain] at hscan
          have hzq : Jcl.quoted false z = false :=
            (scan_fst (false, 0) z).symm.trans (congrArg Prod.fst hz)
          have hcut : z ++ ',' :: y = (z ++ [',']) ++ y := List.append_cons z ',' y
          rw [hcut] at hwhole hq
          obtain ⟨hwholeZ, hwholeY⟩ := (field_append_self false (z ++ [',']) y).mp hwhole
          have hstate : Jcl.quoted false (z ++ [',']) = false := by
            rw [Jcl.quoted_append, hzq]
            rfl
          rw [hstate] at hwholeY
          rw [Jcl.quoted_append, hstate] at hq
          have hy : y ≠ [] := by
            rintro rfl
            rw [endsInComma_concat] at hlast
            cases hlast
          have hlenCut : (stem ++ (List.replicate (m + 1) ' ' ++ z) ++ [',']).length = ii + 1 := by
            rw [List.length_append, hlen]
            rfl
          have hall : stem ++ (List.replicate (m + 1) ' ' ++ (z ++ ',' :: y)) =
              stem ++ (List.replicate (m + 1) ' ' ++ z) ++ [','] ++ y := by
            simp only [List.append_assoc, List.singleton_append]
          have htake : (stem ++ (List.replicate (m + 1) ' ' ++ (z ++ ',' :: y))).take (ii + 1) =
              stem ++ (List.replicate (m + 1) ' ' ++ z) ++ [','] := by
            rw [hall, List.take_left' hlenCut]
          have hdrop : (stem ++ (List.replicate (m + 1) ' ' ++ (z ++ ',' :: y))).drop (ii + 1) = y := by
            rw [hall, List.drop_left' hlenCut]
          rw [hdrop] at hroom
          rw [htake, hdrop]
          have hfirst : operandText (stem ++ (List.replicate (m + 1) ' ' ++ z) ++ [',']) = z ++ [','] := by
            have hassoc : stem ++ (List.replicate (m + 1) ' ' ++ z) ++ [','] =
                stem ++ (List.replicate (m + 1) ' ' ++ (z ++ [','])) := by
              simp only [List.append_assoc]
            rw [hassoc, hfront]
            exact operandText_line hs hwholeZ hstate m 0
          have hmoved : operandText (indent ++ y ++ [',']) = y ++ [','] := by
            have hindent : indent ++ y ++ [','] =
                "//".toList ++ (List.replicate (8 + 1) ' ' ++ (y ++ [','] ++ List.replicate 0 ' ')) := by
              rw [List.replicate_zero, List.append_nil, List.append_assoc]
              rfl
            rw [hindent]
            refine operandText_line .continuation
              ((field_append_self false y [',']).mpr ⟨hwholeY, ?_⟩) ?_ 8 0
            · rw [hq]
              rfl
            · rw [Jcl.quoted_append, hq]
              rfl
          refine .inr ⟨.inr (.inr rfl), ?_, ?_, ⟨_, rfl, endsInComma_concat _⟩, ?_⟩
          · show [stem ++ (List.replicate (m + 1) ' ' ++ z) ++ [','], indent ++ y ++ [',']].flatMap
              lineOperands = _
            rw [List.flatMap_cons, List.flatMap_singleton, lineOperands_more hfirst,
              lineOperands_more hmoved, hoperands]
            exact (split_comma hz y).symm
          · intro card hcard
            rcases List.mem_pair.mp hcard with rfl | rfl
            · rw [← htake, List.length_take]
              exact Nat.le_trans (Nat.min_le_right _ _) (Nat.not_lt.mp hfull)
            · exact Nat.not_lt.mp fun hlong => hroom (.inl hlong)
          · intro first moved hcards
            obtain ⟨rfl, hrest⟩ := List.cons.inj hcards
            obtain ⟨rfl, -⟩ := List.cons.inj hrest
            exact ⟨_, y, htrim.trans (by rw [hall, List.append_assoc]; rfl), hscan, rfl, rfl⟩

end

/-- A line without operands, and what it is without its blanks. -/
theorem JobLine.bare {line : Text} (h : JobLine line []) :
    ∃ stem, CardStem stem ∧ stem ≠ "//".toList ∧ lineOperands line = [] ∧
      line.rdropWhile (· == ' ') = stem := by
  obtain ⟨stem, m, n, hs, hline, -, hstem⟩ := h.layout
  have hcont : stem ≠ "//".toList := fun heq => hstem heq rfl
  rw [List.nil_append, List.replicate_append_replicate] at hline
  refine ⟨stem, hs, hcont, ?_, ?_⟩
  · have hnone : operandText line = [] := by
      rw [hline]
      cases m + n with
      | zero => exact operandText_bare hs hcont nofun
      | succ k =>
        have h := operandText_stem hs k []
        rwa [List.append_nil] at h
    rw [lineOperands, hnone]
    rfl
  · obtain ⟨s, c, rfl, hc⟩ := hs.concat
    rw [hline, rdropWhile_line hc]

/-- A line with operands, and what it is without its blanks. -/
theorem JobLine.operands {line text : Text} (h : JobLine line text) (hne : text ≠ []) :
    ∃ stem m, CardStem stem ∧ operandText line = text ∧
      line.rdropWhile (· == ' ') = stem ++ (List.replicate (m + 1) ' ' ++ text) := by
  obtain ⟨stem, m, n, hs, hline, hblank, -⟩ := h.layout
  obtain ⟨m, rfl⟩ := Nat.exists_eq_succ_of_ne_zero (Nat.ne_of_gt (hblank hne))
  have hq : Jcl.quoted false text = false :=
    (scan_fst (false, 0) text).symm.trans (congrArg Prod.fst h.closed)
  refine ⟨stem, m, hs, ?_, ?_⟩
  · rw [hline]
    exact operandText_line hs h.whole hq m n
  · obtain ⟨t, c, rfl⟩ : ∃ t c, text = t ++ [c] := ⟨_, _, (List.dropLast_append_getLast hne).symm⟩
    have hc : c ≠ ' ' := by
      rintro rfl
      exact getLast_ne_blank h.whole hq List.getLast?_concat
    have hassoc : line = stem ++ (List.replicate (m + 1) ' ' ++ t) ++ [c] ++ List.replicate n ' ' := by
      rw [hline]
      simp only [List.append_assoc]
    rw [hassoc, rdropWhile_line hc]
    simp only [List.append_assoc]

/-- A line past column 71 that ends in a comma is taken for one that continues. -/
theorem not_continuesWell {line : Text} (hlong : JOBCARD_LAST_COL < (line.rdropWhile (· == ' ')).length)
    (hcomma : endsInComma (line.rdropWhile (· == ' ')) = true) (size : Nat) :
    ¬ContinuesWell line (jobcardContinue line size) := by
  rw [jobcardContinue]
  dsimp only
  rw [if_pos (.inr ((getLast?_eq_comma _).mpr hcomma))]
  rintro (⟨hrc, -⟩ | ⟨-, hyields⟩)
  · cases hrc
  · exact absurd (hyields.columns _ List.mem_cons_self) (Nat.not_le_of_lt hlong)

/-- **The card that continues.** A line of a JOB card is refused with its operands as they are, or made
into one or two cards with these operands, cut at most behind a comma between two of them and with a
comma in column 71 or before at their end, exactly if it does not already end in a comma past it. -/
theorem jobcardContinue_iff {line text : Text} (h : JobLine line text) (size : Nat) :
    ContinuesWell line (jobcardContinue line size) ↔
      ¬(JOBCARD_LAST_COL < (line.rdropWhile (· == ' ')).length ∧
        endsInComma (line.rdropWhile (· == ' ')) = true) := by
  refine ⟨fun hwell hpast => not_continuesWell hpast.1 hpast.2 size hwell, fun hfits => ?_⟩
  by_cases hne : text = []
  · subst hne
    obtain ⟨stem, hs, hcont, hline, htrim⟩ := h.bare
    exact continue_bare hs hcont hline htrim size
  · obtain ⟨stem, m, hs, hline, htrim⟩ := h.operands hne
    exact continue_operands hs h.whole h.closed hne hline htrim size hfits

theorem jobLine_of_name {text : Text} (hwhole : Jcl.field false text = text)
    (hclosed : text.foldl scan (false, 0) = (false, 0)) (hlen : text.length ≤ 72) :
    JobLine ("//J JOB ".toList ++ text) text where
  layout := by
    have hname : ∀ c ∈ ['J'], c ≠ ' ' ∧ c ≠ ',' ∧ c ≠ '\'' ∧ c ≠ '(' ∧ c ≠ ')' := by
      simp
    refine ⟨_, 1, 0, .job (k := 0) (List.cons_ne_nil 'J' []) hname, ?_, fun _ => Nat.one_pos, nofun⟩
    rw [List.replicate_zero, List.append_nil]
    rfl
  whole := hwhole
  closed := hclosed
  columns := by
    rw [List.length_append]
    exact Nat.add_le_add_left hlen 8

theorem jobcardContinue_iff_two :
    JobLine "//J JOB (1,1),'A,B'".toList "(1,1),'A,B'".toList ∧
      ContinuesWell "//J JOB (1,1),'A,B'".toList (jobcardContinue "//J JOB (1,1),'A,B'".toList 81) := by
  have hline : JobLine "//J JOB (1,1),'A,B'".toList "(1,1),'A,B'".toList :=
    jobLine_of_name rfl rfl (by decide)
  exact ⟨hline, (jobcardContinue_iff hline 81).mpr fun hpast => absurd hpast.1 (by decide)⟩

/-- 65 columns of operands behind column 8, the last a comma. -/
theorem jobcardContinue_past_column :
    let text := List.replicate 64 'A' ++ [',']
    JobLine ("//J JOB ".toList ++ text) text ∧
      ¬ContinuesWell ("//J JOB ".toList ++ text) (jobcardContinue ("//J JOB ".toList ++ text) 81) := by
  intro text
  have htrim : ("//J JOB ".toList ++ text).rdropWhile (· == ' ') = "//J JOB ".toList ++ text := by
    rw [← List.append_assoc]
    exact List.rdropWhile_concat_neg _ _ _ (by decide)
  have hline : JobLine ("//J JOB ".toList ++ text) text :=
    jobLine_of_name (by decide +kernel) (by decide +kernel) (by decide +kernel)
  refine ⟨hline, not_continuesWell ?_ ?_ 81⟩
  · rw [htrim]
    simp [text, JOBCARD_LAST_COL]
  · rw [htrim, ← List.append_assoc]
    exact endsInComma_concat _

end Mvsmf
