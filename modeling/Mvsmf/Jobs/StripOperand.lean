import Mvsmf.Jobs.JobCard

/-!
# Stripping any line

What `jobcard_strip_operand` makes of a line, whatever the line is: every word loses the pieces that
carry the keyword. The words of a comment and the pieces inside parentheses are no exception, since
the search knows apostrophes, commas and blanks only.
-/

namespace Mvsmf

open Jcl

/-- The word without the operands of the keyword. -/
def without (k w : Text) : Text := render false ((pieces false w).filter (!carries k ·))

/-- If the keyword stands alone somewhere, no piece begins with an equals sign. -/
def Apart (k : Text) (ps : List Text) : Prop := k ∈ ps → ∀ p ∈ ps, p.head? ≠ some '='

/-! ## Where pieces stand -/

/-- What stands in front of a word of a row. -/
def rowLead (pss : List (List Text)) : Text := pss.flatMap (render false · ++ [' '])

theorem rowText_split (pss qss : List (List Text)) :
    ∃ t, (∀ c ∈ t.head?, c = ' ') ∧ ∀ ps,
      rowText (pss ++ ps :: qss) = rowLead pss ++ (render false ps ++ t) := by
  by_cases hne : qss = []
  · subst hne
    refine ⟨[], by simp, fun ps => ?_⟩
    rw [rowText_append pss (by simp), List.append_nil]
    rfl
  · exact ⟨' ' :: rowText qss, by simp,
      fun ps => by rw [rowText_append pss (by simp), rowText_cons ps hne, rowLead]⟩

/-- Where a piece stands in its row. -/
theorem rowText_at (pss qss : List (List Text)) (as bs : List Text) (c : Text) :
    ∃ t, rowText (pss ++ (as ++ c :: bs) :: qss) = rowLead pss ++ render true as ++ (c ++ t) := by
  obtain ⟨t, -, htext⟩ := rowText_split pss qss
  rw [htext, render_append false as (by simp)]
  cases bs with
  | nil => exact ⟨t, by simp⟩
  | cons b bs => exact ⟨',' :: (render false (b :: bs) ++ t), by simp [render_cons false c]⟩

/-! ## The search through a row -/

theorem Apart.subset {k : Text} {ps ps' : List Text} (h : Apart k ps) (hsub : ps' ⊆ ps) :
    Apart k ps' :=
  fun hk p hp => h (hsub hk) p (hsub hp)

theorem head_render {ps : List Text} (hfree : ∀ p ∈ ps, free [',', ' '] false p = true)
    (heq : ∀ p ∈ ps, p.head? ≠ some '=') : ∀ c ∈ (render false ps).head?, c ≠ '=' ∧ c ≠ ' ' := by
  intro c hc
  match ps with
  | [] => simp at hc
  | [] :: [] => simp at hc
  | [] :: p' :: ps =>
    obtain rfl : ',' = c := by simpa [render] using hc
    decide
  | (a :: as) :: ps =>
    have hhead : (render false ((a :: as) :: ps)).head? = some a := by
      cases ps <;> rfl
    obtain rfl : a = c := by simpa [hhead] using hc
    have ha : a ≠ '=' := by simpa using heq (a :: as) List.mem_cons_self
    refine ⟨ha, ?_⟩
    rintro rfl
    have := hfree (' ' :: as) List.mem_cons_self
    simp [free] at this

/-- Behind the blanks of a row stands no equals sign. -/
theorem no_equals_rowText {pss : List (List Text)} (hrow : Row pss)
    (heq : ∀ p ∈ pss.flatten, p.head? ≠ some '=') :
    ((rowText pss).dropWhile (· == ' ')).head? ≠ some '=' := by
  induction pss with
  | nil => simp [rowText, spread]
  | cons ps pss ih =>
    have hhead := head_render hrow.1.free fun p hp => heq p (by simp [hp])
    have ih := ih hrow.2.2 fun p hp => heq p (by
      rw [List.flatten_cons, List.mem_append]
      exact Or.inr hp)
    have htext : ∃ t, rowText (ps :: pss) = render false ps ++ t ∧
        (t.dropWhile (· == ' ')).head? ≠ some '=' := by
      by_cases hne : pss = []
      · subst hne
        exact ⟨[], by simp [rowText, spread], by simp⟩
      · exact ⟨_, rowText_cons ps hne, by simpa using ih⟩
    obtain ⟨t, ht, hteq⟩ := htext
    rw [ht]
    cases hr : render false ps with
    | nil => exact hteq
    | cons c cs =>
      obtain ⟨hc, hblank⟩ := hhead c (by simp [hr])
      simp [hblank, hc]

/-- A text with an open end holds no operand if none begins with it. -/
theorem findOperandFrom_free {k p : Text} {q a : Bool} (hp : free [',', ' '] q p = true)
    (hat : a = true → q = false → keywordAt k p = false) : findOperandFrom k q a p = none := by
  induction p generalizing q a with
  | nil => rfl
  | cons c cs ih =>
    rw [findOperandFrom]
    rw [free] at hp
    by_cases hc : c = '\''
    · rw [if_pos hc] at hp ⊢
      rw [ih hp (by simp)]
      rfl
    · rw [if_neg hc, Bool.and_eq_true] at hp
      rw [if_neg hc]
      cases q with
      | true => rw [if_pos rfl, ih hp.2 (by simp), Option.map_none]
      | false =>
        have hnot : (a && keywordAt k (c :: cs)) = false := by
          cases a with
          | true => exact hat rfl rfl
          | false => rfl
        have hsep : (c == ',' || c == ' ') = false := by simpa using hp.1
        have ih : findOperandFrom k false false cs = none := ih hp.2 (by simp)
        simp only [Bool.false_eq_true, if_false, hnot, hsep, ih, Option.map_none]

section Search

variable {k : Text} (hk : IsOperandName k)

include hk

/-- A word with no operand of the keyword is passed over, with the blank behind it. -/
theorem findOperandFrom_word_blank {ps : List Text} {s : Text}
    (hp : ∀ p ∈ ps, isPiece false p = true) (hno : ∀ p ∈ ps, carries k p = false)
    (hapart : k ∈ ps → (s.dropWhile (· == ' ')).head? ≠ some '=') :
    findOperandFrom k false true (render false ps ++ ' ' :: s) =
      (findOperandFrom k false true s).map (· + (render false ps ++ [' ']).length) := by
  have hblank : findOperandFrom k false true (' ' :: s) =
      (findOperandFrom k false true s).map (· + 1) := findOperandFrom_blanks hk 0 true s
  rcases List.eq_nil_or_concat ps with rfl | ⟨as, a, rfl⟩
  · simpa using hblank
  · simp only [List.concat_eq_append, List.mem_append, List.mem_singleton] at hp hno hapart ⊢
    have hat : keywordAt k (a ++ ' ' :: s) = false := by
      refine keywordAt_apart hk (isPiece_iff.mp (hp a (Or.inr rfl))).1 (hno a (Or.inr rfl))
        (by simp) fun hka => ?_
      simpa using hapart (Or.inr hka.symm)
    rw [render_append false as (by simp), List.append_assoc,
      findOperandFrom_render hk (fun p h => hp p (Or.inl h)) fun p h => hno p (Or.inl h)]
    simp only [render_singleton, Bool.false_eq_true, if_false,
      findOperandFrom_over hk (hp a (Or.inr rfl)) hat (by simp), hblank, Option.map_map,
      Function.comp_def, List.length_append, List.length_singleton]
    congr 1
    funext x
    omega

/-- A row with no operand of the keyword. -/
theorem findOperandFrom_row {pss : List (List Text)} (hrow : Row pss)
    (hno : ∀ p ∈ pss.flatten, carries k p = false) (hapart : Apart k pss.flatten) :
    findOperandFrom k false true (rowText pss) = none := by
  induction pss with
  | nil => rfl
  | cons ps pss ih =>
    rw [List.flatten_cons] at hno hapart
    have hps : ∀ p ∈ ps, carries k p = false := fun p hp => hno p (List.mem_append_left _ hp)
    have ih := ih hrow.2.2 (fun p hp => hno p (List.mem_append_right _ hp))
      (hapart.subset (List.subset_append_right _ _))
    by_cases hne : pss = []
    · subst hne
      have htext : rowText [ps] = render false ps := rfl
      rw [htext]
      rcases List.eq_nil_or_concat ps with rfl | ⟨as, a, rfl⟩
      · rfl
      · rw [List.concat_eq_append] at hps hrow ⊢
        have ha : free [',', ' '] false a = true := hrow.1.free a (by simp)
        have hat : keywordAt k (a ++ []) = false :=
          keywordAt_apart hk ha (hps a (by simp)) (by simp) (by simp)
        rw [List.append_nil] at hat
        rw [render_append false as (by simp),
          findOperandFrom_render hk (fun p hp => isPiece_iff.mpr ⟨hrow.1.free p (by simp [hp]),
            hrow.1.closed p hp⟩) fun p hp => hps p (by simp [hp]),
          render_singleton, if_neg (by simp), findOperandFrom_free ha fun _ _ => hat]
        rfl
    · have hclosed : ∀ p ∈ ps, isPiece false p = true :=
        fun p hp => isPiece_iff.mpr ⟨hrow.1.free p hp, hrow.2.1 hne p hp⟩
      rw [rowText_cons ps hne, findOperandFrom_word_blank hk hclosed hps fun hmem =>
        no_equals_rowText hrow.2.2 fun p hp =>
          hapart (List.mem_append_left _ hmem) p (List.mem_append_right _ hp), ih]
      rfl

/-- The first operand of the keyword in a row. -/
theorem findOperandFrom_row_some {pss qss : List (List Text)} {as bs : List Text} {c : Text}
    (hrow : Row (pss ++ (as ++ c :: bs) :: qss)) (hpss : ∀ p ∈ pss.flatten, carries k p = false)
    (has : ∀ p ∈ as, carries k p = false) (hc : carries k c = true)
    (hapart : Apart k (pss ++ (as ++ c :: bs) :: qss).flatten) :
    findOperandFrom k false true (rowText (pss ++ (as ++ c :: bs) :: qss)) =
      some (rowLead pss ++ render true as).length := by
  induction pss with
  | nil =>
    obtain ⟨t, ht⟩ := rowText_at [] qss as bs c
    have hclosed : ∀ p ∈ as, isPiece false p = true := fun p hp =>
      isPiece_iff.mpr ⟨hrow.1.free p (by simp [hp]), hrow.1.closed p hp⟩
    rw [ht, rowLead, List.flatMap_nil, List.nil_append, findOperandFrom_render hk hclosed has,
      findOperandFrom_carries hk hc]
    simp
  | cons ps pss ih =>
    rw [List.cons_append, List.flatten_cons] at hapart
    rw [List.flatten_cons] at hpss
    have hne : pss ++ (as ++ c :: bs) :: qss ≠ [] := by simp
    have hrest : Row (pss ++ (as ++ c :: bs) :: qss) := hrow.2.2
    have ih := ih hrest (fun p hp => hpss p (List.mem_append_right _ hp))
      (hapart.subset (List.subset_append_right _ _))
    have hclosed : ∀ p ∈ ps, isPiece false p = true :=
      fun p hp => isPiece_iff.mpr ⟨hrow.1.free p hp, hrow.2.1 hne p hp⟩
    rw [List.cons_append, rowText_cons ps hne, findOperandFrom_word_blank hk hclosed
      (fun p hp => hpss p (List.mem_append_left _ hp)) fun hmem =>
        no_equals_rowText hrest fun p hp =>
          hapart (List.mem_append_left _ hmem) p (List.mem_append_right _ hp), ih]
    simp only [rowLead, List.flatMap_cons, Option.map_some, List.length_append]
    congr 1
    omega

end Search

/-! ## Removing from a row -/

theorem removeOperand_row {k c : Text} {pss qss : List (List Text)} {as bs : List Text}
    (hk : IsOperandName k) (hc : carries k c = true) (hb : bare c = true) :
    removeOperand (rowText (pss ++ (as ++ c :: bs) :: qss))
        (rowLead pss ++ render true as).length =
      rowText (pss ++ (as ++ bs) :: qss) := by
  obtain ⟨t, ht, htext⟩ := rowText_split pss qss
  have hlead : (rowLead pss).getLast? ≠ some ',' := by
    rcases List.eq_nil_or_concat pss with rfl | ⟨pss, ps, rfl⟩
    · simp [rowLead]
    · simp [rowLead, List.flatMap_append]
  rw [htext, htext, removeOperand_render hk hlead hc hb false ht]

/-- The row without the operands of the keyword. -/
def stripRow (k : Text) (pss : List (List Text)) : List (List Text) :=
  pss.map fun ps => ps.filter (!carries k ·)

/-- The first operand of the keyword in a row, or none. -/
theorem exists_first (k : Text) (pss : List (List Text)) :
    (∀ p ∈ pss.flatten, carries k p = false) ∨
      ∃ pss' as c bs qss, pss = pss' ++ (as ++ c :: bs) :: qss ∧
        (∀ p ∈ pss'.flatten, carries k p = false) ∧ (∀ p ∈ as, carries k p = false) ∧
        carries k c = true := by
  induction pss with
  | nil => exact Or.inl (by simp)
  | cons ps pss ih =>
    cases hfind : ps.find? (carries k) with
    | some c =>
      obtain ⟨hc, as, bs, rfl, has⟩ := List.find?_eq_some_iff_append.mp hfind
      exact Or.inr ⟨[], as, c, bs, pss, rfl, by simp, by simpa using has, hc⟩
    | none =>
      have hps : ∀ p ∈ ps, carries k p = false := by simpa using hfind
      rcases ih with h | ⟨pss', as, c, bs, qss, rfl, hpss, has, hc⟩
      · refine Or.inl fun p hp => ?_
        rcases List.mem_append.mp (List.flatten_cons ▸ hp) with hp | hp
        · exact hps p hp
        · exact h p hp
      · refine Or.inr ⟨ps :: pss', as, c, bs, qss, rfl, fun p hp => ?_, has, hc⟩
        rcases List.mem_append.mp (List.flatten_cons ▸ hp) with hp | hp
        · exact hps p hp
        · exact hpss p hp

theorem stripOperandLoop_none {k : Text} (hk : IsOperandName k) (fuel : Nat)
    {pss : List (List Text)} (hrow : Row pss) (hno : ∀ p ∈ pss.flatten, carries k p = false)
    (hapart : Apart k pss.flatten) :
    stripOperandLoop k fuel (rowText pss) =
      (rowText (stripRow k pss), pss.flatten.countP (carries k)) := by
  have hself : stripRow k pss = pss := by
    rw [stripRow]
    conv_rhs => rw [← List.map_id pss]
    refine List.map_congr_left fun ps hps => ?_
    exact List.filter_eq_self.mpr fun p hp => by simp [hno p (List.mem_flatten.mpr ⟨ps, hps, hp⟩)]
  rw [hself, List.countP_eq_zero.mpr (by simpa using hno)]
  cases fuel with
  | zero => rfl
  | succ fuel =>
    rw [stripOperandLoop, jobcardFindOperand_eq hk, findOperandFrom_row hk hrow hno hapart]

/-- **Stripping a row.** Every word loses the pieces that carry the keyword. -/
theorem stripOperandLoop_row {k : Text} (hk : IsOperandName k) (fuel : Nat)
    {pss : List (List Text)} (hfuel : (rowText pss).length ≤ fuel) (hrow : Row pss)
    (hb : ∀ p ∈ pss.flatten, carries k p = true → bare p = true) (hapart : Apart k pss.flatten) :
    stripOperandLoop k fuel (rowText pss) =
      (rowText (stripRow k pss), pss.flatten.countP (carries k)) := by
  induction fuel generalizing pss with
  | zero =>
    rcases exists_first k pss with hno | ⟨pss, as, c, bs, qss, rfl, -, -, hc⟩
    · exact stripOperandLoop_none hk 0 hrow hno hapart
    · obtain ⟨t, ht⟩ := rowText_at pss qss as bs c
      obtain ⟨v, rfl⟩ : ∃ v, k ++ ['='] ++ v = c := List.isPrefixOf_iff_prefix.mp hc
      rw [ht] at hfuel
      simp at hfuel
  | succ fuel ih =>
    rcases exists_first k pss with hno | ⟨pss, as, c, bs, qss, rfl, hpss, has, hc⟩
    · exact stripOperandLoop_none hk _ hrow hno hapart
    · have hsub : (pss ++ (as ++ bs) :: qss).flatten ⊆ (pss ++ (as ++ c :: bs) :: qss).flatten := by
        simp only [List.flatten_append, List.flatten_cons]
        refine List.append_subset.mpr ⟨by simp, ?_⟩
        refine List.Subset.trans ?_ (List.subset_append_right _ _)
        exact (((List.Sublist.refl as).append (List.sublist_cons_self c bs)).append
          (List.Sublist.refl _)).subset
      have hcmem : c ∈ (pss ++ (as ++ c :: bs) :: qss).flatten := by simp
      have hbare : bare c = true := hb c hcmem hc
      have hfind := findOperandFrom_row_some hk hrow hpss has hc hapart
      have hlen : (removeOperand (rowText (pss ++ (as ++ c :: bs) :: qss))
          (rowLead pss ++ render true as).length).length <
            (rowText (pss ++ (as ++ c :: bs) :: qss)).length := by
        obtain ⟨t, ht⟩ := rowText_at pss qss as bs c
        apply length_removeOperand
        rw [ht, List.drop_left]
        obtain ⟨v, rfl⟩ : ∃ v, k ++ ['='] ++ v = c := List.isPrefixOf_iff_prefix.mp hc
        simp
      rw [removeOperand_row hk hc hbare] at hlen
      have hstrip : stripRow k (pss ++ (as ++ bs) :: qss) =
          stripRow k (pss ++ (as ++ c :: bs) :: qss) := by
        simp [stripRow, hc]
      have hcount : (pss ++ (as ++ c :: bs) :: qss).flatten.countP (carries k) =
          (pss ++ (as ++ bs) :: qss).flatten.countP (carries k) + 1 := by
        simp only [List.flatten_append, List.flatten_cons, List.countP_append, List.countP_cons, hc,
          if_true]
        omega
      rw [stripOperandLoop, jobcardFindOperand_eq hk, hfind]
      simp only [removeOperand_row hk hc hbare]
      rw [ih (by omega) (hrow.sublist (by simp)) (fun p hp => hb p (hsub hp))
        (hapart.subset hsub), hstrip, hcount]

/-! ## Any line -/

theorem rowText_stripRow (k line : Text) :
    rowText (stripRow k (row line)) = spread ((words line).map (without k)) := by
  simp only [rowText, stripRow, row, List.map_map]
  rfl

/-- A word without operands of the keyword stays as it is. -/
theorem without_self {k w : Text} (h : ∀ p ∈ pieces false w, carries k p = false) :
    without k w = w := by
  rw [without, List.filter_eq_self.mpr (by simpa using h), render_pieces]

/-- What stays of the word ends as the word does: an operand stays in front of a comma at its end, and
none that is omitted is left at its end. -/
structure KeepsEnd (k w : Text) : Prop where
  comma : endsInComma w = true → 2 ≤ ((pieces false w).filter (!carries k ·)).length
  omitted : ∀ p ∈ (pieces false w).getLast?, carries k p = true →
    ((pieces false w).filter (!carries k ·)).getLast? = some [] →
      ((pieces false w).filter (!carries k ·)).length = 1

theorem endsInComma_render_append (as : List Text) {a : Text} (ha : a ≠ []) :
    endsInComma (render false (as ++ [a])) = endsInComma a := by
  rw [render_append false as (by simp), render_singleton, if_neg (by simp), endsInComma,
    List.getLast?_append_of_ne_nil _ ha, endsInComma]

theorem endsInComma_render_omitted {as : List Text} (has : as ≠ []) :
    endsInComma (render false (as ++ [[]])) = true := by
  rw [render_append false as (by simp), render_singleton, if_neg (by simp), List.append_nil]
  exact endsInComma_render_true has

/-- A closed piece does not end in a comma. -/
theorem endsInComma_piece {p : Text} (hp : isPiece false p = true) : endsInComma p = false := by
  rcases List.eq_nil_or_concat p with rfl | ⟨p, c, rfl⟩
  · rfl
  · rw [List.concat_eq_append] at hp ⊢
    simpa [endsInComma] using (getLast_of_isPiece hp).1

theorem endsInComma_bare {p : Text} (hp : bare p = true) : endsInComma p = false := by
  rcases List.eq_nil_or_concat p with rfl | ⟨p, c, rfl⟩
  · rfl
  · have hc : (c != ',' && c != ' ') = true := List.all_eq_true.mp hp c (by simp)
    have hne : c ≠ ',' := by simpa using (Bool.and_eq_true_iff.mp hc).1
    simpa [endsInComma] using hne

theorem endsInComma_without {k w : Text} (hchain : Chain [',', ' '] false (pieces false w))
    (hb : ∀ p ∈ pieces false w, carries k p = true → bare p = true) (h : KeepsEnd k w) :
    endsInComma (without k w) = endsInComma w := by
  obtain ⟨hcomma, homitted⟩ := h
  have hself := render_pieces false w
  rw [without]
  rcases List.eq_nil_or_concat (pieces false w) with hps | ⟨as, a, hps⟩
  · exact absurd hps (pieces_ne_nil false w)
  · rw [List.concat_eq_append] at hps
    rw [hps] at hchain hb hcomma homitted hself ⊢
    rw [← hself] at hcomma ⊢
    rw [List.filter_append] at hcomma homitted ⊢
    cases ha : carries k a with
    | false =>
      -- the last piece stays, and ends what stays as it ends the word
      have hlast : [a].filter (!carries k ·) = [a] := by simp [ha]
      rw [hlast] at hcomma ⊢
      by_cases hnil : a = []
      · subst hnil
        by_cases has : as = []
        · subst has
          rfl
        · rw [endsInComma_render_omitted has] at hcomma ⊢
          refine endsInComma_render_omitted fun hkept => ?_
          have := hcomma rfl
          simp [hkept] at this
      · rw [endsInComma_render_append _ hnil, endsInComma_render_append _ hnil]
    | true =>
      -- the last piece goes, and one that stays is the new end
      have hlast : [a].filter (!carries k ·) = [] := by simp [ha]
      have hbare := hb a (by simp) ha
      have hne : a ≠ [] := by
        rintro rfl
        obtain ⟨v, hv⟩ : ∃ v, k ++ ['='] ++ v = [] := List.isPrefixOf_iff_prefix.mp ha
        simp at hv
      rw [hlast, List.append_nil] at homitted ⊢
      rw [endsInComma_render_append _ hne, endsInComma_bare hbare]
      rcases List.eq_nil_or_concat (as.filter (!carries k ·)) with hkept | ⟨bs, b, hkept⟩
      · rw [hkept]
        rfl
      · rw [List.concat_eq_append] at hkept
        rw [hkept] at homitted ⊢
        have hmem : b ∈ as := List.mem_of_mem_filter (hkept ▸ List.mem_append_right bs (by simp))
        by_cases hnil : b = []
        · subst hnil
          have hlen := homitted a (by simp) ha (by simp)
          obtain rfl : bs = [] := by simpa using hlen
          rfl
        · rw [endsInComma_render_append _ hnil]
          exact endsInComma_piece (isPiece_iff.mpr ⟨hchain.free b (by simp [hmem]),
            hchain.closed b hmem⟩)

/-- **Stripping a line.** Every word of the line loses the pieces that begin with the keyword and an
equals sign, and nothing else. Its other words and pieces, those in apostrophes among them, stay in
their order and as they are written. A word that keeps its end, and a line whose last word does, ends
in a comma if it did. -/
theorem jobcardStripOperand_line (line k : Text) (hk : IsOperandName k)
    (hb : ∀ p ∈ (row line).flatten, carries k p = true → bare p = true)
    (hapart : Apart k (row line).flatten) :
    jobcardStripOperand line k =
        (spread ((words line).map (without k)), (row line).flatten.countP (carries k)) ∧
      (∀ w ∈ words line, (∀ p ∈ pieces false w, carries k p = false) → without k w = w) ∧
      (∀ w ∈ words line, KeepsEnd k w → endsInComma (without k w) = endsInComma w) ∧
      ((∀ w ∈ (words line).getLast?, KeepsEnd k w) →
        endsInComma (jobcardStripOperand line k).1 = endsInComma line) := by
  have hstrip : jobcardStripOperand line k =
      (spread ((words line).map (without k)), (row line).flatten.countP (carries k)) := by
    have hloop := stripOperandLoop_row hk line.length (by rw [rowText_row]) (row_row line) hb hapart
    rwa [rowText_row, rowText_stripRow] at hloop
  have hcomma : ∀ w ∈ words line, KeepsEnd k w → endsInComma (without k w) = endsInComma w := by
    intro w hw hkeeps
    have hmem : pieces false w ∈ row line := List.mem_map_of_mem hw
    exact endsInComma_without ((row_row line).chain _ hmem)
      (fun p hp => hb p (List.mem_flatten.mpr ⟨_, hmem, hp⟩)) hkeeps
  refine ⟨hstrip, fun w _ => without_self, hcomma, fun hlast => ?_⟩
  rw [hstrip]
  conv_rhs => rw [← spread_words line]
  rcases List.eq_nil_or_concat (words line) with hws | ⟨ws, w, hws⟩
  · rw [hws]
    rfl
  · rw [List.concat_eq_append] at hws
    rw [hws, List.map_append, List.map_singleton, endsInComma_spread, endsInComma_spread,
      hcomma w (by simp [hws]) (hlast w (by simp [hws]))]

/-- A continued card with an operand to lose. -/
def userLine : Text := "//J JOB USER=B,C,".toList

theorem row_userLine : row userLine =
    ["//J".toList, "JOB".toList].map (fun w => [w]) ++ ["USER=B".toList, "C".toList, []] :: [] := by
  decide

theorem jobcardStripOperand_line_user :
    jobcardStripOperand userLine USER =
        (spread ((words userLine).map (without USER)), (row userLine).flatten.countP (carries USER)) ∧
      (∀ w ∈ words userLine, (∀ p ∈ pieces false w, carries USER p = false) → without USER w = w) ∧
      (∀ w ∈ words userLine, KeepsEnd USER w → endsInComma (without USER w) = endsInComma w) ∧
      endsInComma (jobcardStripOperand userLine USER).1 = endsInComma userLine := by
  have hwords : words userLine = ["//J".toList, "JOB".toList, "USER=B,C,".toList] := by decide
  have hbare : ∀ p ∈ (row userLine).flatten, carries USER p = true → bare p = true := by
    rw [row_userLine]
    decide
  have hapart : Apart USER (row userLine).flatten := fun hmem => by
    rw [row_userLine] at hmem
    exact absurd hmem (by decide)
  obtain ⟨hstrip, hself, hcomma, hend⟩ :=
    jobcardStripOperand_line userLine USER isKeyword_user.name hbare hapart
  refine ⟨hstrip, hself, hcomma, hend fun w hw => ?_⟩
  rw [hwords] at hw
  obtain rfl : "USER=B,C,".toList = w := by simpa using hw
  exact ⟨by decide, by decide⟩

/-! ## What a line can lose -/

/-- A line with these operands. -/
def operandLine (lead : Text) (ops : List Text) (more : Bool) (tail : Text) : Text :=
  lead ++ (render false ops ++ ((if more then [','] else []) ++ tail))

/-- By the JCL rules only the operands of the keyword go: the lead, the other operands, the comma
behind them and what stands behind the field stay, and the line ends in a comma if it did. -/
def StripsWhole (k lead : Text) (ops : List Text) (more : Bool) (tail : Text) : Prop :=
  ops.all (isOperand false 0) = true →
    (jobcardStripOperand (operandLine lead ops more tail) k).1 =
        operandLine lead (ops.filter (!carries k ·)) more tail ∧
      endsInComma (jobcardStripOperand (operandLine lead ops more tail) k).1 =
        endsInComma (operandLine lead ops more tail)

instance (k lead : Text) (ops : List Text) (more : Bool) (tail : Text) :
    Decidable (StripsWhole k lead ops more tail) :=
  inferInstanceAs (Decidable (_ → _))

/-- A value with a comma is cut in two, text in parentheses and in a comment is taken for an operand,
an equals sign may stand apart, and the comma at the end can go or come. -/
theorem jobcardStripOperand_misses :
    ¬ StripsWhole PASSWORD "//J JOB ".toList ["A".toList, "PASSWORD=(O,N)".toList] false [] ∧
      ¬ StripsWhole USER "//J JOB ".toList ["(A,USER=B)".toList] false [] ∧
      ¬ StripsWhole USER "//J JOB ".toList ["A".toList] false " USER=B".toList ∧
      ¬ StripsWhole USER "//J JOB ".toList ["A".toList, "USER".toList] false " =B".toList ∧
      ¬ StripsWhole USER "//J JOB ".toList ["USER=B".toList] true [] ∧
      ¬ StripsWhole USER "//J JOB ".toList ["A".toList, [], "USER=B".toList] false [] := by
  decide +kernel

end Mvsmf
