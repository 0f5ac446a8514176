import Mvsmf.Lib.Jcl

/-!
# Words of a card

A blank outside apostrophes ends a word, and a word is pieces between commas. Every line is words
between blanks, those of the operand field and those of a comment alike; only in the last piece of
the last one may an apostrophe be open.
-/

namespace Jcl

/-! ## Cutting at a separator -/

/-- The text cut at a separator outside apostrophes. -/
def cut (sep : Char) (q : Bool) : Text → List Text
  | [] => [[]]
  | c :: cs =>
    if c = sep && !q then [] :: cut sep q cs
    else (cut sep (if c = '\'' then !q else q) cs).modifyHead (c :: ·)

theorem pieces_eq_cut (q : Bool) (s : Text) : pieces q s = cut ',' q s := by
  induction s generalizing q with
  | nil => rfl
  | cons c cs ih => rw [pieces, cut, ih, ih]

theorem cut_ne_nil (sep : Char) (q : Bool) (s : Text) : cut sep q s ≠ [] := by
  induction s generalizing q with
  | nil => simp [cut]
  | cons c cs ih =>
    rw [cut]
    split
    · simp
    · obtain ⟨t, ts, ht⟩ := List.exists_cons_of_ne_nil (ih (if c = '\'' then !q else q))
      simp [ht]

/-- None of the separators outside apostrophes. -/
def free (seps : List Char) (q : Bool) : Text → Bool
  | [] => true
  | c :: cs =>
    if c = '\'' then free seps (!q) cs
    else (q || !seps.contains c) && free seps q cs

/-- Texts without separators; an apostrophe is left open in the last one only. -/
def Chain (seps : List Char) : Bool → List Text → Prop
  | _, [] => True
  | q, t :: ts =>
    free seps q t = true ∧ (ts ≠ [] → quoted q t = false) ∧ Chain seps false ts

theorem quoted_cons (q : Bool) (c : Char) (s : Text) :
    quoted q (c :: s) = quoted (if c = '\'' then !q else q) s := rfl

/-- A cut leaves a chain. -/
theorem chain_cut {seps : List Char} {sep : Char} {q : Bool} {s : Text} (hsep : sep ≠ '\'')
    (h : free seps q s = true) : Chain (sep :: seps) q (cut sep q s) := by
  induction s generalizing q with
  | nil => exact ⟨rfl, fun hne => absurd rfl hne, trivial⟩
  | cons c cs ih =>
    rw [cut]
    split
    next hc =>
      obtain ⟨rfl, hq⟩ : c = sep ∧ q = false := by simpa using hc
      subst hq
      simp only [free, if_neg hsep, Bool.and_eq_true] at h
      exact ⟨rfl, fun _ => rfl, ih h.2⟩
    next hc =>
      have hrest : free seps (if c = '\'' then !q else q) cs = true := by
        rw [free] at h
        split
        next hquote => rwa [if_pos hquote] at h
        next hquote =>
          rw [if_neg hquote, Bool.and_eq_true] at h
          exact h.2
      have ih := ih hrest
      obtain ⟨t, ts, ht⟩ := List.exists_cons_of_ne_nil (cut_ne_nil sep (if c = '\'' then !q else q) cs)
      rw [ht] at ih ⊢
      refine ⟨?_, ih.2.1, ih.2.2⟩
      rw [free]
      split
      next hquote =>
        rw [if_pos hquote] at ih
        exact ih.1
      next hquote =>
        rw [if_neg hquote] at ih
        rw [free, if_neg hquote, Bool.and_eq_true] at h
        rw [ih.1, Bool.and_true]
        cases q with
        | true => rfl
        | false =>
          have hne : c ≠ sep := by simpa using hc
          have hseps : c ∉ seps := by simpa using h.1
          simp [hne, hseps]

/-- What a text leaves closed its last part leaves closed, and so all of them. -/
theorem closed_cut {sep : Char} {q : Bool} {s t : Text} {ts : List Text} (hsep : sep ≠ '\'')
    (h : quoted q s = false) (ht : cut sep q s = t :: ts) :
    quoted q t = false ∧ ∀ t' ∈ ts, quoted false t' = false := by
  induction s generalizing q t ts with
  | nil =>
    obtain ⟨rfl, rfl⟩ := List.cons.inj ht
    exact ⟨h, by simp⟩
  | cons c cs ih =>
    rw [quoted_cons] at h
    rw [cut] at ht
    obtain ⟨t', ts', ht'⟩ := List.exists_cons_of_ne_nil (cut_ne_nil sep (if c = '\'' then !q else q) cs)
    have ih := ih h ht'
    split at ht
    next hc =>
      obtain ⟨rfl, hq⟩ : c = sep ∧ q = false := by simpa using hc
      subst hq
      rw [if_neg hsep] at ht' ih
      rw [ht'] at ht
      obtain ⟨rfl, rfl⟩ := List.cons.inj ht
      refine ⟨rfl, fun t hmem => ?_⟩
      rcases List.mem_cons.mp hmem with rfl | hmem
      · exact ih.1
      · exact ih.2 t hmem
    next hc =>
      rw [ht'] at ht
      obtain ⟨rfl, rfl⟩ := List.cons.inj ht
      exact ih

theorem Chain.free {seps : List Char} {ts : List Text} (h : Chain seps false ts) :
    ∀ t ∈ ts, Jcl.free seps false t = true := by
  induction ts with
  | nil => simp
  | cons t ts ih =>
    intro t' ht'
    rcases List.mem_cons.mp ht' with rfl | ht'
    · exact h.1
    · exact ih h.2.2 t' ht'

theorem Chain.closed {seps : List Char} {ts ts' : List Text} {t : Text}
    (h : Chain seps false (ts ++ t :: ts')) : ∀ u ∈ ts, quoted false u = false := by
  induction ts with
  | nil => simp
  | cons u ts ih =>
    intro u' hu'
    rcases List.mem_cons.mp hu' with rfl | hu'
    · exact h.2.1 (by simp)
    · exact ih h.2.2 u' hu'

/-- Parts may be left out of a chain. -/
theorem Chain.sublist {seps : List Char} {ts ts' : List Text} (h : Chain seps false ts)
    (hsub : ts'.Sublist ts) : Chain seps false ts' := by
  induction hsub with
  | slnil => trivial
  | cons t _ ih => exact ih h.2.2
  | cons_cons t hsub ih =>
    refine ⟨h.1, fun hne => h.2.1 ?_, ih h.2.2⟩
    rintro rfl
    exact hne (List.eq_nil_of_sublist_nil hsub)

/-! ## Words -/

/-- The words of a line. -/
def words (line : Text) : List Text := cut ' ' false line

/-- Words between blanks. -/
def spread : List Text → Text
  | [] => []
  | [w] => w
  | w :: w' :: ws => w ++ ' ' :: spread (w' :: ws)

theorem spread_cons {ws : List Text} (w : Text) (h : ws ≠ []) :
    spread (w :: ws) = w ++ ' ' :: spread ws := by
  obtain ⟨w', ws, rfl⟩ := List.exists_cons_of_ne_nil h
  rfl

theorem spread_append (ws : List Text) {vs : List Text} (h : vs ≠ []) :
    spread (ws ++ vs) = ws.flatMap (· ++ [' ']) ++ spread vs := by
  induction ws with
  | nil => rfl
  | cons w ws ih =>
    rw [List.cons_append, spread_cons w (by simp [h]), ih]
    simp

theorem spread_modifyHead {ws : List Text} (c : Char) (h : ws ≠ []) :
    spread (ws.modifyHead (c :: ·)) = c :: spread ws := by
  obtain ⟨w, ws, rfl⟩ := List.exists_cons_of_ne_nil h
  cases ws with
  | nil => rfl
  | cons w' ws => rfl

theorem spread_cut (q : Bool) (s : Text) : spread (cut ' ' q s) = s := by
  induction s generalizing q with
  | nil => rfl
  | cons c cs ih =>
    rw [cut]
    split
    next h =>
      have hc : c = ' ' := by simpa using (And.left (by simpa using h))
      rw [spread_cons [] (cut_ne_nil ' ' q cs), ih, hc]
      rfl
    next => rw [spread_modifyHead _ (cut_ne_nil _ _ _), ih]

/-- The words of a line are the line. -/
@[simp] theorem spread_words (line : Text) : spread (words line) = line := spread_cut false line

/-- A line ends in a comma if its last word does. -/
theorem endsInComma_spread (ws : List Text) (w : Text) :
    endsInComma (spread (ws ++ [w])) = endsInComma w := by
  rw [spread_append ws (by simp), spread, endsInComma, endsInComma]
  rcases List.eq_nil_or_concat w with rfl | ⟨w, c, rfl⟩
  · rcases List.eq_nil_or_concat ws with rfl | ⟨ws, v, rfl⟩
    · rfl
    · simp
  · simp

/-! ## Rows -/

/-- The pieces of the words of a line; an apostrophe is left open in the last one only. -/
def Row : List (List Text) → Prop
  | [] => True
  | ps :: pss =>
    Chain [',', ' '] false ps ∧ (pss ≠ [] → ∀ p ∈ ps, quoted false p = false) ∧ Row pss

/-- The line of a row. -/
def rowText (pss : List (List Text)) : Text := spread (pss.map (render false))

/-- The row of a line. -/
def row (line : Text) : List (List Text) := (words line).map (pieces false)

theorem rowText_row (line : Text) : rowText (row line) = line := by
  have hrender : (render false) ∘ (pieces false) = id := funext (render_pieces false)
  rw [rowText, row, List.map_map, hrender, List.map_id, spread_words]

theorem row_row (line : Text) : Row (row line) := by
  have general : ∀ ws : List Text, Chain [' '] false ws → Row (ws.map (pieces false)) := by
    intro ws
    induction ws with
    | nil => exact fun _ => trivial
    | cons w ws ih =>
      intro h
      refine ⟨?_, fun hne => ?_, ih h.2.2⟩
      · rw [pieces_eq_cut]
        exact chain_cut (by decide) h.1
      · have hclosed := h.2.1 (by simpa using hne)
        obtain ⟨p, ps, hp⟩ := List.exists_cons_of_ne_nil (pieces_ne_nil false w)
        have hcut := closed_cut (by decide) hclosed ((pieces_eq_cut false w).symm.trans hp)
        rw [hp]
        simpa using hcut
  have hfree : free [] false line = true := by
    have hall : ∀ (s : Text) (q : Bool), free [] q s = true := by
      intro s
      induction s with
      | nil => exact fun _ => rfl
      | cons c cs ih =>
        intro q
        rw [free]
        split
        · exact ih _
        · simp [ih]
    exact hall line false
  exact general _ (chain_cut (by decide) hfree)

theorem Row.chain {pss : List (List Text)} (h : Row pss) :
    ∀ ps ∈ pss, Chain [',', ' '] false ps := by
  induction pss with
  | nil => simp
  | cons ps pss ih =>
    intro ps' hps'
    rcases List.mem_cons.mp hps' with rfl | hps'
    · exact h.1
    · exact ih h.2.2 ps' hps'

/-- A word of a row may lose pieces. -/
theorem Row.sublist {pss qss : List (List Text)} {ps ps' : List Text}
    (h : Row (pss ++ ps :: qss)) (hsub : ps'.Sublist ps) : Row (pss ++ ps' :: qss) := by
  induction pss with
  | nil => exact ⟨h.1.sublist hsub, fun hne p hp => h.2.1 hne p (hsub.subset hp), h.2.2⟩
  | cons rs pss ih => exact ⟨h.1, fun _ => h.2.1 (by simp), ih h.2.2⟩

theorem rowText_append (pss : List (List Text)) {qss : List (List Text)} (h : qss ≠ []) :
    rowText (pss ++ qss) = pss.flatMap (render false · ++ [' ']) ++ rowText qss := by
  rw [rowText, List.map_append, spread_append _ (by simpa using h), List.flatMap_map]
  rfl

theorem rowText_cons (ps : List Text) {qss : List (List Text)} (h : qss ≠ []) :
    rowText (ps :: qss) = render false ps ++ ' ' :: rowText qss :=
  spread_cons _ (by simpa using h)

theorem isPiece_iff {q : Bool} {p : Text} :
    isPiece q p = true ↔ free [',', ' '] q p = true ∧ quoted q p = false := by
  induction p generalizing q with
  | nil => simp [isPiece, free, quoted]
  | cons c cs ih =>
    by_cases hc : c = '\''
    · simp [isPiece, free, quoted_cons, hc, ih]
    · simp [isPiece, free, quoted_cons, hc, ih, and_assoc]

end Jcl
