import Mathlib

/-!
# Operand texts

An operand text is a list of operands between commas. A comma separates when it stands outside
apostrophes and parentheses, and the text ends at the first blank outside apostrophes. A text may
be broken behind any comma outside apostrophes, a parenthesised one included, so the unit below an
operand is a *piece*: what stands between two such commas.
-/

namespace Jcl

abbrev Text := List Char

/-! ## Pieces and operands -/

/-- The apostrophe state behind a text. -/
def quoted (q : Bool) (s : Text) : Bool :=
  s.foldl (fun q c => if c = '\'' then !q else q) q

/-- No comma and no blank outside apostrophes, and every apostrophe closed. -/
def isPiece (q : Bool) : Text → Bool
  | [] => !q
  | c :: cs =>
    if c = '\'' then isPiece (!q) cs
    else (q || (c != ',' && c != ' ')) && isPiece q cs

/-- The depth of parentheses behind a character. -/
def nest (d : Int) (c : Char) : Int :=
  if c = '(' then d + 1 else if c = ')' then d - 1 else d

/-- No blank outside apostrophes, no comma outside apostrophes and parentheses, and all of them
closed. -/
def isOperand (q : Bool) (d : Int) : Text → Bool
  | [] => !q && d == 0
  | c :: cs =>
    if c = '\'' then isOperand (!q) d cs
    else if q then isOperand q d cs
    else c != ' ' && !(c == ',' && d == 0) && isOperand q (nest d c) cs

/-- The pieces of a text. -/
def pieces (q : Bool) : Text → List Text
  | [] => [[]]
  | c :: cs =>
    if c = ',' && !q then [] :: pieces q cs
    else (pieces (if c = '\'' then !q else q) cs).modifyHead (c :: ·)

/-- The operands of a text. -/
def split (q : Bool) (d : Int) : Text → List Text
  | [] => [[]]
  | c :: cs =>
    if c = '\'' then (split (!q) d cs).modifyHead (c :: ·)
    else if q then (split q d cs).modifyHead (c :: ·)
    else if c == ',' && d == 0 then [] :: split q d cs
    else (split q (nest d c) cs).modifyHead (c :: ·)

/-- The text up to the first blank outside apostrophes. -/
def field (q : Bool) : Text → Text
  | [] => []
  | c :: cs =>
    if c = '\'' then c :: field (!q) cs
    else if c == ' ' && !q then []
    else c :: field q cs

/-- Pieces between commas, and a comma behind the last one when `more` follow. -/
def render (more : Bool) : List Text → Text
  | [] => []
  | [p] => if more then p ++ [','] else p
  | p :: p' :: ps => p ++ ',' :: render more (p' :: ps)

/-! ## Rendering -/

@[simp] theorem render_nil (m : Bool) : render m [] = [] := rfl

@[simp] theorem render_singleton (m : Bool) (p : Text) :
    render m [p] = if m then p ++ [','] else p := rfl

theorem render_cons {ps : List Text} (m : Bool) (p : Text) (h : ps ≠ []) :
    render m (p :: ps) = p ++ ',' :: render m ps := by
  cases ps with
  | nil => exact absurd rfl h
  | cons p' ps => rfl

@[simp] theorem render_true_cons (p : Text) (ps : List Text) :
    render true (p :: ps) = p ++ ',' :: render true ps := by
  cases ps <;> rfl

theorem render_append {bs : List Text} (m : Bool) (as : List Text) (h : bs ≠ []) :
    render m (as ++ bs) = render true as ++ render m bs := by
  induction as with
  | nil => rfl
  | cons a as ih =>
    have hne : as ++ bs ≠ [] := by simp [h]
    rw [List.cons_append, render_cons m a hne, ih, render_true_cons]
    simp

theorem render_more {ps : List Text} (m : Bool) (h : ps ≠ []) :
    render m ps = render false ps ++ if m then [','] else [] := by
  induction ps with
  | nil => exact absurd rfl h
  | cons p ps ih =>
    cases ps with
    | nil => cases m <;> simp
    | cons p' ps =>
      rw [render_cons m p (by simp), render_cons false p (by simp), ih (by simp)]
      simp

/-! ## Pieces -/

theorem pieces_ne_nil (q : Bool) (s : Text) : pieces q s ≠ [] := by
  induction s generalizing q with
  | nil => simp [pieces]
  | cons c cs ih =>
    unfold pieces
    split
    · simp
    · obtain ⟨p, ps, hp⟩ := List.exists_cons_of_ne_nil (ih (if c = '\'' then !q else q))
      simp [hp]

theorem render_modifyHead {ps : List Text} (m : Bool) (c : Char) (h : ps ≠ []) :
    render m (ps.modifyHead (c :: ·)) = c :: render m ps := by
  obtain ⟨p, ps, rfl⟩ := List.exists_cons_of_ne_nil h
  cases ps with
  | nil => cases m <;> rfl
  | cons p' ps => rfl

/-- The pieces of a text are the text. -/
theorem render_pieces (q : Bool) (s : Text) : render false (pieces q s) = s := by
  induction s generalizing q with
  | nil => rfl
  | cons c cs ih =>
    unfold pieces
    split
    next h =>
      have hc : c = ',' := by simpa using (And.left (by simpa using h))
      rw [render_cons false [] (pieces_ne_nil q cs), ih, hc]
      rfl
    next => rw [render_modifyHead _ _ (pieces_ne_nil _ _), ih]

/-- A piece is its own only piece. -/
theorem pieces_of_no_comma (q : Bool) {s : Text} (h : ',' ∉ s) : pieces q s = [s] := by
  induction s generalizing q with
  | nil => rfl
  | cons c cs ih =>
    have hc : c ≠ ',' := by rintro rfl; simp at h
    have hcs : ',' ∉ cs := fun hm => h (List.mem_cons_of_mem _ hm)
    simp [pieces, hc, ih _ hcs]

/-- The pieces of an operand: the first goes on from the state before it, the others start
outside apostrophes. -/
theorem isPiece_of_isOperand {q : Bool} {d : Int} {s : Text} (h : isOperand q d s = true) :
    ∃ p ps, pieces q s = p :: ps ∧ isPiece q p = true ∧ ∀ p' ∈ ps, isPiece false p' = true := by
  induction s generalizing q d with
  | nil =>
    refine ⟨[], [], rfl, ?_, by simp⟩
    simp only [isOperand, Bool.and_eq_true] at h
    exact h.1
  | cons c cs ih =>
    by_cases hq : c = '\''
    · subst hq
      have h' : isOperand (!q) d cs = true := by simpa [isOperand] using h
      obtain ⟨p, ps, hps, hp, hall⟩ := ih h'
      exact ⟨'\'' :: p, ps, by simp [pieces, hps], by simpa [isPiece] using hp, hall⟩
    · cases q with
      | true =>
        have h' : isOperand true d cs = true := by simpa [isOperand, hq] using h
        obtain ⟨p, ps, hps, hp, hall⟩ := ih h'
        exact ⟨c :: p, ps, by simp [pieces, hq, hps], by simp [isPiece, hq, hp], hall⟩
      | false =>
        simp only [isOperand, hq, if_false, Bool.false_eq_true, Bool.and_eq_true] at h
        obtain ⟨p, ps, hps, hp, hall⟩ := ih h.2
        by_cases hc : c = ','
        · refine ⟨[], p :: ps, by simp [pieces, hc, hps], rfl, ?_⟩
          simpa [hp] using hall
        · have hb : c ≠ ' ' := by simpa using h.1.1
          exact ⟨c :: p, ps, by simp [pieces, hc, hq, hps],
            by simp [isPiece, hq, hc, hb, hp], hall⟩

theorem isPiece_of_mem_pieces {s : Text} (h : isOperand false 0 s = true) :
    ∀ p ∈ pieces false s, isPiece false p = true := by
  obtain ⟨p, ps, hps, hp, hall⟩ := isPiece_of_isOperand h
  rw [hps]
  simpa [hp] using hall

theorem pieces_piece {q : Bool} {p : Text} (h : isPiece q p = true) :
    pieces q p = [p] ∧ ∀ t, pieces q (p ++ ',' :: t) = p :: pieces false t := by
  induction p generalizing q with
  | nil =>
    obtain rfl : q = false := by simpa [isPiece] using h
    exact ⟨rfl, fun _ => rfl⟩
  | cons c cs ih =>
    by_cases hc : c = '\''
    · simp only [isPiece, hc, if_true] at h
      obtain ⟨halone, hmore⟩ := ih h
      exact ⟨by simp [pieces, hc, halone], fun t => by simp [pieces, hc, hmore]⟩
    · simp only [isPiece, hc, if_false, Bool.and_eq_true] at h
      obtain ⟨halone, hmore⟩ := ih h.2
      have hcomma : (c = ',' && !q) = false := by
        cases q <;> simp_all
      exact ⟨by simp [pieces, hc, hcomma, halone], fun t => by simp [pieces, hc, hcomma, hmore]⟩

/-- Pieces between commas are the pieces of that text. -/
theorem pieces_render {ps : List Text} (hp : ∀ p ∈ ps, isPiece false p = true) (hne : ps ≠ []) :
    pieces false (render false ps) = ps := by
  induction ps with
  | nil => exact absurd rfl hne
  | cons p ps ih =>
    obtain ⟨hpiece, hps⟩ := List.forall_mem_cons.mp hp
    obtain ⟨halone, hmore⟩ := pieces_piece hpiece
    by_cases hnil : ps = []
    · subst hnil
      exact halone
    · rw [render_cons false p hnil, hmore, ih hps hnil]

/-- Operands and their pieces are one text. -/
theorem render_flatMap_pieces (m : Bool) (ops : List Text) :
    render m (ops.flatMap (pieces false)) = render m ops := by
  induction ops with
  | nil => rfl
  | cons o ops ih =>
    have ho := pieces_ne_nil false o
    cases ops with
    | nil =>
      rw [List.flatMap_singleton, render_more m ho, render_pieces]
      cases m <;> simp
    | cons o' ops =>
      have hne : (o' :: ops).flatMap (pieces false) ≠ [] := by
        simp [List.flatMap_cons, pieces_ne_nil]
      rw [List.flatMap_cons, render_append m _ hne, ih, render_cons m o (by simp),
        render_more true ho, render_pieces]
      simp

theorem quoted_of_isPiece {q : Bool} {p : Text} (h : isPiece q p = true) :
    quoted q p = false := by
  induction p generalizing q with
  | nil => simpa [isPiece, quoted] using h
  | cons c cs ih =>
    by_cases hc : c = '\''
    · simp only [isPiece, hc, if_true] at h
      simpa [quoted, hc] using ih h
    · simp only [isPiece, hc, if_false, Bool.and_eq_true] at h
      simpa [quoted, hc] using ih h.2

theorem quoted_append (q : Bool) (s t : Text) : quoted q (s ++ t) = quoted (quoted q s) t :=
  List.foldl_append

theorem quoted_render {ps : List Text} (hp : ∀ p ∈ ps, isPiece false p = true) :
    quoted false (render false ps) = false := by
  induction ps with
  | nil => rfl
  | cons p ps ih =>
    obtain ⟨hpiece, hps⟩ := List.forall_mem_cons.mp hp
    by_cases hnil : ps = []
    · subst hnil
      exact quoted_of_isPiece hpiece
    · rw [render_cons false p hnil, quoted_append, quoted_of_isPiece hpiece]
      exact ih hps

/-- A comma outside apostrophes is none of a piece's characters. -/
theorem not_comma_of_isPiece {q : Bool} {x y : Text}
    (h : isPiece q (x ++ ',' :: y) = true) : quoted q x = true := by
  induction x generalizing q with
  | nil =>
    cases q
    · simp [isPiece] at h
    · rfl
  | cons c cs ih =>
    by_cases hc : c = '\''
    · simp only [List.cons_append, isPiece, hc, if_true] at h
      simpa [quoted, hc] using ih h
    · simp only [List.cons_append, isPiece, hc, if_false, Bool.and_eq_true] at h
      simpa [quoted, hc] using ih h.2

/-- The last character of a piece outside apostrophes is neither a comma nor a blank. -/
theorem getLast_of_isPiece {q : Bool} {x : Text} {c : Char} (h : isPiece q (x ++ [c]) = true) :
    c ≠ ',' ∧ c ≠ ' ' := by
  induction x generalizing q with
  | nil =>
    by_cases hc : c = '\''
    · rw [hc]; decide
    · cases q <;> simp [isPiece, hc] at h
      exact h
  | cons a as ih =>
    by_cases ha : a = '\''
    · exact ih (by simpa [isPiece, ha] using h)
    · simp only [List.cons_append, isPiece, ha, if_false, Bool.and_eq_true] at h
      exact ih h.2

/-- A comma outside apostrophes in rendered pieces is one of the commas between them. -/
theorem render_comma {ps : List Text} (hps : ∀ p ∈ ps, isPiece false p = true) {x y : Text}
    (h : render false ps = x ++ ',' :: y) (hx : quoted false x = false) :
    ∃ as bs, ps = as ++ bs ∧ as ≠ [] ∧ bs ≠ [] ∧ x ++ [','] = render true as ∧
      y = render false bs := by
  induction ps generalizing x with
  | nil => simp at h
  | cons p ps ih =>
    have hp := hps p List.mem_cons_self
    have hnot : ∀ z, p ≠ x ++ ',' :: z := by
      intro z hz
      rw [hz] at hp
      simp [not_comma_of_isPiece hp] at hx
    cases ps with
    | nil => exact absurd (by simpa using h) (hnot y)
    | cons p' ps =>
      rw [render_cons false p (by simp)] at h
      rcases List.append_eq_append_iff.mp h with ⟨z, rfl, hz⟩ | ⟨z, rfl, hz⟩
      · cases z with
        | nil =>
          simp only [List.nil_append, List.cons.injEq, true_and] at hz
          exact ⟨[p], p' :: ps, rfl, by simp, by simp, by simp, hz.symm⟩
        | cons c z =>
          simp only [List.cons_append, List.cons.injEq] at hz
          obtain ⟨rfl, hz⟩ := hz
          have hq : quoted false z = false := by
            rw [quoted_append, quoted_of_isPiece hp] at hx
            simpa [quoted] using hx
          obtain ⟨as, bs, hab, ha, hb, hxa, hyb⟩ :=
            ih (fun p' hp' => hps p' (List.mem_cons_of_mem _ hp')) hz hq
          refine ⟨p :: as, bs, by simp [hab], by simp, hb, ?_, hyb⟩
          rw [render_true_cons, ← hxa]
          simp
      · cases z with
        | nil =>
          simp only [List.nil_append, List.cons.injEq, true_and] at hz
          exact ⟨[x], p' :: ps, by simp, by simp, by simp, by simp, hz⟩
        | cons c z =>
          simp only [List.cons_append, List.cons.injEq] at hz
          obtain ⟨rfl, hz⟩ := hz
          exact absurd rfl (hnot z)

/-! ## Reading a text back -/

theorem field_piece {q : Bool} {p : Text} (h : isPiece q p = true) (t : Text) :
    field q (p ++ t) = p ++ field false t := by
  induction p generalizing q with
  | nil =>
    obtain rfl : q = false := by simpa [isPiece] using h
    rfl
  | cons c cs ih =>
    by_cases hc : c = '\''
    · simp only [isPiece, hc, if_true] at h
      simp [field, hc, ih h]
    · simp only [isPiece, hc, if_false, Bool.and_eq_true] at h
      have hb : (c == ' ' && !q) = false := by
        cases q <;> simp_all
      simp only [List.cons_append, field, hc, if_false, hb, Bool.false_eq_true, ih h.2]

/-- The field of a card that holds pieces and then blanks is the pieces. -/
theorem field_render {ps : List Text} (m : Bool) (hps : ∀ p ∈ ps, isPiece false p = true)
    {t : Text} (ht : ∀ c ∈ t.head?, c = ' ') : field false (render m ps ++ t) = render m ps := by
  have hend : field false t = [] := by
    cases t with
    | nil => rfl
    | cons c t => simp [field, ht c (by simp)]
  have hcomma : ∀ s, field false (',' :: s) = ',' :: field false s := fun s => by simp [field]
  induction ps with
  | nil => simpa using hend
  | cons p ps ih =>
    have hp := hps p List.mem_cons_self
    have ih := ih fun p' hp' => hps p' (List.mem_cons_of_mem _ hp')
    cases ps with
    | nil =>
      cases m
      · simp [field_piece hp, hend]
      · simp [field_piece hp, hcomma, hend]
    | cons p' ps =>
      rw [render_cons m p (by simp), List.append_assoc, field_piece hp, List.cons_append,
        hcomma, ih]

/-- **Split behind an operand.** The operand comes off, and the rest is split as if it stood
alone. -/
theorem split_operand {q : Bool} {d : Int} {o : Text} (h : isOperand q d o = true) (t : Text) :
    split q d (o ++ ',' :: t) = o :: split false 0 t := by
  induction o generalizing q d with
  | nil =>
    simp only [isOperand, Bool.and_eq_true, Bool.not_eq_true', beq_iff_eq] at h
    obtain ⟨rfl, rfl⟩ := h
    simp [split]
  | cons c cs ih =>
    by_cases hc : c = '\''
    · simp only [isOperand, hc, if_true] at h
      simp [split, hc, ih h]
    · cases q with
      | true =>
        simp only [isOperand, hc, if_false, if_true] at h
        simp [split, hc, ih h]
      | false =>
        simp only [isOperand, hc, if_false, Bool.false_eq_true, Bool.and_eq_true,
          Bool.not_eq_true'] at h
        simp [split, hc, h.1.2, ih h.2]

theorem split_self {q : Bool} {d : Int} {o : Text} (h : isOperand q d o = true) :
    split q d o = [o] := by
  induction o generalizing q d with
  | nil => rfl
  | cons c cs ih =>
    by_cases hc : c = '\''
    · simp only [isOperand, hc, if_true] at h
      simp [split, hc, ih h]
    · cases q with
      | true =>
        simp only [isOperand, hc, if_false, if_true] at h
        simp [split, hc, ih h]
      | false =>
        simp only [isOperand, hc, if_false, Bool.false_eq_true, Bool.and_eq_true,
          Bool.not_eq_true'] at h
        simp [split, hc, h.1.2, ih h.2]

/-- Operands between commas split back into themselves. -/
theorem split_render {ops : List Text} (hops : ∀ o ∈ ops, isOperand false 0 o = true)
    (hne : ops ≠ []) : split false 0 (render false ops) = ops := by
  induction ops with
  | nil => exact absurd rfl hne
  | cons o ops ih =>
    have ho := hops o List.mem_cons_self
    cases ops with
    | nil => simpa using split_self ho
    | cons o' ops =>
      rw [render_cons false o (by simp), split_operand ho,
        ih (fun p hp => hops p (List.mem_cons_of_mem _ hp)) (by simp)]

/-! ## Levels -/

/-- Whether inside apostrophes and how deep in parentheses, behind a character. -/
def scan (st : Bool × Int) (c : Char) : Bool × Int :=
  if c = '\'' then (!st.1, st.2) else if st.1 then st else (st.1, nest st.2 c)

theorem scan_fst (st : Bool × Int) (s : Text) : (s.foldl scan st).1 = quoted st.1 s := by
  induction s generalizing st with
  | nil => rfl
  | cons c cs ih =>
    rw [List.foldl_cons, ih, quoted, quoted, List.foldl_cons]
    refine congrArg (fun q => cs.foldl _ q) ?_
    rw [scan]
    split
    · rfl
    · split <;> rfl

theorem scan_plain {s : Text} (h : ∀ c ∈ s, c ≠ '\'' ∧ c ≠ '(' ∧ c ≠ ')') (st : Bool × Int) :
    s.foldl scan st = st := by
  induction s with
  | nil => rfl
  | cons c cs ih =>
    obtain ⟨⟨hq, ho, hc⟩, hcs⟩ := List.forall_mem_cons.mp h
    have hscan : scan st c = st := by
      rw [scan, if_neg hq, nest, if_neg ho, if_neg hc, ite_self]
    rw [List.foldl_cons, hscan, ih hcs]

theorem split_ne_nil (q : Bool) (d : Int) (s : Text) : split q d s ≠ [] := by
  induction s generalizing q d with
  | nil => exact List.cons_ne_nil _ _
  | cons c cs ih =>
    have hmodify {q' : Bool} {d' : Int} : (split q' d' cs).modifyHead (c :: ·) ≠ [] := by
      cases hsplit : split q' d' cs with
      | nil => exact absurd hsplit (ih q' d')
      | cons o os => exact List.cons_ne_nil _ _
    rw [split]
    split
    · exact hmodify
    · split
      · exact hmodify
      · split
        · exact List.cons_ne_nil _ _
        · exact hmodify

/-- Operands on both sides of a comma outside apostrophes and parentheses. -/
theorem split_comma {st : Bool × Int} {x : Text} (h : x.foldl scan st = (false, 0)) (y : Text) :
    split st.1 st.2 (x ++ ',' :: y) = split st.1 st.2 x ++ split false 0 y := by
  induction x generalizing st with
  | nil =>
    obtain rfl : st = (false, 0) := h
    rfl
  | cons c cs ih =>
    have hmodify {q : Bool} {d : Int} (hscan : scan st c = (q, d)) :
        (split q d (cs ++ ',' :: y)).modifyHead (c :: ·) =
          (split q d cs).modifyHead (c :: ·) ++ split false 0 y := by
      rw [List.foldl_cons, hscan] at h
      rw [ih h]
      cases hsplit : split q d cs with
      | nil => exact absurd hsplit (split_ne_nil q d cs)
      | cons o os => rfl
    obtain ⟨q, d⟩ := st
    rw [List.cons_append, split, split]
    by_cases hquote : c = '\''
    · rw [if_pos hquote, if_pos hquote]
      exact hmodify (if_pos hquote)
    · rw [if_neg hquote, if_neg hquote]
      cases q with
      | true =>
        rw [if_pos rfl, if_pos rfl]
        exact hmodify (by rw [scan, if_neg hquote, if_pos rfl])
      | false =>
        have hscan : scan (false, d) c = (false, nest d c) := by
          rw [scan, if_neg hquote, if_neg Bool.false_ne_true]
        rw [if_neg Bool.false_ne_true, if_neg Bool.false_ne_true]
        by_cases hcomma : (c == ',' && d == 0) = true
        · rw [if_pos hcomma, if_pos hcomma]
          obtain ⟨hc, hd⟩ := Bool.and_eq_true_iff.mp hcomma
          rw [List.foldl_cons, hscan, eq_of_beq hc, eq_of_beq hd] at h
          have hstate : cs.foldl scan (false, 0) = (false, 0) := h
          have hrest := ih hstate
          rw [eq_of_beq hd, hrest]
          rfl
        · rw [if_neg hcomma, if_neg hcomma]
          exact hmodify hscan

/-- The pieces of the operands of a text are its pieces. -/
theorem pieces_split (q : Bool) (d : Int) (s : Text) :
    ∃ o os, split q d s = o :: os ∧ pieces q o ++ os.flatMap (pieces false) = pieces q s := by
  induction s generalizing q d with
  | nil => exact ⟨[], [], rfl, rfl⟩
  | cons c cs ih =>
    -- a character that separates nothing goes to the first operand and to its first piece
    have hfront {q' : Bool} {d' : Int}
        (hp : ∀ t, pieces q (c :: t) = (pieces q' t).modifyHead (c :: ·)) :
        ∃ o os, (split q' d' cs).modifyHead (c :: ·) = o :: os ∧
          pieces q o ++ os.flatMap (pieces false) = pieces q (c :: cs) := by
      obtain ⟨o, os, hsplit, hpieces⟩ := ih q' d'
      obtain ⟨p, ps, ho⟩ := List.exists_cons_of_ne_nil (pieces_ne_nil q' o)
      refine ⟨c :: o, os, by rw [hsplit]; rfl, ?_⟩
      rw [hp, hp, ← hpieces, ho]
      rfl
    rw [split]
    by_cases hquote : c = '\''
    · rw [if_pos hquote]
      exact hfront fun t => by simp [pieces, hquote]
    · rw [if_neg hquote]
      cases q with
      | true =>
        rw [if_pos rfl]
        exact hfront fun t => by simp [pieces, hquote]
      | false =>
        rw [if_neg Bool.false_ne_true]
        by_cases hc : c = ','
        · subst hc
          have hcomma (t : Text) : pieces false (',' :: t) = [] :: pieces false t := rfl
          by_cases hd : d = 0
          · subst hd
            obtain ⟨o, os, hsplit, hpieces⟩ := ih false 0
            refine ⟨[], split false 0 cs, rfl, ?_⟩
            rw [hsplit, List.flatMap_cons, hpieces]
            rfl
          · obtain ⟨o, os, hsplit, hpieces⟩ := ih false (nest d ',')
            refine ⟨',' :: o, os, by rw [if_neg (by simpa using hd), hsplit]; rfl, ?_⟩
            rw [hcomma, hcomma, ← hpieces]
            rfl
        · rw [if_neg (by simp [hc])]
          exact hfront fun t => by simp [pieces, hc, hquote]

theorem flatMap_split (s : Text) : (split false 0 s).flatMap (pieces false) = pieces false s := by
  obtain ⟨o, os, hsplit, hpieces⟩ := pieces_split false 0 s
  rw [hsplit, List.flatMap_cons, hpieces]

/-- Where a parenthesis stays open nothing is separated. -/
theorem split_open {s : Text} (h : ∀ c ∈ s, c ≠ '\'' ∧ c ≠ '(' ∧ c ≠ ')') {d : Int} (hd : d ≠ 0) :
    split false d s = [s] := by
  induction s with
  | nil => rfl
  | cons c cs ih =>
    obtain ⟨⟨hq, ho, hc⟩, hcs⟩ := List.forall_mem_cons.mp h
    have hnest : nest d c = d := by rw [nest, if_neg ho, if_neg hc]
    have hcomma : ¬ (c == ',' && d == 0) = true := by simp [hd]
    rw [split, if_neg hq, if_neg Bool.false_ne_true, if_neg hcomma, hnest, ih hcs]
    rfl

/-- What stands behind an open parenthesis belongs to the last operand in front of it. -/
theorem split_glued {st : Bool × Int} {x y : Text} {d : Int} (h : x.foldl scan st = (false, d))
    (hd : d ≠ 0) (hy : ∀ c ∈ y, c ≠ '\'' ∧ c ≠ '(' ∧ c ≠ ')') :
    ∃ os o, split st.1 st.2 x = os ++ [o] ∧ split st.1 st.2 (x ++ y) = os ++ [o ++ y] := by
  induction x generalizing st with
  | nil =>
    obtain rfl : st = (false, d) := h
    exact ⟨[], [], rfl, split_open hy hd⟩
  | cons c cs ih =>
    have hmodify {q : Bool} {d' : Int} (hscan : scan st c = (q, d')) :
        ∃ os o, (split q d' cs).modifyHead (c :: ·) = os ++ [o] ∧
          (split q d' (cs ++ y)).modifyHead (c :: ·) = os ++ [o ++ y] := by
      rw [List.foldl_cons, hscan] at h
      obtain ⟨os, o, hcs, hboth⟩ := ih h
      rw [hcs, hboth]
      cases os with
      | nil => exact ⟨[], c :: o, rfl, rfl⟩
      | cons a os => exact ⟨(c :: a) :: os, o, rfl, rfl⟩
    obtain ⟨q, d'⟩ := st
    rw [List.cons_append, split, split]
    by_cases hquote : c = '\''
    · rw [if_pos hquote, if_pos hquote]
      exact hmodify (if_pos hquote)
    · rw [if_neg hquote, if_neg hquote]
      cases q with
      | true =>
        rw [if_pos rfl, if_pos rfl]
        exact hmodify (by rw [scan, if_neg hquote, if_pos rfl])
      | false =>
        have hscan : scan (false, d') c = (false, nest d' c) := by
          rw [scan, if_neg hquote, if_neg Bool.false_ne_true]
        rw [if_neg Bool.false_ne_true, if_neg Bool.false_ne_true]
        by_cases hcomma : (c == ',' && d' == 0) = true
        · rw [if_pos hcomma, if_pos hcomma]
          obtain ⟨hc, hd'⟩ := Bool.and_eq_true_iff.mp hcomma
          rw [List.foldl_cons, hscan, eq_of_beq hc, eq_of_beq hd'] at h
          have hstate : cs.foldl scan (false, 0) = (false, d) := h
          obtain ⟨os, o, hcs, hboth⟩ := ih hstate
          rw [eq_of_beq hd', hcs, hboth]
          exact ⟨[] :: os, o, rfl, rfl⟩
        · rw [if_neg hcomma, if_neg hcomma]
          exact hmodify hscan

/-- As many parentheses are closed as are opened, those in apostrophes aside. -/
def balanced (s : Text) : Bool := (s.foldl scan (false, 0)).2 == 0

/-- A text without a blank outside apostrophes, part by part. -/
theorem field_append_self (q : Bool) (x y : Text) :
    field q (x ++ y) = x ++ y ↔ field q x = x ∧ field (quoted q x) y = y := by
  induction x generalizing q with
  | nil => exact (and_iff_right rfl).symm
  | cons c cs ih =>
    rw [List.cons_append, field, field]
    by_cases hquote : c = '\''
    · have hstate : quoted q (c :: cs) = quoted (!q) cs := by
        rw [quoted, List.foldl_cons, if_pos hquote]
        rfl
      rw [if_pos hquote, if_pos hquote, hstate]
      simp only [List.cons.injEq, true_and, ih]
    · have hstate : quoted q (c :: cs) = quoted q cs := by
        rw [quoted, List.foldl_cons, if_neg hquote]
        rfl
      rw [if_neg hquote, if_neg hquote, hstate]
      by_cases hblank : (c == ' ' && !q) = true
      · rw [if_pos hblank, if_pos hblank]
        exact iff_of_false (List.cons_ne_nil _ _).symm fun h => (List.cons_ne_nil _ _).symm h.1
      · rw [if_neg hblank, if_neg hblank]
        simp only [List.cons.injEq, true_and, ih]

example : split false 0 "(A,B),'C,D',E=F".toList = ["(A,B)".toList, "'C,D'".toList, "E=F".toList] := by
  decide

end Jcl
