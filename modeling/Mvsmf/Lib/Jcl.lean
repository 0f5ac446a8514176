import Mvsmf.Lib.Operands

/-!
# Reading JCL

How a reader takes a stream of cards: columns 1 to 71 of a card count, a statement is a name, an
operation and an operand field, a field that ends in a comma goes on in columns 4 to 16 of the next
`//` card with comment cards passed over, and the cards behind a `DD *` or `DD DATA` are data until
their delimiter. The reader is a step function over its own state, so that a run over two streams
in a row is a run over the first and then over the second.
-/

namespace Jcl

/-- Column 72 is the continuation column; the statement ends in front of it. -/
def lastColumn : Nat := 71

def isNameChar (c : Char) : Bool :=
  c.isUpper || c.isDigit || c == '@' || c == '#' || c == '$'

/-- One to eight characters, the first one no digit. -/
def isName (s : Text) : Bool :=
  s.length ≤ 8 && s.all isNameChar && match s with
    | [] => false
    | c :: _ => !c.isDigit

structure Statement where
  name : Text
  op : Text
  text : Text
deriving DecidableEq, Repr

def Statement.operands (s : Statement) : List Text :=
  if s.text = [] then [] else split false 0 s.text

def Statement.isJob (s : Statement) : Bool :=
  s.op == "JOB".toList && isName s.name

/-! ## In-stream data -/

/-- The two characters of a `DLM=` operand. -/
def delimiter (s : Statement) : Option Text :=
  (s.operands.find? ("DLM=".toList.isPrefixOf ·)).map fun o =>
    ((o.drop 4).filter (· != '\'')).take 2

/-- The delimiter of the data behind a statement, and whether a `//` card ends it too. -/
def inStream (s : Statement) : Option (Text × Bool) :=
  if s.op = "DD".toList then
    match s.operands.head? with
    | some o =>
      if o = "*".toList then some ((delimiter s).getD "/*".toList, (delimiter s).isNone)
      else if o = "DATA".toList then some ((delimiter s).getD "/*".toList, false)
      else none
    | none => none
  else none

/-! ## The reader -/

inductive State where
  /-- Between statements. -/
  | ready
  /-- The operand field of `s` ended in a comma. -/
  | more (s : Statement)
  /-- In the data of a `DD` statement. -/
  | data (delim : Text) (slash : Bool)
deriving DecidableEq, Repr

def endsInComma (t : Text) : Bool := t.getLast? == some ','

/-- A statement whose operand field is complete. -/
def complete (s : Statement) : State × List Statement :=
  match inStream s with
  | some (delim, slash) => (.data delim slash, [s])
  | none => (.ready, [s])

def go (s : Statement) (t : Text) : State × List Statement :=
  if endsInComma t then (.more s, []) else complete s

def isComment (card : Text) : Bool := "//*".toList.isPrefixOf card

/-- A card that starts a statement. A card with no operation, and one that is no `//` card, is
passed over. -/
def start (card : Text) : State × List Statement :=
  if "//".toList.isPrefixOf card && !isComment card then
    let name := (card.drop 2).takeWhile (· != ' ')
    let rest := ((card.drop 2).dropWhile (· != ' ')).dropWhile (· == ' ')
    let op := rest.takeWhile (· != ' ')
    if op = [] then (.ready, [])
    else
      let text := field false ((rest.dropWhile (· != ' ')).dropWhile (· == ' '))
      go ⟨name, op, text⟩ text
  else (.ready, [])

/-- The operand field of a continuation card. -/
def continuation (card : Text) : Option Text :=
  if "//".toList.isPrefixOf card then
    let body := (card.drop 2).dropWhile (· == ' ')
    let column := card.length - body.length + 1
    if 4 ≤ column && column ≤ 16 && body != [] then some (field false body) else none
  else none

def step (st : State) (line : Text) : State × List Statement :=
  let card := line.take lastColumn
  match st with
  | .ready => start card
  | .more s =>
    if isComment card then (.more s, [])
    else
      match continuation card with
      | some t => go { s with text := s.text ++ t } t
      | none => ((start card).1, s :: (start card).2)
  | .data delim slash =>
    if delim.isPrefixOf card then (.ready, [])
    else if slash && "//".toList.isPrefixOf card then start card
    else (.data delim slash, [])

def read (st : State) : List Text → State × List Statement
  | [] => (st, [])
  | line :: lines =>
    let r := read (step st line).1 lines
    (r.1, (step st line).2 ++ r.2)

/-- The statement still open at the end of the stream. -/
def flush : State → List Statement
  | .more s => [s]
  | _ => []

/-- The statements of a stream. -/
def statements (lines : List Text) : List Statement :=
  (read .ready lines).2 ++ flush (read .ready lines).1

/-- The cards are whole statements: they read as `ss`, and nothing is left open. -/
def Reads (lines : List Text) (ss : List Statement) : Prop :=
  read .ready lines = (.ready, ss)

instance (lines : List Text) (ss : List Statement) : Decidable (Reads lines ss) :=
  inferInstanceAs (Decidable (_ = _))

/-! ## Runs -/

@[simp] theorem read_nil (st : State) : read st [] = (st, []) := rfl

theorem read_cons (st : State) (line : Text) (lines : List Text) :
    read st (line :: lines) =
      ((read (step st line).1 lines).1, (step st line).2 ++ (read (step st line).1 lines).2) := rfl

theorem read_append (st : State) (as bs : List Text) :
    read st (as ++ bs) =
      ((read (read st as).1 bs).1, (read st as).2 ++ (read (read st as).1 bs).2) := by
  induction as generalizing st with
  | nil => simp
  | cons a as ih => simp [read_cons, ih]

theorem Reads.append {as bs : List Text} {ss ts : List Statement} (h : Reads as ss)
    (h' : Reads bs ts) : Reads (as ++ bs) (ss ++ ts) := by
  unfold Reads at *
  simp [read_append, h, h']

/-! ## The cards of one statement -/

/-- A card of a statement: what stands in front of the operand field, the pieces of the field, and
what stands behind it. -/
structure Card where
  lead : Text
  ps : List Text
  tail : Text
deriving DecidableEq, Repr

def Card.text (c : Card) (more : Bool) : Text :=
  c.lead ++ (render more c.ps ++ c.tail)

/-- There is a field, it ends in column 71 or before, and with a comma only if `more` follows. -/
structure Card.Fits (c : Card) (more : Bool) : Prop where
  pieces : ∀ p ∈ c.ps, isPiece false p = true
  solid : render more c.ps ≠ []
  columns : (c.lead ++ render more c.ps).length ≤ lastColumn
  tail : ∀ x ∈ c.tail.head?, x = ' '
  comma : endsInComma (render more c.ps) = more

/-- The lead of a continuation card whose field starts in column 4 to 16. -/
def IsIndent (lead : Text) : Prop :=
  ∃ n, 1 ≤ n ∧ n ≤ 13 ∧ lead = "//".toList ++ List.replicate n ' '

/-- The lead of a statement: `//`, its name, blanks, its operation and blanks. -/
structure IsHead (name op lead : Text) : Prop where
  eq : ∃ m n, lead = "//".toList ++ name ++ List.replicate (m + 1) ' ' ++ op ++
    List.replicate (n + 1) ' '
  name_chars : ∀ c ∈ name, c ≠ ' '
  op_ne_nil : op ≠ []
  op_chars : ∀ c ∈ op, c ≠ ' '
  no_comment : ∀ c ∈ name.head?, c ≠ '*'

theorem Card.Fits.ps_ne_nil {c : Card} {m : Bool} (h : c.Fits m) : c.ps ≠ [] := by
  intro hnil
  apply h.solid
  simp [hnil]

/-- Of what stands behind the field columns 72 to 80 do not count. -/
theorem Card.Fits.take {c : Card} {m : Bool} (h : c.Fits m) :
    ∃ t, (c.text m).take lastColumn = c.lead ++ (render m c.ps ++ t) ∧
      ∀ x ∈ t.head?, x = ' ' := by
  refine ⟨c.tail.take (lastColumn - (c.lead ++ render m c.ps).length), ?_, ?_⟩
  · rw [Card.text, ← List.append_assoc, List.take_append, List.take_of_length_le h.columns,
      List.append_assoc]
  · intro x hx
    apply h.tail
    rw [List.head?_take] at hx
    split at hx
    · simp at hx
    · exact hx

/-- The field starts where the blanks of the lead end. -/
theorem Card.Fits.dropWhile {c : Card} {m : Bool} (h : c.Fits m) (t : Text) (n : Nat) :
    (List.replicate n ' ' ++ (render m c.ps ++ t)).dropWhile (· == ' ') = render m c.ps ++ t := by
  have hhead : ∀ x ∈ (render m c.ps).head?, x ≠ ' ' := by
    have hp := h.pieces
    have hs := h.solid
    match hps : c.ps with
    | [] => simp [hps] at hs
    | [] :: [] =>
      cases m
      · simp [hps] at hs
      · simp
    | [] :: _ :: _ => simp [render]
    | (a :: as) :: rest =>
      have ha := hp (a :: as) (by simp [hps])
      have hcons : ∃ y, render m ((a :: as) :: rest) = a :: y := by
        cases rest
        · cases m <;> simp
        · simp [render]
      obtain ⟨y, hy⟩ := hcons
      rw [hy]
      rintro x hx rfl
      obtain rfl : a = ' ' := by simpa using hx
      simp [isPiece] at ha
  rw [List.dropWhile_append_of_pos (by simp)]
  obtain ⟨x, xs, hx⟩ := List.exists_cons_of_ne_nil h.solid
  have hx' : x ≠ ' ' := hhead x (by simp [hx])
  rw [hx, List.cons_append, List.dropWhile_cons_of_neg (by simpa using hx')]

theorem takeWhile_word {w : Text} (h : ∀ c ∈ w, c ≠ ' ') (n : Nat) (t : Text) :
    (w ++ (List.replicate (n + 1) ' ' ++ t)).takeWhile (· != ' ') = w := by
  rw [List.takeWhile_append_of_pos (by simpa using h)]
  simp [List.replicate_succ]

theorem dropWhile_word {w : Text} (h : ∀ c ∈ w, c ≠ ' ') (n : Nat) (t : Text) :
    (w ++ (List.replicate (n + 1) ' ' ++ t)).dropWhile (· != ' ') =
      List.replicate (n + 1) ' ' ++ t := by
  rw [List.dropWhile_append_of_pos (by simpa using h)]
  simp [List.replicate_succ]

/-- A card with the lead of a statement starts that statement. -/
theorem start_card {name op : Text} {c : Card} {m : Bool} (hl : IsHead name op c.lead)
    (h : c.Fits m) :
    start ((c.text m).take lastColumn) = go ⟨name, op, render m c.ps⟩ (render m c.ps) := by
  obtain ⟨t, hk, ht⟩ := h.take
  obtain ⟨i, j, hlead⟩ := hl.eq
  have hskip : ∀ t, (List.replicate (i + 1) ' ' ++ (op ++ t)).dropWhile (· == ' ') = op ++ t := by
    intro t
    obtain ⟨a, as, ha⟩ := List.exists_cons_of_ne_nil hl.op_ne_nil
    have hb : a ≠ ' ' := hl.op_chars a (by simp [ha])
    rw [List.dropWhile_append_of_pos (by simp), ha, List.cons_append,
      List.dropWhile_cons_of_neg (by simpa using hb)]
  have hcard : (c.text m).take lastColumn = '/' :: '/' :: (name ++ (List.replicate (i + 1) ' ' ++
      (op ++ (List.replicate (j + 1) ' ' ++ (render m c.ps ++ t))))) := by
    rw [hk, hlead]
    simp
  have hcomment : isComment ((c.text m).take lastColumn) = false := by
    rw [hcard]
    cases hn : name with
    | nil => simp [isComment, List.replicate_succ, List.isPrefixOf]
    | cons a as =>
      have := hl.no_comment a (by simp [hn])
      simpa [isComment, List.isPrefixOf] using Ne.symm this
  have hslash : "//".toList.isPrefixOf ((c.text m).take lastColumn) = true := by
    rw [hcard]
    simp
  rw [start, hslash, hcomment, hcard]
  simp only [List.drop_succ_cons, List.drop_zero, takeWhile_word hl.name_chars,
    dropWhile_word hl.name_chars, hskip, takeWhile_word hl.op_chars, dropWhile_word hl.op_chars,
    h.dropWhile, field_render m h.pieces ht, Bool.not_false, Bool.and_true, if_true, if_neg hl.op_ne_nil]

/-- A card with the lead of a statement is no comment, and its operation stands too far to the left
for a continuation. -/
theorem head_card {name op : Text} {c : Card} {m : Bool} (hl : IsHead name op c.lead)
    (hn : name ≠ []) (h : c.Fits m) :
    "//".toList.isPrefixOf ((c.text m).take lastColumn) = true ∧
      isComment ((c.text m).take lastColumn) = false ∧
      continuation ((c.text m).take lastColumn) = none := by
  obtain ⟨t, hk, -⟩ := h.take
  obtain ⟨i, j, hlead⟩ := hl.eq
  obtain ⟨a, as, rfl⟩ := List.exists_cons_of_ne_nil hn
  have hstar : a ≠ '*' := hl.no_comment a rfl
  have hblank : a ≠ ' ' := hl.name_chars a List.mem_cons_self
  obtain ⟨rest, hcard⟩ : ∃ rest, (c.text m).take lastColumn = '/' :: '/' :: a :: rest := by
    rw [hk, hlead]
    exact ⟨_, rfl⟩
  have hskip : (a :: rest).dropWhile (· == ' ') = a :: rest :=
    List.dropWhile_cons_of_neg (by simpa using hblank)
  rw [hcard]
  refine ⟨rfl, ?_, ?_⟩
  · simpa [isComment, List.isPrefixOf] using Ne.symm hstar
  · rw [continuation, if_pos (by rfl)]
    simp only [List.drop_succ_cons, List.drop_zero, hskip, List.length_cons]
    rw [if_neg]
    simp only [Bool.and_eq_true, decide_eq_true_eq]
    omega

/-- A card with the lead of a continuation is one. -/
theorem continuation_card {c : Card} {m : Bool} (hl : IsIndent c.lead) (h : c.Fits m) :
    continuation ((c.text m).take lastColumn) = some (render m c.ps) := by
  obtain ⟨t, hk, ht⟩ := h.take
  obtain ⟨n, hn, hn', hlead⟩ := hl
  have hcard : (c.text m).take lastColumn =
      '/' :: '/' :: (List.replicate n ' ' ++ (render m c.ps ++ t)) := by
    rw [hk, hlead]
    simp
  have hne : render m c.ps ++ t ≠ [] := by simp [h.solid]
  have hcol : (2 + n + (render m c.ps ++ t).length) -
      (render m c.ps ++ t).length + 1 = n + 3 := by omega
  rw [continuation, hcard]
  simp only [List.drop_succ_cons, List.drop_zero, h.dropWhile, field_render m h.pieces ht]
  have hlen : ('/' :: '/' :: (List.replicate n ' ' ++
      (render m c.ps ++ t))).length =
      2 + n + (render m c.ps ++ t).length := by
    simp
    omega
  rw [hlen, hcol]
  simp [hne]
  omega

theorem isComment_card {c : Card} {m : Bool} (hl : IsIndent c.lead) :
    isComment ((c.text m).take lastColumn) = false := by
  obtain ⟨n, hn, -, hlead⟩ := hl
  obtain ⟨n, rfl⟩ := Nat.exists_eq_add_of_le' hn
  simp [Card.text, hlead, isComment, lastColumn, List.replicate_succ, List.isPrefixOf]

/-! ## The cards of a statement -/

/-- The cards as they stand in the stream: each one but the last is continued. -/
def layout (more : Bool) : List Card → List Text
  | [] => []
  | [c] => [c.text more]
  | c :: c' :: cs => c.text true :: layout more (c' :: cs)

/-- Every card is readable where it stands. -/
def AllFit (more : Bool) : List Card → Prop
  | [] => True
  | [c] => c.Fits more
  | c :: c' :: cs => c.Fits true ∧ AllFit more (c' :: cs)

theorem layout_concat (m : Bool) (cs : List Card) (c : Card) :
    layout m (cs ++ [c]) = cs.map (·.text true) ++ [c.text m] := by
  induction cs with
  | nil => rfl
  | cons d cs ih =>
    cases cs with
    | nil => rfl
    | cons e cs =>
      rw [List.cons_append, List.cons_append, layout, ← List.cons_append, ih]
      rfl

theorem allFit_concat {m : Bool} {cs : List Card} {c : Card} :
    AllFit m (cs ++ [c]) ↔ (∀ d ∈ cs, d.Fits true) ∧ c.Fits m := by
  induction cs with
  | nil => simp [AllFit]
  | cons d cs ih =>
    cases cs with
    | nil => simp [AllFit]
    | cons e cs =>
      rw [List.cons_append, List.cons_append, AllFit, ← List.cons_append, ih]
      simp only [List.forall_mem_cons, and_assoc]

/-- The cards of a statement: the first has the name and the operation, the others are indented. -/
structure IsStatement (name op : Text) (more : Bool) (c : Card) (cs : List Card) : Prop where
  head : IsHead name op c.lead
  indent : ∀ c' ∈ cs, IsIndent c'.lead
  fit : AllFit more (c :: cs)

/-- The field of a card in front of others is continued by theirs. -/
theorem render_cards {m : Bool} (b : Card) {c : Card} {cs : List Card} (h : AllFit m (c :: cs)) :
    render m ((b :: c :: cs).flatMap (·.ps)) =
      render true b.ps ++ render m ((c :: cs).flatMap (·.ps)) := by
  rw [List.flatMap_cons]
  apply render_append
  have : c.ps ≠ [] := by
    cases cs with
    | nil => exact Card.Fits.ps_ne_nil h
    | cons => exact h.1.ps_ne_nil
  simp [this]

theorem read_more (s : Statement) {c : Card} {cs : List Card}
    (hl : ∀ c' ∈ c :: cs, IsIndent c'.lead) (h : AllFit false (c :: cs)) :
    read (.more s) (layout false (c :: cs)) =
      complete { s with text := s.text ++ render false ((c :: cs).flatMap (·.ps)) } := by
  have hlead := hl c List.mem_cons_self
  induction cs generalizing s c with
  | nil =>
    have hf : c.Fits false := h
    simp only [layout, read_cons, step, isComment_card hlead, continuation_card hlead hf, go,
      hf.comma, List.flatMap_singleton]
    simp
  | cons c' cs ih =>
    obtain ⟨hf, hrest⟩ := h
    have hstep : step (.more s) (c.text true) =
        (.more { s with text := s.text ++ render true c.ps }, []) := by
      simp only [step, isComment_card hlead, continuation_card hlead hf, go, hf.comma]
      simp
    rw [layout, read_cons, hstep, ih _ (fun d hd => hl d (List.mem_cons_of_mem _ hd)) hrest
      (hl c' (by simp)), render_cards _ hrest]
    simp only [List.nil_append, List.append_assoc]

/-- **The cards of a statement read as that statement.** -/
theorem IsStatement.read {name op : Text} {c : Card} {cs : List Card}
    (h : IsStatement name op false c cs) :
    Jcl.read .ready (layout false (c :: cs)) =
      complete ⟨name, op, render false ((c :: cs).flatMap (·.ps))⟩ := by
  cases cs with
  | nil =>
    have hf : c.Fits false := h.fit
    simp only [layout, read_cons, step, start_card h.head hf, go, hf.comma]
    simp
  | cons c' cs =>
    obtain ⟨hf, hrest⟩ := h.fit
    have hstep : step .ready (c.text true) = (.more ⟨name, op, render true c.ps⟩, []) := by
      simp only [step, start_card h.head hf, go, hf.comma]
      simp
    rw [layout, read_cons, hstep, read_more _ h.indent hrest, render_cards _ hrest]
    simp only [List.nil_append]

/-- A `//` card starts a statement here; data goes on over it unless its delimiter is left out. -/
def State.GivesWay : State → Prop
  | .data delim slash => delim = "/*".toList ∧ slash = true
  | _ => True

/-- Behind what gives way the cards of a statement read as that statement too. -/
theorem IsStatement.read_behind {name op : Text} {c : Card} {cs : List Card}
    (h : IsStatement name op false c cs) (hn : name ≠ []) {st : State} (hst : st.GivesWay) :
    Jcl.read st (layout false (c :: cs)) =
      ((complete ⟨name, op, render false ((c :: cs).flatMap (·.ps))⟩).1,
        flush st ++ (complete ⟨name, op, render false ((c :: cs).flatMap (·.ps))⟩).2) := by
  obtain ⟨m, lines, hlayout, hfit⟩ : ∃ m lines, layout false (c :: cs) = c.text m :: lines ∧
      c.Fits m := by
    cases cs with
    | nil => exact ⟨false, [], rfl, h.fit⟩
    | cons c' cs => exact ⟨true, _, rfl, h.fit.1⟩
  obtain ⟨hslash, hcomment, hcontinuation⟩ := head_card h.head hn hfit
  have hstep : step st (c.text m) =
      ((step .ready (c.text m)).1, flush st ++ (step .ready (c.text m)).2) := by
    cases st with
    | ready => rfl
    | more s =>
      simp only [step, hcomment, hcontinuation, Bool.false_eq_true, if_false]
      rfl
    | data delim slash =>
      obtain ⟨rfl, rfl⟩ := hst
      have hno : "/*".toList.isPrefixOf ((c.text m).take lastColumn) = false := by
        obtain ⟨t, ht⟩ := List.isPrefixOf_iff_prefix.mp hslash
        rw [← ht]
        rfl
      simp only [step, hno, hslash, Bool.false_eq_true, if_false, Bool.and_self, if_true]
      rfl
  have hready := h.read
  rw [hlayout, read_cons] at hready
  rw [hlayout, read_cons, hstep, ← hready, List.append_assoc]

theorem endsInComma_render_true {ps : List Text} (h : ps ≠ []) :
    endsInComma (render true ps) = true := by
  rw [render_more true h]
  simp [endsInComma]

end Jcl
