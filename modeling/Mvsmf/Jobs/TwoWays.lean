import Mvsmf.Jobs.JobCardRange
import Mvsmf.Jobs.PaddedCards
import Mvsmf.Jobs.Submit

/-!
# Two ways to submit the same lines

The lines of a job come in the body of the request or from a data set. Inline they end in LF or
CRLF; in the data set they are records, with blanks behind them where the records are longer.
-/

namespace Mvsmf

open Jcl CLib Padding JobsAnswer

/-! ## The lines, both ways -/

/-- A line: whether it ends in CRLF inline, and how many blanks are behind it in the data set. -/
structure JclRow where
  line : Text
  cr : Bool
  padding : Nat

namespace JclRow

def inline (r : JclRow) : Text := r.line ++ if r.cr then ['\r'] else []

def stored (r : JclRow) : Text := (r.line ++ List.replicate r.padding ' ').take 80

/-- At most 80 characters, and none of those that end a line or a string. -/
structure IsLine (r : JclRow) : Prop where
  length : r.line.length ≤ 80
  chars : ∀ c ∈ r.line, c ≠ '\x00' ∧ c ≠ EBCDIC_NEL ∧ c ≠ '\r' ∧ c ≠ EBCDIC_LF

end JclRow

/-- The body; its last line is terminated or not. -/
def inlineJcl (rows : List JclRow) (terminated : Bool) : Text :=
  [EBCDIC_NEL].intercalate (rows.map (·.inline) ++ if terminated then [[]] else [])

/-- The data set, as `fgets` reads it. -/
def datasetJcl (rows : List JclRow) : JclDataset :=
  ⟨true, rows.map fun r => r.line ++ List.replicate r.padding ' ' ++ [EBCDIC_NEL], false⟩

/-! ## What is collected -/

variable {rows : List JclRow}

namespace JclRow

variable {r : JclRow}

theorem IsLine.contentLine (h : r.IsLine) : contentLine r.inline = r.line := by
  have hcr : r.line.getLast? ≠ some '\r' := by
    intro hlast
    exact (h.chars _ (List.mem_of_getLast? hlast)).2.2.1 rfl
  rw [Mvsmf.contentLine, inline]
  cases r.cr with
  | false => simp [hcr, List.take_of_length_le h.length]
  | true => simp [List.take_of_length_le h.length]

theorem IsLine.fileLine (h : r.IsLine) :
    fileLine (r.line ++ List.replicate r.padding ' ' ++ [EBCDIC_NEL]) = r.stored := by
  have hstring : cString (r.line ++ List.replicate r.padding ' ' ++ [EBCDIC_NEL]) =
      r.line ++ List.replicate r.padding ' ' ++ [EBCDIC_NEL] := by
    rw [cString_eq_self_iff]
    intro hm
    simp only [List.mem_append, List.mem_singleton] at hm
    rcases hm with (hm | hm) | hm
    · exact (h.chars _ hm).1 rfl
    · exact absurd (List.eq_of_mem_replicate hm) (by decide)
    · exact absurd hm (by decide)
  have hstop : (r.line ++ List.replicate r.padding ' ').rdropWhile isFileEol =
      r.line ++ List.replicate r.padding ' ' := by
    rw [List.rdropWhile_eq_self_iff]
    intro hne heol
    rcases List.mem_append.mp (List.getLast_mem hne) with hm | hm
    · obtain ⟨-, hnel, hcr, hlf⟩ := h.chars _ hm
      simp [isFileEol, hnel, hcr, hlf] at heol
    · rw [List.eq_of_mem_replicate hm] at heol
      exact absurd heol (by decide)
  rw [Mvsmf.fileLine, hstring, List.rdropWhile_concat_pos _ _ _ (by decide), hstop, stored]

theorem IsLine.stored_eq (h : r.IsLine) :
    ∃ n, r.stored = r.line ++ blanks n ∧ r.stored.length ≤ 80 := by
  refine ⟨min (80 - r.line.length) r.padding, ?_, ?_⟩
  · rw [stored, List.take_append, List.take_of_length_le h.length, List.take_replicate]
  · rw [stored, List.length_take]
    omega

end JclRow

theorem mem_intercalate {α : Type} {x c : α} {ls : List (List α)}
    (h : c ∈ [x].intercalate ls) : c = x ∨ ∃ l ∈ ls, c ∈ l := by
  induction ls with
  | nil => simp at h
  | cons l ls ih =>
    cases ls with
    | nil => exact Or.inr ⟨l, by simp, by simpa using h⟩
    | cons l' ls =>
      rw [List.intercalate_cons_cons, List.mem_append] at h
      rcases h with hm | hm
      · rcases List.mem_append.mp hm with hm | hm
        · exact Or.inr ⟨l, by simp, hm⟩
        · exact Or.inl (List.mem_singleton.mp hm)
      · rcases ih hm with hx | ⟨m, hml, hmc⟩
        · exact Or.inl hx
        · exact Or.inr ⟨m, List.mem_cons_of_mem _ hml, hmc⟩

theorem inline_chars (h : ∀ r ∈ rows, r.IsLine) {terminated : Bool} {l : Text} {c : Char}
    (hl : l ∈ rows.map (·.inline) ++ if terminated then [[]] else []) (hc : c ∈ l) :
    c ≠ '\x00' ∧ c ≠ EBCDIC_NEL := by
  rcases List.mem_append.mp hl with hl | hl
  · obtain ⟨r, hr, rfl⟩ := List.mem_map.mp hl
    rcases List.mem_append.mp hc with hc | hc
    · exact ⟨((h r hr).chars c hc).1, ((h r hr).chars c hc).2.1⟩
    · cases hcr : r.cr with
      | false => simp [hcr] at hc
      | true =>
        obtain rfl : c = '\r' := by simpa [hcr] using hc
        decide
  · cases terminated with
    | false => simp at hl
    | true =>
      obtain rfl : l = [] := by simpa using hl
      cases hc

theorem splitOn_inlineJcl (h : ∀ r ∈ rows, r.IsLine) (terminated : Bool) :
    ((inlineJcl rows terminated).splitOn EBCDIC_NEL).filter (· ≠ []) =
      (rows.map (·.inline)).filter (· ≠ []) := by
  by_cases hne : rows.map (·.inline) ++ (if terminated then [[]] else []) = []
  · rw [inlineJcl, hne, (List.append_eq_nil_iff.mp hne).1]
    rfl
  · rw [inlineJcl, List.splitOn_intercalate _ (fun l hl hm => (inline_chars h hl hm).2 rfl) hne,
      List.filter_append]
    cases terminated <;> simp

/-- The lines `submit_jcl_content` collects: an empty one only if it ends in CRLF. -/
theorem content_lines (h : ∀ r ∈ rows, r.IsLine) (terminated : Bool) :
    (tokenize (cString (inlineJcl rows terminated))).map contentLine =
      (rows.filter (·.inline ≠ [])).map (·.line) := by
  have hstring : cString (inlineJcl rows terminated) = inlineJcl rows terminated := by
    rw [cString_eq_self_iff]
    intro hm
    rcases mem_intercalate hm with hm | ⟨l, hl, hm⟩
    · exact absurd hm (by decide)
    · exact (inline_chars h hl hm).1 rfl
  rw [tokenize, hstring, splitOn_inlineJcl h, List.filter_map, List.map_map]
  apply List.map_congr_left
  intro r hr
  exact (h r (List.mem_of_mem_filter hr)).contentLine

theorem dataset_lines (h : ∀ r ∈ rows, r.IsLine) :
    (datasetJcl rows).reads.map fileLine = rows.map (·.stored) := by
  rw [datasetJcl, List.map_map]
  apply List.map_congr_left
  intro r hr
  exact (h r hr).fileLine

/-! ## The card among them -/

/-- The lines end in a JOB card that goes on. -/
def OpenCard (lines : List Text) : Prop :=
  ∃ r, findJobCardRange lines = some r ∧ r.post = [] ∧
    hasComma (r.continuations.getLastD r.head) = true

/-- No line joins the JOB card only for the blanks behind it. -/
def StaysBehind (rows : List JclRow) : Prop :=
  ∀ a row b, rows = a ++ row :: b → OpenCard (a.map (·.line)) →
    isContinuationLine row.line = false → isContinuationLine row.stored = false

theorem hasComma_pad (line : Text) (n : Nat) : hasComma (line ++ blanks n) = hasComma line := by
  rw [hasComma, hasComma, rdropWhile_pad (by rfl)]

theorem isJclLine_pad (line : Text) (n : Nat) : isJclLine (line ++ blanks n) = isJclLine line :=
  isPrefixOf_pad (List.all_iff_forall_prop.mp rfl) line n

theorem getOperation_pad {line : Text} (h : 3 ≤ line.length) (n : Nat) :
    getOperation (line ++ blanks n) = getOperation line := by
  have hlen : 3 ≤ (line ++ blanks n).length := by
    rw [List.length_append]
    omega
  have hname : ((line.drop 2 ++ blanks n).take 8).takeWhile (· != ' ') =
      ((line.drop 2).take 8).takeWhile (· != ' ') := by
    rw [List.take_append, blanks, List.take_replicate, takeWhile_to_pad (by rfl)]
  have hle : (((line.drop 2).take 8).takeWhile (· != ' ')).length ≤ (line.drop 2).length :=
    ((List.takeWhile_sublist _).trans (List.take_sublist _ _)).length_le
  rw [getOperation, getOperation, if_neg (Nat.not_lt.mpr h), if_neg (Nat.not_lt.mpr hlen)]
  simp only [List.drop_append_of_le_length (Nat.le_of_succ_le h), hname,
    List.drop_append_of_le_length hle]
  rw [dropWhile_pad (by rfl)]
  split
  next hnil => rw [hnil]
  next => rw [takeWhile_to_pad (by rfl)]

theorem isJobLine_pad (line : Text) (n : Nat) : isJobLine (line ++ blanks n) = isJobLine line := by
  by_cases hlen : 3 ≤ line.length
  · have hlen' : 3 ≤ (line ++ blanks n).length := by
      rw [List.length_append]
      omega
    rw [isJobLine, isJobLine, isJclLine_pad, getOperation_pad hlen, decide_eq_true hlen,
      decide_eq_true hlen']
  · have hshort : isJobLine line = false := by
      rw [isJobLine, decide_eq_false hlen]
      rfl
    rw [hshort, isJobLine, isJclLine_pad]
    cases hjcl : isJclLine line with
    | false => simp
    | true =>
      obtain ⟨v, rfl⟩ := List.isPrefixOf_iff_prefix.mp hjcl
      obtain rfl : v = [] := by
        apply List.eq_nil_of_length_eq_zero
        rw [List.length_append] at hlen
        have h2 : "//".toList.length = 2 := rfl
        omega
      have hop : getOperation ("//".toList ++ [] ++ blanks n) = [] := by
        rw [getOperation]
        split
        · rfl
        · cases n <;> simp [List.replicate_succ]
      rw [hop]
      simp

theorem isContinuationLine_pad {line : Text} (h : isContinuationLine line = true) (n : Nat) :
    isContinuationLine (line ++ blanks n) = true := by
  simp only [isContinuationLine, Bool.and_eq_true, decide_eq_true_eq] at h
  obtain ⟨⟨hjcl, hlen⟩, hall⟩ := h
  have hlen' : 10 ≤ (line ++ blanks n).length := by
    rw [List.length_append]
    omega
  have htake : ((line ++ blanks n).drop 2).take 8 = (line.drop 2).take 8 := by
    rw [List.drop_append_of_le_length (by omega), List.take_append_of_le_length]
    rw [List.length_drop]
    omega
  rw [isContinuationLine, isJclLine_pad, hjcl, decide_eq_true hlen', htake, hall]
  rfl

/-- What blanks make a continuation is slashes and spaces. -/
theorem spaces_of_pad {line : Text} {n : Nat} (h : isContinuationLine line = false)
    (hpad : isContinuationLine (line ++ blanks n) = true) :
    ∃ s, line = "//".toList ++ s ∧ ∀ c ∈ s, isspace c = true := by
  simp only [isContinuationLine, Bool.and_eq_true, decide_eq_true_eq] at hpad
  obtain ⟨⟨hjcl, hlen⟩, hall⟩ := hpad
  rw [isJclLine_pad] at hjcl
  obtain ⟨s, rfl⟩ := List.isPrefixOf_iff_prefix.mp hjcl
  refine ⟨s, rfl, ?_⟩
  have hshort : s.length < 8 := by
    by_contra hlong
    have hlen' : 10 ≤ ("//".toList ++ s).length := by
      rw [List.length_append]
      have h2 : "//".toList.length = 2 := rfl
      omega
    have htake : (("//".toList ++ s ++ blanks n).drop 2).take 8 = (("//".toList ++ s).drop 2).take 8 := by
      rw [List.drop_append_of_le_length (by omega), List.take_append_of_le_length]
      rw [List.length_drop]
      omega
    rw [isContinuationLine, hjcl, decide_eq_true hlen', ← htake, hall] at h
    cases h
  intro c hc
  rw [List.all_eq_true] at hall
  apply hall
  simp only [String.reduceToList, List.cons_append, List.nil_append, List.drop_succ_cons,
    List.drop_zero]
  rw [List.take_append, List.take_of_length_le (by omega)]
  exact List.mem_append_left _ hc

/-- A card that ends where the lines do ends there with others behind it that do not continue it. -/
theorem cardContinuations_append {line next : Text} {lines : List Text}
    (h : (cardContinuations line lines).2 = []) (hnext : isContinuationLine next = false)
    (more : List Text) : cardContinuations line (lines ++ next :: more) = (lines, next :: more) := by
  induction lines generalizing line with
  | nil => simp [cardContinuations, hnext]
  | cons l lines ih =>
    rw [cardContinuations] at h
    split at h
    next hl => rw [List.cons_append, cardContinuations, if_pos hl, ih h]
    next => cases h

/-! ## The card in the data set -/

theorem hasComma_spaces {s : Text} (h : ∀ c ∈ s, isspace c = true) (n : Nat) :
    hasComma ("//".toList ++ s ++ blanks n) = false := by
  rw [hasComma_pad, hasComma, rdropWhile_append h]
  decide

/-- The lines that continue a card are the same both ways, but for one that only its blanks join to
it. -/
theorem cardContinuations_rows (h : ∀ r ∈ rows, r.IsLine) {line line' : Text}
    (hcomma : hasComma line' = hasComma line) :
    ∃ c b, rows = c ++ b ∧
      cardContinuations line (rows.map (·.line)) = (c.map (·.line), b.map (·.line)) ∧
      (cardContinuations line' (rows.map (·.stored)) = (c.map (·.stored), b.map (·.stored)) ∨
        ∃ row b', b = row :: b' ∧ hasComma ((c.map (·.line)).getLastD line) = true ∧
          isContinuationLine row.line = false ∧ isContinuationLine row.stored = true ∧
          cardContinuations line' (rows.map (·.stored)) =
            ((c ++ [row]).map (·.stored), b'.map (·.stored))) := by
  induction rows generalizing line line' with
  | nil => exact ⟨[], [], rfl, rfl, Or.inl rfl⟩
  | cons row rows ih =>
    obtain ⟨n, hn, -⟩ := (h row List.mem_cons_self).stored_eq
    have hrows : ∀ r ∈ rows, r.IsLine := fun r hr => h r (List.mem_cons_of_mem _ hr)
    have hstored : hasComma row.stored = hasComma row.line := by rw [hn, hasComma_pad]
    rw [List.map_cons, List.map_cons, cardContinuations, cardContinuations, hcomma]
    cases hline : hasComma line with
    | false => exact ⟨[], row :: rows, rfl, by simp, Or.inl (by simp)⟩
    | true =>
      cases hcont : isContinuationLine row.line with
      | true =>
        have hcont' : isContinuationLine row.stored = true := by
          rw [hn]
          exact isContinuationLine_pad hcont n
        obtain ⟨c, b, hcb, hcard, hcard'⟩ := ih hrows hstored
        refine ⟨row :: c, b, by rw [hcb]; rfl, by simp [hcard], ?_⟩
        rcases hcard' with hcard' | ⟨r, b', hb, hlast, hno, hyes, hcard'⟩
        · exact Or.inl (by simp [hcont', hcard'])
        · refine Or.inr ⟨r, b', hb, ?_, hno, hyes, by simp [hcont', hcard']⟩
          rw [List.map_cons, List.getLastD_cons]
          exact hlast
      | false =>
        cases hcont' : isContinuationLine row.stored with
        | false => exact ⟨[], row :: rows, rfl, by simp, Or.inl (by simp)⟩
        | true =>
          obtain ⟨s, hs, hspaces⟩ := spaces_of_pad hcont (n := n) (by rw [← hn, hcont'])
          have hno : hasComma row.stored = false := by
            rw [hn, hs]
            exact hasComma_spaces hspaces n
          have hend : ∀ lines, cardContinuations row.stored lines = ([], lines) := by
            intro lines
            cases lines with
            | nil => rfl
            | cons l lines => simp [cardContinuations, hno]
          refine ⟨[], row :: rows, rfl, by simp, Or.inr ⟨row, rows, rfl, hline, hcont, hcont', ?_⟩⟩
          simp [hend]

/-- The range of the card in both, from the rows in front of it, its own and those behind it. -/
structure Ranges (rows a : List JclRow) (hd : JclRow) (c b : List JclRow) : Prop where
  eq : rows = a ++ hd :: (c ++ b)
  job : isJobLine hd.line = true
  inBody : findJobCardRange (rows.map (·.line)) =
    some ⟨a.map (·.line), hd.line, c.map (·.line), b.map (·.line)⟩

theorem isJobLine_stored {r : JclRow} (h : r.IsLine) : isJobLine r.stored = isJobLine r.line := by
  obtain ⟨n, hn, -⟩ := h.stored_eq
  rw [hn, isJobLine_pad]

/-- **The card in the data set** is the one in the body, but for a line that only its blanks join to
it. -/
theorem findJobCardRange_rows (h : ∀ r ∈ rows, r.IsLine) :
    (findJobCardRange (rows.map (·.line)) = none ∧
        findJobCardRange (rows.map (·.stored)) = none) ∨
      ∃ a hd c b, Ranges rows a hd c b ∧
        (findJobCardRange (rows.map (·.stored)) =
            some ⟨a.map (·.stored), hd.stored, c.map (·.stored), b.map (·.stored)⟩ ∨
          ∃ row b', b = row :: b' ∧ OpenCard ((a ++ hd :: c).map (·.line)) ∧
            isContinuationLine row.line = false ∧ isContinuationLine row.stored = true ∧
            findJobCardRange (rows.map (·.stored)) =
              some ⟨a.map (·.stored), hd.stored, (c ++ [row]).map (·.stored),
                b'.map (·.stored)⟩) := by
  induction rows with
  | nil => exact Or.inl ⟨rfl, rfl⟩
  | cons row rows ih =>
    have hrow := isJobLine_stored (h row List.mem_cons_self)
    have hrows : ∀ r ∈ rows, r.IsLine := fun r hr => h r (List.mem_cons_of_mem _ hr)
    cases hjob : isJobLine row.line with
    | true =>
      right
      obtain ⟨n, hn, -⟩ := (h row List.mem_cons_self).stored_eq
      have hcomma : hasComma row.stored = hasComma row.line := by rw [hn, hasComma_pad]
      obtain ⟨c, b, hcb, hcard, hcard'⟩ := cardContinuations_rows hrows hcomma
      refine ⟨[], row, c, b, ⟨by rw [hcb]; rfl, hjob, by simp [findJobCardRange, hjob, hcard]⟩, ?_⟩
      rcases hcard' with hcard' | ⟨r, b', hb, hlast, hno, hyes, hcard'⟩
      · exact Or.inl (by simp [findJobCardRange, hrow, hjob, hcard'])
      · refine Or.inr ⟨r, b', hb, ?_, hno, hyes, by simp [findJobCardRange, hrow, hjob, hcard']⟩
        have hself := cardContinuations_self row.line (rows.map (·.line))
        rw [hcard] at hself
        exact ⟨⟨[], row.line, c.map (·.line), []⟩, by simp [findJobCardRange, hjob, hself], rfl, hlast⟩
    | false =>
      rcases ih hrows with ⟨hnone, hnone'⟩ | ⟨a, hd, c, b, hr, hstored⟩
      · exact Or.inl ⟨by simp [findJobCardRange, hjob, hnone],
          by simp [findJobCardRange, hrow, hjob, hnone']⟩
      · right
        refine ⟨row :: a, hd, c, b,
          ⟨by rw [hr.eq]; rfl, hr.job, by simp [findJobCardRange, hjob, hr.inBody]⟩, ?_⟩
        rcases hstored with hstored | ⟨r, b', hb, ⟨open', hopen, hpost, hlast⟩, hno, hyes, hstored⟩
        · exact Or.inl (by simp [findJobCardRange, hrow, hjob, hstored])
        · refine Or.inr ⟨r, b', hb, ?_, hno, hyes, by simp [findJobCardRange, hrow, hjob, hstored]⟩
          refine ⟨{ open' with pre := row.line :: open'.pre }, ?_, hpost, hlast⟩
          rw [List.cons_append, List.map_cons, findJobCardRange, hjob, hopen]
          rfl

theorem hasComma_last (hd : JclRow) {c : List JclRow} (h : ∀ r ∈ hd :: c, r.IsLine) :
    hasComma ((c.map (·.stored)).getLastD hd.stored) =
      hasComma ((c.map (·.line)).getLastD hd.line) := by
  induction c generalizing hd with
  | nil =>
    obtain ⟨n, hn, -⟩ := (h hd (by simp)).stored_eq
    show hasComma hd.stored = hasComma hd.line
    rw [hn, hasComma_pad]
  | cons r c ih =>
    rw [List.map_cons, List.map_cons, List.getLastD_cons, List.getLastD_cons]
    exact ih r fun x hx => h x (List.mem_cons_of_mem _ hx)

/-- Where the range is the same both ways, no line joins the card for its blanks. -/
theorem Ranges.stays {a c b : List JclRow} {hd : JclRow} (hr : Ranges rows a hd c b)
    (h : ∀ r ∈ rows, r.IsLine)
    (hstored : findJobCardRange (rows.map (·.stored)) =
      some ⟨a.map (·.stored), hd.stored, c.map (·.stored), b.map (·.stored)⟩) :
    StaysBehind rows := by
  rintro a₀ row b₀ hrows ⟨r, hopen, hpost, hlast⟩ hno
  obtain ⟨heq, hpre, hhead, hcard⟩ := findJobCardRange_some hopen
  rw [hpost, List.append_nil] at heq hcard
  have hrange : findJobCardRange (rows.map (·.line)) =
      some ⟨r.pre, r.head, r.continuations, row.line :: b₀.map (·.line)⟩ := by
    rw [hrows, List.map_append, heq, List.append_assoc, List.map_cons, List.cons_append,
      findJobCardRange_eq hpre hhead, cardContinuations_append (by rw [hcard]) hno]
  rw [hr.inBody, Option.some.injEq, CardRange.mk.injEq] at hrange
  obtain ⟨hpres, hheads, hconts, hposts⟩ := hrange
  have hb : b = row :: b₀ := by
    have hlen := congrArg List.length heq
    have hall := hr.eq
    rw [← hpres, ← hconts] at hlen
    simp only [List.length_map, List.length_append, List.length_cons] at hlen
    rw [hrows, ← List.cons_append, ← List.append_assoc] at hall
    refine (List.append_inj_right hall ?_).symm
    simp only [List.length_append, List.length_cons]
    omega
  have hmem : ∀ x ∈ hd :: c, x ∈ rows := by
    intro x hx
    rw [hr.eq]
    rcases List.mem_cons.mp hx with rfl | hx
    · simp
    · simp [hx]
  rw [← hheads, ← hconts, ← hasComma_last hd fun x hx => h x (hmem x hx)] at hlast
  obtain ⟨-, -, -, hcard'⟩ := findJobCardRange_some hstored
  have hstop := (cardContinuations_split hd.stored
    (c.map (·.stored) ++ b.map (·.stored))).2
  rw [hcard', hb] at hstop
  exact hstop hlast row.stored rfl

/-! ## Up to the rewrite -/

/-- There is storage for the arrays of `n` lines. -/
def Room (env : SubmitEnv) (n : Nat) : Prop :=
  env.calloc = true ∧ ∃ capacity,
    storeLines env INITIAL_JCL_CAPACITY 0 (List.replicate n []) = some capacity ∧
      (growLinesArrays env capacity (n + 2)).isSome = true

theorem storeLines_length (env : SubmitEnv) (capacity numLines : Nat) (lines : List Text) :
    storeLines env capacity numLines lines =
      storeLines env capacity numLines (List.replicate lines.length []) := by
  induction lines generalizing capacity numLines with
  | nil => rfl
  | cons line lines ih =>
    rw [List.length_cons, List.replicate_succ, storeLines, storeLines]
    simp only [← ih]

/-- What both ways do with the lines they have read. -/
def prepareLines (env : SubmitEnv) (noCard : String) (lines : List Text) :
    Except Answer ProcessedJcl :=
  if env.calloc then
    match storeLines env INITIAL_JCL_CAPACITY 0 lines with
    | none => .error serverError
    | some capacity => processLines env noCard capacity lines
  else .error serverError

theorem prepareLines_ok_iff {env : SubmitEnv} {noCard : String} {lines : List Text}
    {p : ProcessedJcl} : prepareLines env noCard lines = .ok p ↔
      Room env lines.length ∧ ∃ user password, env.credentials = some (user, password) ∧
        processJobcard lines user password = .ok p := by
  rw [prepareLines, Room, storeLines_length]
  cases env.calloc with
  | false => simp
  | true =>
    cases hstore : storeLines env INITIAL_JCL_CAPACITY 0 (List.replicate lines.length []) with
    | none => simp
    | some capacity =>
      simp only [processLines, if_true]
      cases hgrow : growLinesArrays env capacity (lines.length + 2) with
      | none => simp [hgrow]
      | some _ =>
        cases hcred : env.credentials with
        | none => simp
        | some credentials =>
          obtain ⟨user, password⟩ := credentials
          cases hp : processJobcard lines user password with
          | error e => simp [Except.mapError, hp]
          | ok q => simp [Except.mapError, hgrow, hp]

/-! ## What is handed to the internal reader -/

/-- The records of the job. -/
def SubmitRequest.handed (env : SubmitEnv) (catalog : Text → Option JclDataset)
    (r : SubmitRequest) : List Text :=
  (r.submit env catalog).released.flatten.map (record ' ' 80)

/-- The submitted lines with the JOB card rewritten. -/
def rewrittenDeck (lines : List Text) (user password : Text) : Option (List Text) :=
  match findJobCardRange lines with
  | none => none
  | some r =>
    match rewriteCard r.head r.continuations user password with
    | .error _ => none
    | .ok card => some (r.pre ++ card.filter (· ≠ []) ++ r.post)

section Handed

variable {env : SubmitEnv} {catalog : Text → Option JclDataset} {r : SubmitRequest}

theorem handed_error {a : Answer} (h : r.prepare env catalog = .error a) :
    r.handed env catalog = [] := by
  rw [SubmitRequest.handed, SubmitRequest.submit_eq, h]
  rfl

theorem handed_ok (hputs : ∀ k, env.jesirput k = true) {p : ProcessedJcl}
    (h : r.prepare env catalog = .ok p) :
    r.handed env catalog = p.cards.map (record ' ' 80) := by
  obtain ⟨n, -, hcards, -, hend⟩ := putCards_eq env.jesirput 0 p.cards
  have hall : (putCards env.jesirput 0 p.cards).2 = true ∧ n = p.cards.length := by
    rcases hend with hend | ⟨-, -, hno⟩
    · exact hend
    · rw [hputs] at hno
      cases hno
  have hflat : (closeReader p.cards).flatten = p.cards := by
    rw [closeReader]
    split
    next hnil => rw [hnil]; rfl
    next => simp
  rw [SubmitRequest.handed, SubmitRequest.submit_eq, h, submitLines]
  simp only [hall.1, if_true, hcards, hall.2, List.take_length]
  cases env.jesircl2 with
  | none => rw [hflat]
  | some jobid => rw [hflat]

end Handed

theorem processJobcard_ok {lines : List Text} {user password : Text} {p : ProcessedJcl}
    (h : processJobcard lines user password = .ok p) :
    ∃ r card, findJobCardRange lines = some r ∧
      rewriteCard r.head r.continuations user password = .ok card ∧
      p.lines = r.pre ++ card ++ r.post := by
  rw [processJobcard] at h
  cases hr : findJobCardRange lines with
  | none => simp [hr] at h
  | some r =>
    cases hcard : rewriteCard r.head r.continuations user password with
    | error e => simp [hr, hcard] at h
    | ok card =>
      simp only [hr, hcard, Except.ok.injEq] at h
      exact ⟨r, card, rfl, hcard, by rw [← h]⟩

theorem rewrittenDeck_some {lines deck : List Text} {user password : Text}
    (h : rewrittenDeck lines user password = some deck) :
    ∃ r card, findJobCardRange lines = some r ∧
      rewriteCard r.head r.continuations user password = .ok card ∧
      deck = r.pre ++ card.filter (· ≠ []) ++ r.post := by
  rw [rewrittenDeck] at h
  cases hr : findJobCardRange lines with
  | none => simp [hr] at h
  | some r =>
    cases hcard : rewriteCard r.head r.continuations user password with
    | error e => simp [hr, hcard] at h
    | ok card =>
      simp only [hr, hcard, Option.some.injEq] at h
      exact ⟨r, card, rfl, hcard, h.symm⟩

/-! ## The lines of the card are no blank lines -/

theorem slash_of_isJclLine {line : Text} (h : isJclLine line = true) : Slash line := by
  obtain ⟨v, rfl⟩ := List.isPrefixOf_iff_prefix.mp h
  exact ⟨'/' :: v, rfl⟩

theorem slash_of_isJobLine {line : Text} (h : isJobLine line = true) : Slash line := by
  simp only [isJobLine, Bool.and_eq_true] at h
  exact slash_of_isJclLine h.1.2

theorem slash_cardContinuations (line : Text) (lines : List Text) :
    ∀ l ∈ (cardContinuations line lines).1, Slash l := by
  induction lines generalizing line with
  | nil => simp [cardContinuations]
  | cons next lines ih =>
    intro l hl
    rw [cardContinuations] at hl
    split at hl
    next hcont =>
      simp only [isContinuationLine, Bool.and_eq_true] at hcont
      rcases List.mem_cons.mp hl with rfl | hl
      · exact slash_of_isJclLine hcont.2.1.1
      · exact ih next l hl
    next => simp at hl

theorem slash_of_range {lines : List Text} {r : CardRange} (h : findJobCardRange lines = some r) :
    Slash r.head ∧ ∀ l ∈ r.continuations, Slash l := by
  obtain ⟨-, -, hhead, hcard⟩ := findJobCardRange_some h
  have hconts := slash_cardContinuations r.head (r.continuations ++ r.post)
  rw [hcard] at hconts
  exact ⟨slash_of_isJobLine hhead, hconts⟩

theorem Slash.not_blank {line : Text} (h : Slash line) : blank ' ' line = false := by
  obtain ⟨rest, rfl⟩ := h
  rfl

/-- What counts blank lines only does not see the card. -/
theorem countP_range {q : Text → Bool} (hq : ∀ l, Slash l → q l = false) {lines : List Text}
    {r : CardRange} (h : findJobCardRange lines = some r) :
    lines.countP q = r.pre.countP q + r.post.countP q := by
  obtain ⟨heq, -⟩ := findJobCardRange_some h
  obtain ⟨hhead, hconts⟩ := slash_of_range h
  have hzero : r.continuations.countP q = 0 := by
    rw [List.countP_eq_zero]
    intro l hl
    rw [hq l (hconts l hl)]
    exact Bool.false_ne_true
  conv_lhs => rw [heq]
  rw [List.countP_append, List.countP_cons, hq _ hhead, List.countP_append, hzero]
  simp

theorem rewriteCard_ok {head : Text} {lines card : List Text} {user password : Text}
    (hhead : Slash head) (hlines : ∀ l ∈ lines, Slash l)
    (hlen : ∀ l ∈ head :: lines, l.length ≤ 80)
    (h : rewriteCard head lines user password = .ok card) :
    (∀ l ∈ card, l = [] ∨ Slash l) ∧
      ∃ card' identity, card = card' ++ [identity] ∧ Slash identity ∧ '=' ∈ identity := by
  constructor
  · have hsame : ∀ ls : List Text, (∀ l ∈ ls, Slash l ∧ l.length ≤ 80) →
        List.Forall₂ CardLine ls ls := by
      intro ls hls
      rw [List.forall₂_same]
      intro l hl
      exact .refl (Or.inr (hls l hl).1) (hls l hl).2
    have halike := rewriteCard_alike (.refl (Or.inr hhead) (hlen head List.mem_cons_self)) hhead
      (hsame lines fun l hl => ⟨hlines l hl, hlen l (List.mem_cons_of_mem _ hl)⟩) hlines user password
    rw [h] at halike
    cases halike with
    | ok hcard =>
      rw [List.forall₂_same] at hcard
      intro l hl
      exact (hcard l hl).slash
  · rw [rewriteCard] at h
    split at h
    · cases h
    · split at h
      · cases h
      · split at h
        · cases h
        next hid =>
          cases h
          obtain ⟨hslash, -, heq⟩ := identityCard_ok hid
          exact ⟨_, _, rfl, hslash, heq⟩

/-! ## Both ways -/

section

variable (env : SubmitEnv) (catalog : Text → Option JclDataset) (rows : List JclRow)
  (terminated : Bool) (filename : Text)

def bodyRequest : SubmitRequest := .content (inlineJcl rows terminated)

def datasetRequest : SubmitRequest := .file filename

/-- Both ways hand over the submitted lines with the JOB card rewritten. -/
structure SubmitsAlike : Prop where
  same : (bodyRequest rows terminated).handed env catalog =
    (datasetRequest filename).handed env catalog
  exact : ∃ user password deck, env.credentials = some (user, password) ∧
    rewrittenDeck (rows.map (·.line)) user password = some deck ∧
    (bodyRequest rows terminated).handed env catalog = deck.map (record ' ' 80)

end

variable {env : SubmitEnv} {catalog : Text → Option JclDataset} {terminated : Bool}
  {filename dsname : Text}

theorem body_prepare (h : ∀ r ∈ rows, r.IsLine) :
    (bodyRequest rows terminated).prepare env catalog =
      prepareLines env "No valid JOB card found in submitted JCL"
        ((rows.filter (·.inline ≠ [])).map (·.line)) := by
  rw [bodyRequest, SubmitRequest.prepare, prepareContent, content_lines h]
  rfl

theorem dataset_prepare (h : ∀ r ∈ rows, r.IsLine) (hname : submitDsname filename = some dsname)
    (hds : catalog dsname = some (datasetJcl rows)) :
    (datasetRequest filename).prepare env catalog =
      prepareLines env "No valid JOB card found in dataset" (rows.map (·.stored)) := by
  rw [datasetRequest, SubmitRequest.prepare, prepareFile, hname]
  simp only [hds, dataset_lines h]
  rfl

/-- Without empty lines the body brings all of them. -/
theorem filter_inline (h : ∀ r ∈ rows, r.line ≠ []) : rows.filter (·.inline ≠ []) = rows := by
  rw [List.filter_eq_self]
  intro r hr
  simp [JclRow.inline, h r hr]

/-- The lines the body does not bring are empty. -/
theorem filter_lines (rows : List JclRow) :
    ((rows.filter (·.inline ≠ [])).map (·.line)).filter (· ≠ []) =
      (rows.map (·.line)).filter (· ≠ []) := by
  rw [List.filter_map, List.filter_map, List.filter_filter]
  congr 1
  apply List.filter_congr
  intro r _
  by_cases hr : r.line = []
  · simp [hr]
  · simp [hr, JclRow.inline]

/-! ## Blank lines -/

section Blank

variable {lines : List Text} (hlen : ∀ l ∈ lines, l.length ≤ 80) {user password : Text}

include hlen

theorem rewriteCard_range {r : CardRange} {card : List Text} (hr : findJobCardRange lines = some r)
    (h : rewriteCard r.head r.continuations user password = .ok card) :
    (∀ l ∈ card, l = [] ∨ Slash l) ∧
      ∃ card' identity, card = card' ++ [identity] ∧ Slash identity ∧ '=' ∈ identity := by
  obtain ⟨heq, -⟩ := findJobCardRange_some hr
  obtain ⟨hhead, hconts⟩ := slash_of_range hr
  apply rewriteCard_ok hhead hconts _ h
  intro l hl
  apply hlen
  rw [heq]
  rcases List.mem_cons.mp hl with rfl | hl
  · simp
  · simp [hl]

theorem countP_card {r : CardRange} {card : List Text} (hr : findJobCardRange lines = some r)
    (h : rewriteCard r.head r.continuations user password = .ok card) :
    (card.filter (· ≠ [])).countP (blank ' ') = 0 := by
  rw [List.countP_eq_zero]
  intro l hl
  obtain ⟨hmem, hne⟩ := List.mem_filter.mp hl
  rw [(((rewriteCard_range hlen hr h).1 l hmem).resolve_left (by simpa using hne)).not_blank]
  exact Bool.false_ne_true

/-- The blank cards of a job are those that were read. -/
theorem countP_cards {p : ProcessedJcl} (h : processJobcard lines user password = .ok p) :
    p.cards.countP (blank ' ') = (lines.filter (· ≠ [])).countP (blank ' ') := by
  obtain ⟨r, card, hr, hcard, hlines⟩ := processJobcard_ok h
  rw [ProcessedJcl.cards, hlines, List.filter_append, List.filter_append, List.countP_append,
    List.countP_append, countP_card hlen hr hcard, List.countP_filter, List.countP_filter,
    List.countP_filter, countP_range _ hr, Nat.add_zero]
  intro l hl
  simp [hl.not_blank]

theorem countP_deck {deck : List Text} (h : rewrittenDeck lines user password = some deck) :
    deck.countP (blank ' ') = lines.countP (blank ' ') := by
  obtain ⟨r, card, hr, hcard, rfl⟩ := rewrittenDeck_some h
  rw [List.countP_append, List.countP_append, countP_card hlen hr hcard,
    countP_range (fun l hl => hl.not_blank) hr, Nat.add_zero]

end Blank

theorem handed_ne_nil {r : SubmitRequest} (h : r.handed env catalog ≠ []) :
    ∃ p, r.prepare env catalog = .ok p := by
  cases hp : r.prepare env catalog with
  | error a => exact absurd (handed_error hp) h
  | ok p => exact ⟨p, rfl⟩

theorem lines_length (h : ∀ r ∈ rows, r.IsLine) : ∀ l ∈ rows.map (·.line), l.length ≤ 80 := by
  intro l hl
  obtain ⟨r, hr, rfl⟩ := List.mem_map.mp hl
  exact (h r hr).length

/-- **No empty lines.** One that is handed over is a blank record, and the body brings none. -/
theorem no_empty_of_exact (h : ∀ r ∈ rows, r.IsLine) {p : ProcessedJcl} {user password : Text}
    {deck : List Text}
    (hp : processJobcard ((rows.filter (·.inline ≠ [])).map (·.line)) user password = .ok p)
    (hdeck : rewrittenDeck (rows.map (·.line)) user password = some deck)
    (hrec : p.cards.map (record ' ' 80) = deck.map (record ' ' 80)) :
    ∀ r ∈ rows, r.line ≠ [] := by
  have hlen : ∀ l ∈ (rows.filter (·.inline ≠ [])).map (·.line), l.length ≤ 80 :=
    lines_length fun r hr => h r (List.mem_of_mem_filter hr)
  have hcount := congrArg (List.countP (blank ' ')) hrec
  rw [countP_blank_record, countP_blank_record, countP_cards hlen hp,
    countP_deck (lines_length h) hdeck, filter_lines, countP_blank_filter (rows.map (·.line))] at hcount
  have hzero : (rows.map (·.line)).countP (· = []) = 0 := by omega
  rw [List.countP_eq_zero] at hzero
  intro r hr hnil
  exact hzero r.line (List.mem_map_of_mem hr) (by simpa using hnil)

/-! ## The records of both -/

theorem record_stored {r : JclRow} (h : r.IsLine) (hne : r.line ≠ []) :
    record ' ' 80 r.stored = record ' ' 80 r.line := by
  obtain ⟨n, hn, hlen⟩ := h.stored_eq
  have hpad : Padded ' ' r.line r.stored := ⟨n, hn, fun hnil => absurd hnil hne⟩
  exact hpad.record_eq hlen

theorem map_record_stored {rs : List JclRow} (h : ∀ r ∈ rs, r.IsLine ∧ r.line ≠ []) :
    (rs.map (·.stored)).map (record ' ' 80) = (rs.map (·.line)).map (record ' ' 80) := by
  rw [List.map_map, List.map_map]
  apply List.map_congr_left
  intro r hr
  exact record_stored (h r hr).1 (h r hr).2

theorem filter_line {rs : List JclRow} (h : ∀ r ∈ rs, r.line ≠ []) :
    (rs.map (·.line)).filter (· ≠ []) = rs.map (·.line) := by
  rw [List.filter_eq_self]
  intro l hl
  obtain ⟨r, hr, rfl⟩ := List.mem_map.mp hl
  simpa using h r hr

theorem filter_stored {rs : List JclRow} (h : ∀ r ∈ rs, r.IsLine ∧ r.line ≠ []) :
    (rs.map (·.stored)).filter (· ≠ []) = rs.map (·.stored) := by
  rw [List.filter_eq_self]
  intro l hl
  obtain ⟨r, hr, rfl⟩ := List.mem_map.mp hl
  obtain ⟨n, hn, -⟩ := (h r hr).1.stored_eq
  simp [hn, (h r hr).2]

theorem cards_eq {lines : List Text} {user password : Text} {p : ProcessedJcl} {r : CardRange}
    (h : processJobcard lines user password = .ok p) (hr : findJobCardRange lines = some r) :
    ∃ card, rewriteCard r.head r.continuations user password = .ok card ∧
      p.cards = r.pre.filter (· ≠ []) ++ card.filter (· ≠ []) ++ r.post.filter (· ≠ []) := by
  obtain ⟨r', card, hr', hcard, hlines⟩ := processJobcard_ok h
  rw [hr, Option.some.injEq] at hr'
  subst hr'
  refine ⟨card, hcard, ?_⟩
  rw [ProcessedJcl.cards, hlines, List.filter_append, List.filter_append]

/-- A line that only its blanks join to the card is handed over in one of the ways only. -/
theorem records_ne_of_joined (h : ∀ r ∈ rows, r.IsLine) (hne : ∀ r ∈ rows, r.line ≠ [])
    {a c b : List JclRow} {hd row : JclRow} (hr : Ranges rows a hd c (row :: b))
    (hno : isContinuationLine row.line = false) (hyes : isContinuationLine row.stored = true)
    (hstored : findJobCardRange (rows.map (·.stored)) =
      some ⟨a.map (·.stored), hd.stored, (c ++ [row]).map (·.stored), b.map (·.stored)⟩)
    {user password : Text} {p q : ProcessedJcl}
    (hp : processJobcard (rows.map (·.line)) user password = .ok p)
    (hq : processJobcard (rows.map (·.stored)) user password = .ok q) :
    p.cards.map (record ' ' 80) ≠ q.cards.map (record ' ' 80) := by
  intro heq
  have hmem : ∀ x, x ∈ a ∨ x = row ∨ x ∈ b → x ∈ rows := by
    intro x hx
    rw [hr.eq]
    rcases hx with hx | rfl | hx
    · simp [hx]
    · simp
    · simp [hx]
  have ha : ∀ x ∈ a, x.IsLine ∧ x.line ≠ [] := fun x hx =>
    ⟨h x (hmem x (Or.inl hx)), hne x (hmem x (Or.inl hx))⟩
  have hb : ∀ x ∈ b, x.IsLine ∧ x.line ≠ [] := fun x hx =>
    ⟨h x (hmem x (Or.inr (Or.inr hx))), hne x (hmem x (Or.inr (Or.inr hx)))⟩
  have hrow : row.line ≠ [] := hne row (hmem row (Or.inr (Or.inl rfl)))
  obtain ⟨n, hn, -⟩ := (h row (hmem row (Or.inr (Or.inl rfl)))).stored_eq
  obtain ⟨card, hcard, hpcards⟩ := cards_eq hp hr.inBody
  obtain ⟨card', hcard', hqcards⟩ := cards_eq hq hstored
  have hlen : ∀ l ∈ rows.map (·.stored), l.length ≤ 80 := by
    intro l hl
    obtain ⟨x, hx, rfl⟩ := List.mem_map.mp hl
    obtain ⟨-, -, hlen⟩ := (h x hx).stored_eq
    exact hlen
  obtain ⟨-, front, identity, rfl, hslash, hequals⟩ := rewriteCard_range hlen hstored hcard'
  have hkeep : [identity].filter (· ≠ []) = [identity] := by
    rw [List.filter_cons_of_pos (by simpa using hslash.ne_nil)]
    rfl
  rw [hpcards, hqcards, List.map_cons, filter_line fun x hx => (ha x hx).2, filter_stored ha,
    filter_stored hb, List.filter_cons_of_pos (by simpa using hrow),
    filter_line fun x hx => (hb x hx).2, List.filter_append, hkeep] at heq
  simp only [List.map_append, List.map_cons, map_record_stored ha, map_record_stored hb,
    List.map_nil] at heq
  rw [← List.singleton_append, ← List.append_assoc] at heq
  have hfront := List.append_cancel_right heq
  rw [List.append_assoc] at hfront
  have hlast := List.append_inj_right' (List.append_cancel_left hfront) rfl
  have hin : '=' ∈ record ' ' 80 row.line := by
    rw [List.singleton_inj.mp hlast]
    exact List.mem_append_left _ hequals
  obtain ⟨s, hs, hspaces⟩ := spaces_of_pad hno (n := n) (by rw [← hn, hyes])
  rw [hs, record, List.mem_append, List.mem_append] at hin
  rcases hin with (hin | hin) | hin
  · exact absurd hin (by decide)
  · exact absurd (hspaces _ hin) (by decide)
  · exact absurd (List.eq_of_mem_replicate hin) (by decide)

section

variable (h : ∀ r ∈ rows, r.IsLine)

include h

theorem cardLine_stored {r : JclRow} (hr : r ∈ rows) (hs : Slash r.line) :
    CardLine r.line r.stored := by
  obtain ⟨n, hn, hlen⟩ := (h r hr).stored_eq
  exact ⟨⟨n, hn, fun hnil => absurd hnil hs.ne_nil⟩, Or.inr hs, hlen⟩

/-- Where no line joins the card for its blanks the card is rewritten to the same lines. -/
theorem rewriteCard_stored {a c b : List JclRow} {hd : JclRow} (hr : Ranges rows a hd c b)
    (user password : Text) :
    Alike (List.Forall₂ CardLine) (rewriteCard hd.line (c.map (·.line)) user password)
      (rewriteCard hd.stored (c.map (·.stored)) user password) := by
  obtain ⟨hhead, hconts⟩ := slash_of_range hr.inBody
  have hmem : ∀ x ∈ hd :: c, x ∈ rows := by
    intro x hx
    rw [hr.eq]
    rcases List.mem_cons.mp hx with rfl | hx
    · simp
    · simp [hx]
  apply rewriteCard_alike (cardLine_stored h (hmem hd List.mem_cons_self) hhead) hhead _ hconts
  rw [List.forall₂_map_left_iff, List.forall₂_map_right_iff, List.forall₂_same]
  intro x hx
  exact cardLine_stored h (hmem x (List.mem_cons_of_mem _ hx)) (hconts _ (List.mem_map_of_mem hx))

/-- Both are accepted or none is, the cards are the same records, and these the lines with the JOB
card rewritten. -/
theorem processJobcard_stored (hne : ∀ r ∈ rows, r.line ≠ []) (hstays : StaysBehind rows)
    (user password : Text) :
    Alike (fun p q : ProcessedJcl =>
        p.cards.map (record ' ' 80) = q.cards.map (record ' ' 80) ∧
          rewrittenDeck (rows.map (·.line)) user password = some p.cards)
      (processJobcard (rows.map (·.line)) user password)
      (processJobcard (rows.map (·.stored)) user password) := by
  rcases findJobCardRange_rows h with ⟨hnone, hnone'⟩ | ⟨a, hd, c, b, hr, hstored⟩
  · rw [processJobcard, processJobcard, hnone, hnone']
    exact .error _
  · rcases hstored with hstored | ⟨row, b', rfl, hopen, hno, hyes, -⟩
    · have hcard := rewriteCard_stored h hr user password
      rw [processJobcard, processJobcard, rewrittenDeck, hr.inBody, hstored]
      simp only
      generalize rewriteCard hd.line (c.map (·.line)) user password = x at hcard ⊢
      generalize rewriteCard hd.stored (c.map (·.stored)) user password = y at hcard ⊢
      cases hcard with
      | error e => exact .error e
      | @ok card card' hcard =>
        have ha : ∀ x ∈ a, x.IsLine ∧ x.line ≠ [] := by
          intro x hx
          have hx : x ∈ rows := by
            rw [hr.eq]
            simp [hx]
          exact ⟨h x hx, hne x hx⟩
        have hb : ∀ x ∈ b, x.IsLine ∧ x.line ≠ [] := by
          intro x hx
          have hx : x ∈ rows := by
            rw [hr.eq]
            simp [hx]
          exact ⟨h x hx, hne x hx⟩
        have hrecords : (card.filter (· ≠ [])).map (record ' ' 80) =
            (card'.filter (· ≠ [])).map (record ' ' 80) :=
          (map_record_eq (fun _ _ hl => ⟨hl.padded, hl.length⟩)
            (forall₂_filter (fun _ _ hl => hl.padded) hcard)).symm
        refine .ok ⟨?_, ?_⟩
        · simp only [ProcessedJcl.cards, List.filter_append, List.map_append, hrecords,
            filter_line fun x hx => (ha x hx).2, filter_line fun x hx => (hb x hx).2,
            filter_stored ha, filter_stored hb, map_record_stored ha, map_record_stored hb]
        · simp only [ProcessedJcl.cards, List.filter_append, filter_line fun x hx => (ha x hx).2,
            filter_line fun x hx => (hb x hx).2]
    · have heq : rows = (a ++ hd :: c) ++ row :: b' := by
        rw [hr.eq]
        simp
      rw [hstays _ _ _ heq hopen hno] at hyes
      cases hyes

end

/-! ## When both ways are alike -/

theorem Alike.ok_left {ε α : Type} {R : α → α → Prop} {x y : Except ε α} {a : α}
    (h : Alike R x y) (hx : x = .ok a) : ∃ b, y = .ok b ∧ R a b := by
  subst hx
  cases h with
  | ok h => exact ⟨_, rfl, h⟩

theorem Alike.ok_right {ε α : Type} {R : α → α → Prop} {x y : Except ε α} {b : α}
    (h : Alike R x y) (hy : y = .ok b) : ∃ a, x = .ok a ∧ R a b := by
  subst hy
  cases h with
  | ok h => exact ⟨_, rfl, h⟩

theorem cards_ne_nil {lines : List Text} (hlen : ∀ l ∈ lines, l.length ≤ 80) {user password : Text}
    {p : ProcessedJcl} (h : processJobcard lines user password = .ok p) : p.cards ≠ [] := by
  obtain ⟨r, card, hr, hcard, hlines⟩ := processJobcard_ok h
  obtain ⟨-, front, identity, rfl, hslash, -⟩ := rewriteCard_range hlen hr hcard
  have hmem : identity ∈ p.cards := by
    rw [ProcessedJcl.cards, hlines]
    simp [hslash.ne_nil]
  exact List.ne_nil_of_mem hmem

theorem stored_length (h : ∀ r ∈ rows, r.IsLine) : ∀ l ∈ rows.map (·.stored), l.length ≤ 80 := by
  intro l hl
  obtain ⟨r, hr, rfl⟩ := List.mem_map.mp hl
  obtain ⟨-, -, hlen⟩ := (h r hr).stored_eq
  exact hlen

section

variable (h : ∀ r ∈ rows, r.IsLine) (hname : submitDsname filename = some dsname)
  (hds : catalog dsname = some (datasetJcl rows))

include h

theorem body_ok_iff {p : ProcessedJcl} :
    (bodyRequest rows terminated).prepare env catalog = .ok p ↔
      Room env ((rows.filter (·.inline ≠ [])).map (·.line)).length ∧
        ∃ user password, env.credentials = some (user, password) ∧
          processJobcard ((rows.filter (·.inline ≠ [])).map (·.line)) user password = .ok p := by
  rw [body_prepare h]
  exact prepareLines_ok_iff

include hname hds

theorem dataset_ok_iff {q : ProcessedJcl} :
    (datasetRequest filename).prepare env catalog = .ok q ↔
      Room env (rows.map (·.stored)).length ∧
        ∃ user password, env.credentials = some (user, password) ∧
          processJobcard (rows.map (·.stored)) user password = .ok q := by
  rw [dataset_prepare h hname hds]
  exact prepareLines_ok_iff

/-- **The two ways to submit.** A job that is accepted one way is handed over the same both ways, as
the submitted lines with the JOB card rewritten, exactly if none of the lines is empty and none joins
the JOB card only for its blanks. -/
theorem submitsAlike_iff (hputs : ∀ k, env.jesirput k = true)
    (haccepted : (∃ p, (bodyRequest rows terminated).prepare env catalog = .ok p) ∨
      ∃ q, (datasetRequest filename).prepare env catalog = .ok q) :
    SubmitsAlike env catalog rows terminated filename ↔
      (∀ r ∈ rows, r.line ≠ []) ∧ StaysBehind rows := by
  have hbody : ∀ l ∈ (rows.filter (·.inline ≠ [])).map (·.line), l.length ≤ 80 :=
    lines_length fun r hr => h r (List.mem_of_mem_filter hr)
  constructor
  · rintro ⟨hsame, user, password, deck, hcred, hdeck, hexact⟩
    have hboth : (bodyRequest rows terminated).handed env catalog ≠ [] := by
      rcases haccepted with ⟨p, hp⟩ | ⟨q, hq⟩
      · obtain ⟨-, u, w, -, hproc⟩ := (body_ok_iff h).mp hp
        rw [handed_ok hputs hp]
        simpa using cards_ne_nil hbody hproc
      · obtain ⟨-, u, w, -, hproc⟩ := (dataset_ok_iff h hname hds).mp hq
        rw [hsame, handed_ok hputs hq]
        simpa using cards_ne_nil (stored_length h) hproc
    obtain ⟨p, hp⟩ := handed_ne_nil hboth
    obtain ⟨q, hq⟩ := handed_ne_nil (hsame ▸ hboth)
    rw [handed_ok hputs hp] at hsame hexact
    rw [handed_ok hputs hq] at hsame
    obtain ⟨-, u, w, hc, hproc⟩ := (body_ok_iff h).mp hp
    obtain ⟨-, u', w', hc', hproc'⟩ := (dataset_ok_iff h hname hds).mp hq
    obtain ⟨rfl, rfl⟩ : user = u ∧ password = w := by simpa [hcred] using hc
    obtain ⟨rfl, rfl⟩ : user = u' ∧ password = w' := by simpa [hcred] using hc'
    have hne := no_empty_of_exact h hproc hdeck hexact
    refine ⟨hne, ?_⟩
    rw [filter_inline hne] at hproc
    rcases findJobCardRange_rows h with ⟨hnone, -⟩ | ⟨a, hd, c, b, hr, hstored⟩
    · obtain ⟨r, -, hr, -⟩ := processJobcard_ok hproc
      rw [hnone] at hr
      cases hr
    · rcases hstored with hstored | ⟨row, b', rfl, -, hno, hyes, hstored⟩
      · exact hr.stays h hstored
      · exact absurd hsame (records_ne_of_joined h hne hr hno hyes hstored hproc hproc')
  · rintro ⟨hne, hstays⟩
    have halike := processJobcard_stored h hne hstays
    have hlen : ((rows.filter (·.inline ≠ [])).map (·.line)).length =
        (rows.map (·.stored)).length := by
      rw [filter_inline hne, List.length_map, List.length_map]
    obtain ⟨user, password, p, q, hroom, hcred, hp, hq, hrecords, hdeck⟩ :
        ∃ user password p q, Room env (rows.map (·.stored)).length ∧
          env.credentials = some (user, password) ∧
          processJobcard (rows.map (·.line)) user password = .ok p ∧
          processJobcard (rows.map (·.stored)) user password = .ok q ∧
          p.cards.map (record ' ' 80) = q.cards.map (record ' ' 80) ∧
          rewrittenDeck (rows.map (·.line)) user password = some p.cards := by
      rcases haccepted with ⟨p, hp⟩ | ⟨q, hq⟩
      · obtain ⟨hroom, user, password, hcred, hproc⟩ := (body_ok_iff h).mp hp
        rw [filter_inline hne] at hproc
        obtain ⟨q, hq, hrecords, hdeck⟩ := (halike user password).ok_left hproc
        exact ⟨user, password, p, q, hlen ▸ hroom, hcred, hproc, hq, hrecords, hdeck⟩
      · obtain ⟨hroom, user, password, hcred, hproc⟩ := (dataset_ok_iff h hname hds).mp hq
        obtain ⟨p, hp, hrecords, hdeck⟩ := (halike user password).ok_right hproc
        exact ⟨user, password, p, q, hroom, hcred, hp, hproc, hrecords, hdeck⟩
    have hbodyOk : (bodyRequest rows terminated).prepare env catalog = .ok p := by
      rw [body_ok_iff h, hlen, filter_inline hne]
      exact ⟨hroom, user, password, hcred, hp⟩
    have hdatasetOk : (datasetRequest filename).prepare env catalog = .ok q :=
      (dataset_ok_iff h hname hds).mpr ⟨hroom, user, password, hcred, hq⟩
    refine ⟨?_, user, password, p.cards, hcred, hdeck, handed_ok hputs hbodyOk⟩
    rw [handed_ok hputs hbodyOk, handed_ok hputs hdatasetOk, hrecords]

end

/-- A job of two cards, the first of them no card that goes on. -/
theorem submitsAlike_iff_twoCards :
    SubmitsAlike ⟨true, fun _ => true, some ("U".toList, "P".toList), fun _ => true, none⟩
      (fun _ => some (datasetJcl
        [⟨"//J JOB 1".toList, true, 71⟩, ⟨"//S EXEC PGM=X".toList, false, 66⟩]))
      [⟨"//J JOB 1".toList, true, 71⟩, ⟨"//S EXEC PGM=X".toList, false, 66⟩] true
      "//'A.B'".toList := by
  have hname : submitDsname "//'A.B'".toList = some "A.B".toList := by decide +kernel
  refine (submitsAlike_iff ?_ hname rfl (fun _ => rfl) ?_).mpr ⟨?_, ?_⟩
  · intro r hr
    rcases List.mem_pair.mp hr with rfl | rfl
    · exact ⟨by decide, List.all_iff_forall_prop.mp rfl⟩
    · exact ⟨by decide, List.all_iff_forall_prop.mp rfl⟩
  · exact Or.inl ⟨⟨["//J JOB 1,".toList,
      "//         NOTIFY=$MVSMF,USER=U,PASSWORD=P   GENERATED BY MVSMF".toList,
      "//S EXEC PGM=X".toList], "J".toList, none⟩, by decide +kernel⟩
  · decide
  · rintro a row b hrows ⟨r, hr, -, hlast⟩ -
    rcases a with _ | ⟨x, _ | ⟨y, a⟩⟩
    · cases hr
    · obtain ⟨rfl, -⟩ := List.cons.inj hrows
      have hrange : findJobCardRange ["//J JOB 1".toList] = some ⟨[], "//J JOB 1".toList, [], []⟩ := by
        decide +kernel
      obtain rfl := Option.some.inj (hrange.symm.trans hr)
      exact absurd hlast (by decide +kernel)
    · have hlen := congrArg List.length hrows
      simp at hlen

/-- An empty line of in-stream data. -/
theorem submitsAlike_emptyLine :
    ¬ ∀ env catalog rows terminated filename dsname, (∀ r ∈ rows, JclRow.IsLine r) →
      submitDsname filename = some dsname → catalog dsname = some (datasetJcl rows) →
      (∀ k, env.jesirput k = true) →
      ((∃ p, (bodyRequest rows terminated).prepare env catalog = .ok p) ∨
        ∃ q, (datasetRequest filename).prepare env catalog = .ok q) →
      SubmitsAlike env catalog rows terminated filename := by
  intro h
  let env : SubmitEnv := ⟨true, fun _ => true, some ("U".toList, "P".toList), fun _ => true, none⟩
  let rows : List JclRow := [⟨"//J JOB 1".toList, false, 71⟩, ⟨"//D DD *".toList, false, 72⟩,
    ⟨[], false, 80⟩, ⟨"A".toList, false, 79⟩]
  let catalog : Text → Option JclDataset := fun _ => some (datasetJcl rows)
  let identity := "//         NOTIFY=$MVSMF,USER=U,PASSWORD=P   GENERATED BY MVSMF".toList
  have hputs : ∀ k, env.jesirput k = true := fun _ => rfl
  have hlines : ∀ r ∈ rows, r.IsLine := by
    intro r hr
    rcases List.mem_cons.mp hr with rfl | hr
    · exact ⟨by decide, List.all_iff_forall_prop.mp rfl⟩
    rcases List.mem_cons.mp hr with rfl | hr
    · exact ⟨by decide, List.all_iff_forall_prop.mp rfl⟩
    rcases List.mem_pair.mp hr with rfl | rfl
    · exact ⟨by decide, List.forall_mem_nil _⟩
    · exact ⟨by decide, List.all_iff_forall_prop.mp rfl⟩
  have hbody : (bodyRequest rows true).prepare env catalog =
      .ok ⟨["//J JOB 1,".toList, identity, "//D DD *".toList, "A".toList], "J".toList, none⟩ := by
    decide +kernel
  have hdataset : (datasetRequest "//'A.B'".toList).prepare env catalog =
      .ok ⟨["//J JOB 1,".toList, identity, "//D DD *".toList ++ blanks 72, blanks 80,
        "A".toList ++ blanks 79], "J".toList, none⟩ := by
    decide +kernel
  have halike := h env catalog rows true "//'A.B'".toList "A.B".toList hlines (by decide +kernel) rfl
    hputs (Or.inl ⟨_, hbody⟩)
  have hsame := congrArg List.length halike.same
  rw [handed_ok hputs hbody, handed_ok hputs hdataset, List.length_map, List.length_map] at hsame
  exact absurd hsame (by decide +kernel)

end Mvsmf
