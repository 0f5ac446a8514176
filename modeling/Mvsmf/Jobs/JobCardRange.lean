import Mvsmf.Jobs.ProcessJobcard

/-!
# The card among the lines

`find_job_card_range` goes by single characters of the lines: the word `JOB` behind a name or a
blank, a comma at the end of a line, blanks in columns 3 to 10. A reader of JCL knows which card
starts a statement and where its operand field ends.
-/

namespace Mvsmf

open Jcl

/-! ## The lines of the card -/

theorem cardContinuations_split (line : Text) (lines : List Text) :
    lines = (cardContinuations line lines).1 ++ (cardContinuations line lines).2 ∧
      (hasComma ((cardContinuations line lines).1.getLastD line) = true →
        ∀ next ∈ (cardContinuations line lines).2.head?, isContinuationLine next = false) := by
  induction lines generalizing line with
  | nil => simp [cardContinuations]
  | cons next lines ih =>
    rw [cardContinuations]
    split
    · obtain ⟨heq, hstop⟩ := ih next
      refine ⟨by rw [List.cons_append, ← heq], ?_⟩
      rw [List.getLastD_cons]
      exact hstop
    next hno =>
      refine ⟨rfl, fun hcomma l hl => ?_⟩
      obtain rfl : next = l := by simpa using hl
      simpa [show hasComma line = true from hcomma] using hno

/-- The lines that continue a card continue it without those behind them. -/
theorem cardContinuations_self (line : Text) (lines : List Text) :
    cardContinuations line (cardContinuations line lines).1 =
      ((cardContinuations line lines).1, []) := by
  induction lines generalizing line with
  | nil => rfl
  | cons next lines ih =>
    rw [cardContinuations]
    split
    next hl =>
      simp only
      rw [cardContinuations, if_pos hl, ih]
    next => rfl

theorem findJobCardRange_some {lines : List Text} {r : CardRange}
    (h : findJobCardRange lines = some r) :
    lines = r.pre ++ r.head :: (r.continuations ++ r.post) ∧ (∀ l ∈ r.pre, isJobLine l = false) ∧
      isJobLine r.head = true ∧
      cardContinuations r.head (r.continuations ++ r.post) = (r.continuations, r.post) := by
  induction lines generalizing r with
  | nil => cases h
  | cons line lines ih =>
    rw [findJobCardRange] at h
    split at h
    next hjob =>
      cases h
      have hsplit := (cardContinuations_split line lines).1
      simp only [← hsplit]
      exact ⟨rfl, by simp, hjob, trivial⟩
    next hjob =>
      obtain ⟨r', hr', rfl⟩ := Option.map_eq_some_iff.mp h
      obtain ⟨heq, hpre, hhead, hcard⟩ := ih hr'
      refine ⟨by rw [heq]; rfl, ?_, hhead, hcard⟩
      intro l hl
      rcases List.mem_cons.mp hl with rfl | hl
      · exact Bool.eq_false_iff.mpr hjob
      · exact hpre l hl

theorem findJobCardRange_eq {pre : List Text} {head : Text} (hpre : ∀ l ∈ pre, isJobLine l = false)
    (hhead : isJobLine head = true) (lines : List Text) :
    findJobCardRange (pre ++ head :: lines) =
      some ⟨pre, head, (cardContinuations head lines).1, (cardContinuations head lines).2⟩ := by
  induction pre with
  | nil => simp [findJobCardRange, hhead]
  | cons l pre ih =>
    have hl := hpre l List.mem_cons_self
    rw [List.cons_append, findJobCardRange, hl, if_neg Bool.false_ne_true,
      ih fun l hl => hpre l (List.mem_cons_of_mem _ hl)]
    rfl

/-- Between two lines of the card stands a comma and the second is indented, and behind the last one
nothing continues it. -/
structure JoinedLines (line : Text) (conts post : List Text) : Prop where
  commas : ∀ l ∈ (line :: conts).dropLast, hasComma l = true
  indents : ∀ l ∈ conts, isContinuationLine l = true
  last : ∀ next ∈ post.head?, hasComma (conts.getLastD line) = true →
    isContinuationLine next = false

theorem joinedLines_cons_iff (line next : Text) (conts post : List Text) :
    JoinedLines line (next :: conts) post ↔
      (hasComma line = true ∧ isContinuationLine next = true) ∧ JoinedLines next conts post := by
  constructor
  · rintro ⟨hcommas, hindents, hlast⟩
    rw [List.dropLast_cons_cons, List.forall_mem_cons] at hcommas
    rw [List.forall_mem_cons] at hindents
    exact ⟨⟨hcommas.1, hindents.1⟩, hcommas.2, hindents.2, by rwa [List.getLastD_cons] at hlast⟩
  · rintro ⟨⟨hcomma, hindent⟩, hcommas, hindents, hlast⟩
    refine ⟨?_, List.forall_mem_cons.mpr ⟨hindent, hindents⟩, by rwa [List.getLastD_cons]⟩
    rw [List.dropLast_cons_cons]
    exact List.forall_mem_cons.mpr ⟨hcomma, hcommas⟩

theorem cardContinuations_eq_iff (line : Text) (conts post : List Text) :
    cardContinuations line (conts ++ post) = (conts, post) ↔ JoinedLines line conts post := by
  induction conts generalizing line with
  | nil =>
    constructor
    · intro h
      obtain ⟨-, hstop⟩ := cardContinuations_split line post
      rw [List.nil_append] at h
      rw [h] at hstop
      exact ⟨by simp, by simp, fun next hnext hcomma => hstop hcomma next hnext⟩
    · rintro ⟨-, -, hlast⟩
      cases post with
      | nil => rfl
      | cons next post =>
        have hno : (hasComma line && isContinuationLine next) = false := by
          cases hcomma : hasComma line with
          | false => rfl
          | true => exact hlast next rfl hcomma
        rw [List.nil_append, cardContinuations, if_neg (by simp [hno])]
  | cons next conts ih =>
    rw [joinedLines_cons_iff, ← ih, List.cons_append, cardContinuations]
    split
    next hyes =>
      rw [Bool.and_eq_true] at hyes
      simp [hyes, Prod.ext_iff]
    next hno =>
      rw [Bool.and_eq_true] at hno
      simp [hno]

/-! ## The card by the JCL rules -/

/-- The statement that a card starts, with the operand field it has on that card. -/
def opened (card : Text) : Option Statement :=
  if "//".toList.isPrefixOf card && !isComment card then
    let name := (card.drop 2).takeWhile (· != ' ')
    let rest := ((card.drop 2).dropWhile (· != ' ')).dropWhile (· == ' ')
    let op := rest.takeWhile (· != ' ')
    if op = [] then none
    else some ⟨name, op, Jcl.field false ((rest.dropWhile (· != ' ')).dropWhile (· == ' '))⟩
  else none

theorem start_eq (card : Text) :
    start card = match opened card with
      | none => (.ready, [])
      | some s => go s s.text := by
  unfold start opened
  split
  · simp only
    split <;> rfl
  · rfl

/-- The card is read as the start of a statement, not as data or a continuation. -/
def startsStatement : State → Text → Bool
  | .ready, _ => true
  | .more _, card => !isComment card && (continuation card).isNone
  | .data delim slash, card =>
    !delim.isPrefixOf card && (slash && "//".toList.isPrefixOf card)

/-- The JOB statement that the line starts. -/
def jobStart (st : State) (line : Text) : Option Statement :=
  if startsStatement st (line.take lastColumn) then
    (opened (line.take lastColumn)).filter Statement.isJob
  else none

/-- The lines behind a card up to the last that continues it, and those behind them; `more` says
whether its operand field ends in a comma. Comment cards are passed over. -/
def jclContinuations : Bool → List Text → List Text × List Text
  | _, [] => ([], [])
  | false, lines => ([], lines)
  | true, next :: lines =>
    if isComment (next.take lastColumn) then
      let r := jclContinuations true lines
      if r.1 = [] then ([], next :: lines) else (next :: r.1, r.2)
    else
      match continuation (next.take lastColumn) with
      | some t =>
        let r := jclContinuations (endsInComma t) lines
        (next :: r.1, r.2)
      | none => ([], next :: lines)

/-- The card of the first JOB statement. -/
def jclCardRange (st : State) : List Text → Option CardRange
  | [] => none
  | line :: lines =>
    match jobStart st line with
    | some s =>
      let r := jclContinuations (endsInComma s.text) lines
      some ⟨[], line, r.1, r.2⟩
    | none => (jclCardRange (step st line).1 lines).map fun r => { r with pre := line :: r.pre }

theorem jclContinuations_split (more : Bool) (lines : List Text) :
    (jclContinuations more lines).1 ++ (jclContinuations more lines).2 = lines := by
  induction lines generalizing more with
  | nil => cases more <;> rfl
  | cons next lines ih =>
    cases more with
    | false => rfl
    | true =>
      rw [jclContinuations]
      split
      · simp only
        split
        · rfl
        · rw [List.cons_append, ih]
      · split
        · rw [List.cons_append, ih]
        · rfl

theorem jclCardRange_split {st : State} {lines : List Text} {r : CardRange}
    (h : jclCardRange st lines = some r) :
    lines = r.pre ++ r.head :: (r.continuations ++ r.post) := by
  induction lines generalizing st r with
  | nil => cases h
  | cons line lines ih =>
    rw [jclCardRange] at h
    split at h
    · cases h
      rw [List.nil_append, jclContinuations_split]
    · obtain ⟨r', hr', rfl⟩ := Option.map_eq_some_iff.mp h
      rw [ih hr']
      rfl

/-! ## What the reader makes of the card -/

/-- A statement that is open is read to its end. -/
theorem read_open (s : Statement) (lines : List Text) :
    ∃ s' ∈ (read (.more s) lines).2 ++ flush (read (.more s) lines).1,
      s'.name = s.name ∧ s'.op = s.op := by
  induction lines generalizing s with
  | nil => exact ⟨s, by simp [flush], rfl, rfl⟩
  | cons line lines ih =>
    rw [read_cons, step]
    split
    · simpa using ih s
    · split
      next t _ =>
        rw [go]
        split
        · simpa using ih { s with text := s.text ++ t }
        · refine ⟨{ s with text := s.text ++ t }, ?_, rfl, rfl⟩
          rw [complete]
          split <;> simp
      · exact ⟨s, by simp, rfl, rfl⟩

theorem isJob_of_eq {s s' : Statement} (hname : s'.name = s.name) (hop : s'.op = s.op) :
    s'.isJob = s.isJob := by
  rw [Statement.isJob, Statement.isJob, hname, hop]

/-- Where no JOB statement starts, none is read and none is left open. -/
theorem step_noJob {st : State} {line : Text} (hst : ∀ s ∈ flush st, s.isJob = false)
    (h : jobStart st line = none) :
    ∀ s ∈ (step st line).2 ++ flush (step st line).1, s.isJob = false := by
  have hgo : ∀ (s : Statement) (t : Text), s.isJob = false →
      ∀ s' ∈ (go s t).2 ++ flush (go s t).1, s'.isJob = false := by
    intro s t hs
    rw [go]
    split
    · simpa [flush] using hs
    · rw [complete]
      split <;> simpa [flush] using hs
  have hstart : startsStatement st (line.take lastColumn) = true →
      ∀ s ∈ (start (line.take lastColumn)).2 ++ flush (start (line.take lastColumn)).1,
        s.isJob = false := by
    intro hstarts
    rw [jobStart, if_pos hstarts] at h
    rw [start_eq]
    cases hopen : opened (line.take lastColumn) with
    | none => simp [flush]
    | some s =>
      have hs : s.isJob = false := by simpa [hopen] using h
      exact hgo s s.text hs
  cases st with
  | ready => exact hstart rfl
  | more s =>
    have hs : s.isJob = false := hst s (by simp [flush])
    rw [step]
    split
    · simpa [flush] using hs
    next hcomment =>
      split
      next t _ => exact hgo _ t ((isJob_of_eq rfl rfl).trans hs)
      next hcont =>
        have hstart := hstart (by simp [startsStatement, hcomment, hcont])
        simpa [hs] using hstart
  | data delim slash =>
    rw [step]
    split
    · simp [flush]
    next hdelim =>
      split
      next hslash => exact hstart (by simpa [startsStatement, hdelim] using hslash)
      next => simp [flush]

/-- Where a JOB statement starts, it is behind what was open. -/
theorem step_job {st : State} {line : Text} {s : Statement} (h : jobStart st line = some s) :
    s.isJob = true ∧ (step st line).1 = (go s s.text).1 ∧
      ∀ s' ∈ (go s s.text).2, s' ∈ (step st line).2 := by
  rw [jobStart] at h
  split at h
  next hstarts =>
    obtain ⟨hopen, hjob⟩ := Option.filter_eq_some_iff.mp h
    have hstart : start (line.take lastColumn) = go s s.text := by rw [start_eq, hopen]
    refine ⟨hjob, ?_⟩
    cases st with
    | ready =>
      rw [step, hstart]
      exact ⟨rfl, fun _ hs => hs⟩
    | more s =>
      simp only [startsStatement, Bool.and_eq_true, Bool.not_eq_true', Option.isNone_iff_eq_none]
        at hstarts
      simp only [step, hstarts.1, hstarts.2, hstart, Bool.false_eq_true, if_false]
      exact ⟨trivial, fun _ hs => List.mem_cons_of_mem _ hs⟩
    | data delim slash =>
      simp only [startsStatement, Bool.and_eq_true, Bool.not_eq_true'] at hstarts
      simp only [step, hstarts.1, hstarts.2, hstart, Bool.false_eq_true, if_false, Bool.and_self,
        if_true]
      exact ⟨trivial, fun _ hs => hs⟩
  next => cases h

/-- There is a card exactly where the reader sees a JOB statement. -/
theorem jclCardRange_eq_none_iff {st : State} (hst : ∀ s ∈ flush st, s.isJob = false)
    (lines : List Text) : jclCardRange st lines = none ↔
      ∀ s ∈ (read st lines).2 ++ flush (read st lines).1, s.isJob = false := by
  induction lines generalizing st with
  | nil => simpa [jclCardRange] using hst
  | cons line lines ih =>
    rw [jclCardRange, read_cons]
    cases hjob : jobStart st line with
    | some s =>
      obtain ⟨hs, hstate, hout⟩ := step_job hjob
      constructor
      · intro h
        cases h
      · intro h
        exfalso
        have hread : ∃ s' ∈ ((step st line).2 ++ (read (step st line).1 lines).2) ++
            flush (read (step st line).1 lines).1, s'.name = s.name ∧ s'.op = s.op := by
          by_cases hcomma : endsInComma s.text = true
          · obtain ⟨s', hs', hsame⟩ := read_open s lines
            rw [hstate, go, if_pos hcomma]
            refine ⟨s', ?_, hsame⟩
            rw [List.append_assoc]
            exact List.mem_append_right _ hs'
          · have hmem : s ∈ (go s s.text).2 := by
              rw [go, if_neg hcomma, complete]
              split <;> simp
            exact ⟨s, by simp [hout s hmem], rfl, rfl⟩
        obtain ⟨s', hs', hname, hop⟩ := hread
        have := h s' hs'
        rw [isJob_of_eq hname hop, hs] at this
        cases this
    | none =>
      have hstep := step_noJob hst hjob
      simp only [List.mem_append] at hstep
      simp only [Option.map_eq_none_iff, ih fun s hs => hstep s (Or.inr hs), List.mem_append]
      constructor
      · rintro h s ((hs | hs) | hs)
        · exact hstep s (Or.inl hs)
        · exact h s (Or.inl hs)
        · exact h s (Or.inr hs)
      · rintro h s (hs | hs)
        · exact h s (Or.inl (Or.inr hs))
        · exact h s (Or.inr hs)

end Mvsmf
