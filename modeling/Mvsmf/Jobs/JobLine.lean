import Mvsmf.Jobs.JobCardRange

/-!
# The line of the JOB statement

The code takes a line for the JOB statement by its form alone: `//`, up to eight characters, blanks
and the word. A reader of JCL also knows whether the line is one of data or goes on with a statement,
whether its name is one, and where the statement ends on the card. First the form, then the lines on
which the two differ, then the card that each finds.
-/

namespace Mvsmf

open Jcl

/-! ## The form -/

/-- `//`, a name of up to eight characters, blanks and the word `JOB`. -/
structure JobForm (line name : Text) (blanks : Nat) (rest : Text) : Prop where
  eq : line = "//".toList ++ (name ++ (List.replicate blanks ' ' ++ ("JOB".toList ++ rest)))
  name_chars : ∀ c ∈ name, c ≠ ' '
  length : name.length ≤ 8
  gap : 0 < blanks ∨ name.length = 8

theorem takeWhile_take_name {name : Text} (h : ∀ c ∈ name, c ≠ ' ') (hlen : name.length ≤ 8)
    {t : Text} (ht : (∃ u, t = ' ' :: u) ∨ name.length = 8) :
    ((name ++ t).take 8).takeWhile (· != ' ') = name := by
  have hname : ∀ c ∈ name, (c != ' ') = true := by simpa using h
  rw [List.take_append, List.take_of_length_le hlen, List.takeWhile_append_of_pos hname]
  rcases ht with ⟨u, rfl⟩ | hfull
  · cases 8 - name.length with
    | zero => simp
    | succ k => simp
  · simp [hfull]

/-- The operation of a line of this form begins with the word. -/
theorem JobForm.getOperation_eq {line name rest : Text} {blanks : Nat}
    (h : JobForm line name blanks rest) :
    getOperation line = ((("JOB".toList ++ rest).takeWhile (· != ' ')).take 4).rdropWhile
      CLib.isspace := by
  have hgap : (∃ u, List.replicate blanks ' ' ++ ("JOB".toList ++ rest) = ' ' :: u) ∨
      name.length = 8 := by
    refine h.gap.imp_left fun hpos => ?_
    obtain ⟨k, rfl⟩ := Nat.exists_eq_add_one_of_ne_zero hpos.ne'
    exact ⟨_, by rw [List.replicate_succ, List.cons_append]⟩
  have hskip : (List.replicate blanks ' ' ++ ("JOB".toList ++ rest)).dropWhile (· == ' ') =
      "JOB".toList ++ rest := by
    rw [List.dropWhile_append_of_pos (by simp)]
    rfl
  have hlong : ¬line.length < 3 := by
    rw [h.eq]
    simp
    omega
  rw [getOperation, if_neg hlong, h.eq]
  simp only [String.reduceToList, List.cons_append, List.nil_append, List.drop_succ_cons,
    List.drop_zero]
  simp only [String.reduceToList, List.cons_append, List.nil_append] at hskip hgap
  rw [takeWhile_take_name h.name_chars h.length hgap, List.drop_left, hskip]

/-- The first four characters of a word, white space behind them dropped. -/
theorem trimmed_eq_iff (op : Text) :
    ((op.takeWhile (· != ' ')).take 4).rdropWhile CLib.isspace = "JOB".toList ↔
      ∃ rest, op = "JOB".toList ++ rest ∧ ∀ c ∈ rest.head?, CLib.isspace c = true := by
  constructor
  · intro h
    obtain ⟨s, hs⟩ := List.rdropWhile_prefix CLib.isspace ((op.takeWhile (· != ' ')).take 4)
    rw [h] at hs
    have htake : (op.takeWhile (· != ' ')).take 4 <+: op :=
      (List.take_prefix _ _).trans (List.takeWhile_prefix _)
    rw [← hs] at htake
    obtain ⟨t, rfl⟩ := htake
    refine ⟨s ++ t, by simp, ?_⟩
    cases s with
    | cons c s =>
      -- the fourth character is white space that is trimmed
      rintro d hd
      obtain rfl : c = d := by simpa using hd
      have hlen := congrArg List.length hs
      simp only [String.reduceToList, List.length_append, List.length_cons, List.length_nil,
        List.length_take] at hlen
      obtain rfl : s = [] := List.length_eq_zero_iff.mp (by omega)
      rw [← hs] at h
      by_contra hc
      rw [List.rdropWhile_concat_neg _ _ _ hc] at h
      cases h
    | nil =>
      -- the word ends behind its third
      intro d hd
      by_contra hspace
      have hblank : d ≠ ' ' := by
        rintro rfl
        exact hspace rfl
      obtain ⟨u, rfl⟩ : ∃ u, t = d :: u := by
        cases t with
        | nil => cases hd
        | cons c u =>
          obtain rfl : c = d := by simpa using hd
          exact ⟨u, rfl⟩
      have hlen := congrArg List.length hs
      simp [hblank] at hlen
  · rintro ⟨rest, rfl, hrest⟩
    cases rest with
    | nil => rfl
    | cons c rest =>
      have hc : CLib.isspace c = true := hrest c rfl
      by_cases hblank : c = ' '
      · subst hblank
        rfl
      · have hword : (("JOB".toList ++ c :: rest).takeWhile (· != ' ')).take 4 =
            "JOB".toList ++ [c] := by
          simp [hblank]
        rw [hword, List.rdropWhile_concat_pos _ _ _ hc]
        rfl

/-- **The form of the line** that the code takes for the JOB statement. -/
theorem isJobLine_iff (line : Text) : isJobLine line = true ↔
    ∃ name blanks rest, JobForm line name blanks rest ∧
      ∀ c ∈ rest.head?, CLib.isspace c = true := by
  constructor
  · intro h
    rw [isJobLine, Bool.and_eq_true, Bool.and_eq_true, decide_eq_true_eq, beq_iff_eq] at h
    obtain ⟨⟨hlong, hslash⟩, hop⟩ := h
    obtain ⟨r, rfl⟩ := List.isPrefixOf_iff_prefix.mp hslash
    rw [getOperation, if_neg (Nat.not_lt.mpr hlong),
      show ("//".toList ++ r).drop 2 = r from rfl] at hop
    dsimp only at hop
    generalize hname : (r.take 8).takeWhile (· != ' ') = name at hop
    obtain ⟨t, ht⟩ : name <+: r :=
      hname ▸ (List.takeWhile_prefix _).trans (List.take_prefix 8 r)
    rw [← ht, List.drop_left] at hop
    obtain ⟨rest, hrest, hspace⟩ := (trimmed_eq_iff _).mp hop
    have hchars : ∀ c ∈ name, c ≠ ' ' := by
      intro c hc
      rw [← hname] at hc
      simpa using List.mem_takeWhile_imp hc
    have hlength : name.length ≤ 8 := by
      rw [← hname]
      exact ((List.takeWhile_prefix _).length_le).trans (List.length_take_le 8 r)
    have hblanks : t = List.replicate (t.takeWhile (· == ' ')).length ' ' ++
        ("JOB".toList ++ rest) := by
      rw [← hrest]
      conv_lhs => rw [← List.takeWhile_append_dropWhile (p := (· == ' ')) (l := t)]
      congr 1
      refine List.eq_replicate_of_mem fun c hc => ?_
      simpa using List.mem_takeWhile_imp hc
    refine ⟨name, _, rest, ⟨by rw [← hblanks, ht], hchars, hlength, ?_⟩, hspace⟩
    by_contra hno
    obtain ⟨hzero, hshort⟩ := not_or.mp hno
    -- without a blank behind it a short name would go on
    rw [Nat.eq_zero_of_not_pos hzero, List.replicate_zero, List.nil_append] at hblanks
    rw [← ht, hblanks] at hname
    have hlt : name.length < 8 := by omega
    have hlonger := congrArg List.length hname
    have hall : ∀ c ∈ name, (c != ' ') = true := by simpa using hchars
    obtain ⟨k, hk⟩ : ∃ k, 8 - name.length = k + 1 := ⟨8 - name.length - 1, by omega⟩
    rw [List.take_append, List.take_of_length_le hlength, List.takeWhile_append_of_pos hall, hk]
      at hlonger
    simp at hlonger
  · rintro ⟨name, blanks, rest, hform, hspace⟩
    have hop := hform.getOperation_eq.trans ((trimmed_eq_iff _).mpr ⟨rest, rfl, hspace⟩)
    have hjcl : isJclLine line = true := by
      rw [hform.eq]
      rfl
    have hlong : 3 ≤ line.length := by
      rw [hform.eq]
      simp
      omega
    rw [isJobLine, hop, hjcl, decide_eq_true hlong]
    rfl

/-! ## The JOB statement of JCL -/

/-- The last column of the word. -/
def jobColumn (name : Text) (blanks : Nat) : Nat := 2 + name.length + blanks + 3

theorem isName_chars {name : Text} (h : isName name = true) :
    (∀ c ∈ name, c ≠ ' ') ∧ name.length ≤ 8 ∧ ∀ c ∈ name.head?, c ≠ '*' := by
  simp only [isName, Bool.and_eq_true, decide_eq_true_eq, List.all_eq_true] at h
  refine ⟨?_, h.1.1, ?_⟩
  · rintro c hc rfl
    exact absurd (h.1.2 ' ' hc) (by decide)
  · rintro c hc rfl
    exact absurd (h.1.2 '*' (List.mem_of_mem_head? hc)) (by decide)

/-- A card of this form with a name of JCL opens a JOB statement. -/
theorem opened_job {name rest : Text} (h : isName name = true) (n : Nat)
    (hrest : ∀ c ∈ rest.head?, c = ' ') :
    ∃ s, opened ("//".toList ++ (name ++ (List.replicate (n + 1) ' ' ++ ("JOB".toList ++ rest)))) =
      some s ∧ s.isJob = true := by
  obtain ⟨hchars, -, hstar⟩ := isName_chars h
  have hcomment : isComment ("//".toList ++ (name ++ (List.replicate (n + 1) ' ' ++
      ("JOB".toList ++ rest)))) = false := by
    cases name with
    | nil => cases h
    | cons c name => simpa [isComment, List.isPrefixOf] using Ne.symm (hstar c rfl)
  have hskip : (List.replicate (n + 1) ' ' ++ ("JOB".toList ++ rest)).dropWhile (· == ' ') =
      "JOB".toList ++ rest := by
    rw [List.dropWhile_append_of_pos (by simp)]
    rfl
  have hop : ("JOB".toList ++ rest).takeWhile (· != ' ') = "JOB".toList := by
    cases rest with
    | nil => rfl
    | cons c rest =>
      obtain rfl := hrest c rfl
      rfl
  have hslash : "//".toList.isPrefixOf ("//".toList ++ (name ++ (List.replicate (n + 1) ' ' ++
      ("JOB".toList ++ rest)))) = true := List.isPrefixOf_iff_prefix.mpr (List.prefix_append _ _)
  rw [opened, hcomment, hslash]
  simp only [show ("//".toList ++ (name ++ (List.replicate (n + 1) ' ' ++ ("JOB".toList ++
    rest)))).drop 2 = name ++ (List.replicate (n + 1) ' ' ++ ("JOB".toList ++ rest)) from rfl,
    takeWhile_word hchars, dropWhile_word hchars, hskip, hop]
  refine ⟨_, rfl, ?_⟩
  rw [Statement.isJob, h]
  rfl

/-- And a card that opens one is of this form. -/
theorem opened_isJob {card : Text} {s : Statement} (hopen : opened card = some s)
    (hjob : s.isJob = true) : ∃ name k u,
      card = "//".toList ++ (name ++ (List.replicate k ' ' ++ ("JOB".toList ++ u))) ∧
        isName name = true ∧ 0 < k ∧ ∀ c ∈ u.head?, c = ' ' := by
  rw [opened] at hopen
  split at hopen
  next hcard =>
    rw [Bool.and_eq_true] at hcard
    obtain ⟨r, hr⟩ := List.isPrefixOf_iff_prefix.mp hcard.1
    rw [← hr, show ("//".toList ++ r).drop 2 = r from rfl] at hopen
    dsimp only at hopen
    split at hopen
    · cases hopen
    · cases hopen
      rw [Statement.isJob, Bool.and_eq_true, beq_iff_eq] at hjob
      obtain ⟨hop, hname⟩ := hjob
      dsimp only at hop hname
      generalize hn : r.takeWhile (· != ' ') = name at hname
      generalize hd : r.dropWhile (· != ' ') = d at hop
      have hr' : name ++ d = r := by rw [← hn, ← hd, List.takeWhile_append_dropWhile]
      obtain ⟨k, hk⟩ : ∃ k, d = List.replicate k ' ' ++ d.dropWhile (· == ' ') := by
        refine ⟨(d.takeWhile (· == ' ')).length, ?_⟩
        conv_lhs => rw [← List.takeWhile_append_dropWhile (p := (· == ' ')) (l := d)]
        congr 1
        refine List.eq_replicate_of_mem fun c hc => ?_
        simpa using List.mem_takeWhile_imp hc
      obtain ⟨u, hu, hblank⟩ : ∃ u, d.dropWhile (· == ' ') = "JOB".toList ++ u ∧
          ∀ c ∈ u.head?, c = ' ' := by
        refine ⟨(d.dropWhile (· == ' ')).dropWhile (· != ' '), ?_, ?_⟩
        · conv_lhs => rw [← List.takeWhile_append_dropWhile (p := (· != ' '))
            (l := d.dropWhile (· == ' ')), hop]
        · intro c hc
          have hstop := List.head?_dropWhile_not (· != ' ') (d.dropWhile (· == ' '))
          rw [Option.mem_def.mp hc] at hstop
          simpa using hstop
      have hpos : 0 < k := by
        by_contra hzero
        rw [Nat.eq_zero_of_not_pos hzero, List.replicate_zero, List.nil_append] at hk
        have hstop := List.head?_dropWhile_not (· != ' ') r
        rw [hd, hk, hu] at hstop
        exact absurd (show ('J' != ' ') = false from hstop) (by decide)
      exact ⟨name, k, u, by rw [← hr, ← hr', hk, hu], hname, hpos, hblank⟩
  next => cases hopen

/-- Where a JOB statement starts: a line of this form that is read as the start of a statement, with
a name of JCL and a blank or the end of the card behind the word. -/
theorem jobStart_isSome_iff (st : State) (line : Text) : (jobStart st line).isSome = true ↔
    startsStatement st (line.take lastColumn) = true ∧
      ∃ name blanks rest, JobForm line name blanks rest ∧ isName name = true ∧ 0 < blanks ∧
        (jobColumn name blanks = lastColumn ∨
          jobColumn name blanks < lastColumn ∧ ∀ c ∈ rest.head?, c = ' ') := by
  rw [jobStart]
  constructor
  · intro h
    split at h
    next hstarts =>
      refine ⟨hstarts, ?_⟩
      obtain ⟨s, hs⟩ := Option.isSome_iff_exists.mp h
      obtain ⟨hopen, hjob⟩ := Option.filter_eq_some_iff.mp hs
      obtain ⟨name, k, u, hcardeq, hname, hpos, hblank⟩ := opened_isJob hopen hjob
      have hlen := congrArg List.length hcardeq
      simp only [List.length_take, List.length_append, List.length_replicate,
        String.reduceToList, List.length_cons, List.length_nil] at hlen
      refine ⟨name, k, u ++ line.drop lastColumn, ⟨?_, (isName_chars hname).1,
        (isName_chars hname).2.1, Or.inl hpos⟩, hname, hpos, ?_⟩
      · conv_lhs => rw [← List.take_append_drop lastColumn line, hcardeq]
        simp only [List.append_assoc]
      · rw [jobColumn]
        cases u with
        | cons c u =>
          rw [List.length_cons] at hlen
          exact Or.inr ⟨by omega, hblank⟩
        | nil =>
          rw [List.length_nil] at hlen
          by_cases hshort : line.length < lastColumn
          · rw [List.drop_eq_nil_of_le hshort.le]
            exact Or.inr ⟨by omega, by simp⟩
          · exact Or.inl (by omega)
    next => cases h
  · rintro ⟨hstarts, name, blanks, rest, hform, hname, hpos, hcolumn⟩
    rw [if_pos hstarts]
    obtain ⟨n, rfl⟩ := Nat.exists_eq_add_one_of_ne_zero hpos.ne'
    obtain ⟨u, hu, hblank⟩ : ∃ u, line.take lastColumn = "//".toList ++ (name ++
        (List.replicate (n + 1) ' ' ++ ("JOB".toList ++ u))) ∧ ∀ c ∈ u.head?, c = ' ' := by
      refine ⟨rest.take (lastColumn - jobColumn name (n + 1)), ?_, ?_⟩
      · have hle : jobColumn name (n + 1) ≤ lastColumn := by omega
        have hassoc (t : Text) : "//".toList ++ (name ++ (List.replicate (n + 1) ' ' ++
            ("JOB".toList ++ t))) =
            ("//".toList ++ (name ++ (List.replicate (n + 1) ' ' ++ "JOB".toList))) ++ t := by simp
        have hlength : ("//".toList ++ (name ++ (List.replicate (n + 1) ' ' ++
            "JOB".toList))).length = jobColumn name (n + 1) := by
          simp [jobColumn]
          omega
        rw [hform.eq, hassoc, hassoc, List.take_append, hlength,
          List.take_of_length_le (by rw [hlength]; exact hle)]
      · intro c hc
        rw [List.head?_take] at hc
        split at hc
        · cases hc
        · exact (hcolumn.resolve_left (by omega)).2 c hc
    obtain ⟨s, hopen, hjob⟩ := opened_job hname n hblank
    rw [hu, hopen, Option.filter_some_pos hjob]
    rfl

/-! ## Where the two agree -/

/-- The lines in front of the first JOB statement, or all lines if there is none, each with what it
is read as. -/
def linesInFront (st : State) : List Text → List (State × Text)
  | [] => []
  | line :: lines =>
    if (jobStart st line).isSome then [] else (st, line) :: linesInFront (step st line).1 lines

/-- A line that has the form of a JOB statement and starts none: it is data or goes on with a
statement, or it has no name of JCL, such as a comment, or the word is not in the columns of the
statement, or has other white space behind it. -/
def Mistaken (st : State) (line : Text) : Prop :=
  ∃ name blanks rest, JobForm line name blanks rest ∧
    (∀ c ∈ rest.head?, CLib.isspace c = true) ∧
    (startsStatement st (line.take lastColumn) = false ∨ isName name = false ∨ blanks = 0 ∨
      lastColumn < jobColumn name blanks ∨
      jobColumn name blanks < lastColumn ∧ ∃ c ∈ rest.head?, c ≠ ' ')

/-- The word ends where the statement does on the card, and what is behind it is no white space. -/
def CutWord (line : Text) : Prop :=
  ∃ name blanks rest, JobForm line name blanks rest ∧ jobColumn name blanks = lastColumn ∧
    ∃ c ∈ rest.head?, CLib.isspace c = false

theorem mistaken_iff {st : State} {line : Text} (h : jobStart st line = none) :
    Mistaken st line ↔ isJobLine line = true := by
  rw [isJobLine_iff]
  constructor
  · rintro ⟨name, blanks, rest, hform, hspace, -⟩
    exact ⟨name, blanks, rest, hform, hspace⟩
  · rintro ⟨name, blanks, rest, hform, hspace⟩
    refine ⟨name, blanks, rest, hform, hspace, ?_⟩
    by_contra hno
    simp only [not_or, not_and, not_exists, Bool.not_eq_false, not_lt, ne_eq, not_not] at hno
    obtain ⟨hstarts, hname, hblanks, hcolumn, hrest⟩ := hno
    have hsome : (jobStart st line).isSome = true := by
      refine (jobStart_isSome_iff st line).mpr ⟨hstarts, name, blanks, rest, hform, hname,
        Nat.pos_of_ne_zero hblanks, ?_⟩
      exact hcolumn.eq_or_lt.imp_right fun hlt => ⟨hlt, hrest hlt⟩
    rw [h] at hsome
    cases hsome

theorem cutWord_iff {st : State} {line : Text} (h : (jobStart st line).isSome = true) :
    CutWord line ↔ isJobLine line = false := by
  constructor
  · rintro ⟨name, blanks, rest, hform, -, c, hc, hspace⟩
    rw [Bool.eq_false_iff]
    intro hjob
    have hop : getOperation line = "JOB".toList := by
      rw [isJobLine, Bool.and_eq_true, beq_iff_eq] at hjob
      exact hjob.2
    rw [hform.getOperation_eq, trimmed_eq_iff] at hop
    obtain ⟨rest', hrest, hall⟩ := hop
    rw [List.append_cancel_left hrest] at hc
    exact absurd (hall c hc) (by simp [hspace])
  · intro hno
    obtain ⟨-, name, blanks, rest, hform, -, -, hcolumn⟩ := (jobStart_isSome_iff st line).mp h
    by_contra hcut
    have hspace : ∀ c ∈ rest.head?, CLib.isspace c = true := by
      intro c hc
      rcases hcolumn with hcolumn | ⟨-, hblank⟩
      · by_contra hc'
        exact hcut ⟨name, blanks, rest, hform, hcolumn, c, hc, by simpa using hc'⟩
      · rw [hblank c hc]
        rfl
    rw [(isJobLine_iff line).mpr ⟨name, blanks, rest, hform, hspace⟩] at hno
    cases hno

theorem linesInFront_none {st : State} {lines : List Text} (h : jclCardRange st lines = none) :
    (linesInFront st lines).map Prod.snd = lines := by
  induction lines generalizing st with
  | nil => rfl
  | cons line lines ih =>
    rw [jclCardRange] at h
    split at h
    · cases h
    next hjob =>
      rw [linesInFront, hjob, if_neg (by simp), List.map_cons, ih (Option.map_eq_none_iff.mp h)]

theorem linesInFront_some {st : State} {lines : List Text} {r : CardRange}
    (h : jclCardRange st lines = some r) :
    (linesInFront st lines).map Prod.snd = r.pre ∧ ∃ st', (jobStart st' r.head).isSome = true := by
  induction lines generalizing st r with
  | nil => cases h
  | cons line lines ih =>
    rw [jclCardRange] at h
    split at h
    next s hjob =>
      cases h
      have hsome : (jobStart st line).isSome = true := by rw [hjob]; rfl
      rw [linesInFront, if_pos hsome]
      exact ⟨rfl, st, hsome⟩
    next hjob =>
      obtain ⟨r', hr', rfl⟩ := Option.map_eq_some_iff.mp h
      obtain ⟨hpre, hhead⟩ := ih hr'
      rw [linesInFront, hjob, if_neg (by simp), List.map_cons, hpre]
      exact ⟨rfl, hhead⟩

theorem jobStart_linesInFront {st : State} {lines : List Text} :
    ∀ x ∈ linesInFront st lines, jobStart x.1 x.2 = none := by
  induction lines generalizing st with
  | nil => exact fun _ hx => nomatch hx
  | cons line lines ih =>
    rw [linesInFront]
    split
    · exact fun _ hx => nomatch hx
    next hjob =>
      refine List.forall_mem_cons.mpr ⟨?_, ih⟩
      simpa using hjob

theorem findJobCardRange_none_iff (lines : List Text) :
    findJobCardRange lines = none ↔ ∀ l ∈ lines, isJobLine l = false := by
  induction lines with
  | nil => simp [findJobCardRange]
  | cons line lines ih =>
    rw [findJobCardRange, List.forall_mem_cons, ← ih]
    cases isJobLine line <;> simp

/-- What the code finds is the first line of its form, and the lines behind it that are joined. -/
theorem findJobCardRange_form (lines : List Text) :
    (findJobCardRange lines = none ↔ ∀ l ∈ lines, isJobLine l = false) ∧
      ∀ r ∈ findJobCardRange lines, lines = r.pre ++ r.head :: (r.continuations ++ r.post) ∧
        (∀ l ∈ r.pre, isJobLine l = false) ∧ isJobLine r.head = true ∧
        JoinedLines r.head r.continuations r.post := by
  refine ⟨findJobCardRange_none_iff lines, fun r hr => ?_⟩
  obtain ⟨hlines, hpre, hhead, hcard⟩ := findJobCardRange_some hr
  exact ⟨hlines, hpre, hhead, (cardContinuations_eq_iff _ _ _).mp hcard⟩

/-- **The card range** is that of the JCL rules exactly if no line in front of the first JOB statement
is mistaken for one, its own word is not cut, and its lines are those that are joined by a comma at
the end of a line and blanks in columns 3 to 10. -/
theorem findJobCardRange_card (lines : List Text) :
    findJobCardRange lines = jclCardRange .ready lines ↔
      (∀ x ∈ linesInFront .ready lines, ¬Mistaken x.1 x.2) ∧
        ∀ r ∈ jclCardRange .ready lines,
          ¬CutWord r.head ∧ JoinedLines r.head r.continuations r.post := by
  have hfront : (∀ x ∈ linesInFront .ready lines, ¬Mistaken x.1 x.2) ↔
      ∀ l ∈ (linesInFront .ready lines).map Prod.snd, isJobLine l = false := by
    simp only [List.forall_mem_map]
    refine forall₂_congr fun x hx => ?_
    rw [mistaken_iff (jobStart_linesInFront x hx), Bool.not_eq_true]
  rw [hfront]
  cases hjcl : jclCardRange .ready lines with
  | none =>
    rw [linesInFront_none hjcl, findJobCardRange_none_iff]
    simp
  | some r =>
    obtain ⟨hpre, st, hhead⟩ := linesInFront_some hjcl
    have hcut : ¬CutWord r.head ↔ isJobLine r.head = true := by
      rw [cutWord_iff hhead, Bool.not_eq_false]
    rw [hpre]
    simp only [Option.mem_some_iff, forall_eq']
    rw [hcut]
    constructor
    · intro hfind
      obtain ⟨-, hpre, hhead, hjoined⟩ := (findJobCardRange_form lines).2 r hfind
      exact ⟨hpre, hhead, hjoined⟩
    · rintro ⟨hpre, hhead, hjoined⟩
      have hfind := findJobCardRange_eq hpre hhead (r.continuations ++ r.post)
      rw [← jclCardRange_split hjcl, (cardContinuations_eq_iff _ _ _).mpr hjoined] at hfind
      rw [hfind]

/-- A comment card with the word is taken for the JOB card, a comment behind the operands hides the
comma in front of it, and a continuation that starts in column 4 is not seen. -/
theorem findJobCardRange_differs :
    findJobCardRange ["//* JOB".toList, "//J JOB 1".toList] ≠
        jclCardRange .ready ["//* JOB".toList, "//J JOB 1".toList] ∧
      findJobCardRange ["//J JOB 1, X".toList, "//         CLASS=A".toList] ≠
        jclCardRange .ready ["//J JOB 1, X".toList, "//         CLASS=A".toList] ∧
      findJobCardRange ["//J JOB 1,".toList, "// CLASS=A".toList] ≠
        jclCardRange .ready ["//J JOB 1,".toList, "// CLASS=A".toList] := by
  decide +kernel

end Mvsmf
