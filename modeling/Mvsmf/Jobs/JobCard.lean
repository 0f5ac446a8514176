import Mvsmf.Lib.Jcl
import Mvsmf.Lib.Words
import Mathlib

/-!
# The JOB card

The functions of `jobcard.c`. A line is the characters of a record up to its terminator. The scans
go by apostrophes only: what stands in parentheses is searched as well.
-/

namespace Mvsmf

open Jcl

def JOBCARD_LAST_COL : Nat := 71

/-! ## jobcard_find_operand -/

/-- The keyword stands here and, blanks aside, an equals sign follows. -/
def keywordAt (keyword pp : Text) : Bool :=
  keyword.isPrefixOf pp && ((pp.drop keyword.length).dropWhile (· == ' ')).head? == some '='

def findOperandFrom (keyword : Text) (inQuotes atOperand : Bool) : Text → Option Nat
  | [] => none
  | c :: cs =>
    if c = '\'' then (findOperandFrom keyword (!inQuotes) false cs).map (· + 1)
    else if inQuotes then (findOperandFrom keyword inQuotes atOperand cs).map (· + 1)
    else if atOperand && keywordAt keyword (c :: cs) then some 0
    else (findOperandFrom keyword inQuotes (c == ',' || c == ' ') cs).map (· + 1)

/-- The offset of the operand in the line. -/
def jobcardFindOperand (line keyword : Text) : Option Nat :=
  if keyword = [] then none else findOperandFrom keyword false true line

/-! ## jobcard_strip_operand -/

/-- The line without the operand at `start`, its value taken to run to the first comma or blank. -/
def removeOperand (line : Text) (start : Nat) : Text :=
  let before := line.take start
  let value := ((line.drop start).dropWhile (· != '=')).drop 1
  match value.dropWhile (fun c => c != ',' && c != ' ') with
  | ',' :: rest => before ++ rest
  | rest => (if before.getLast? = some ',' then before.dropLast else before) ++ rest

def stripOperandLoop (keyword : Text) : Nat → Text → Text × Nat
  | 0, line => (line, 0)
  | fuel + 1, line =>
    match jobcardFindOperand line keyword with
    | none => (line, 0)
    | some start =>
      let r := stripOperandLoop keyword fuel (removeOperand line start)
      (r.1, r.2 + 1)

/-- The line without any of the operand, and how many there were. Each round takes at least the
equals sign away, so the length of the line bounds the rounds. -/
def jobcardStripOperand (line keyword : Text) : Text × Nat :=
  stripOperandLoop keyword line.length line

/-! ## jobcard_strip_credentials -/

def jobcardOperandsEmpty (line : Text) : Bool :=
  let pp := if "//".toList.isPrefixOf line then line.drop 2 else line
  pp.dropWhile (· == ' ') == []

def USER : Text := "USER".toList
def PASSWORD : Text := "PASSWORD".toList

def stripCredentials (line : Text) : Text × Nat :=
  let user := jobcardStripOperand line USER
  let password := jobcardStripOperand user.1 PASSWORD
  (password.1, user.2 + password.2)

/-- A continuation left with nothing on it is blanked. -/
def stripContinuation (line : Text) : Text :=
  if jobcardOperandsEmpty (stripCredentials line).1 then [] else (stripCredentials line).1

/-- The lines of the card from the JOB statement to its last continuation. -/
def jobcardStripCredentials : List Text → List Text × Nat
  | [] => ([], 0)
  | line :: lines =>
    ((stripCredentials line).1 :: lines.map stripContinuation,
      ((line :: lines).map fun l => (stripCredentials l).2).sum)

/-! ## jobcard_continue -/

/-- The last comma outside apostrophes and parentheses. -/
def lastComma (inQuotes : Bool) (depth : Int) : Text → Option Nat
  | [] => none
  | c :: cs =>
    if c = '\'' then (lastComma (!inQuotes) depth cs).map (· + 1)
    else if inQuotes then (lastComma inQuotes depth cs).map (· + 1)
    else
      match lastComma inQuotes (nest depth c) cs with
      | some ii => some (ii + 1)
      | none => if c == ',' && depth == 0 then some 0 else none

def indent : Text := "//         ".toList

structure Continued where
  rc : Int
  line : Text
  moved : Option Text
deriving DecidableEq, Repr

def jobcardContinue (line : Text) (movedSize : Nat) : Continued :=
  let line := line.rdropWhile (· == ' ')
  if line = [] ∨ line.getLast? = some ',' then ⟨0, line, none⟩
  else if line.length < JOBCARD_LAST_COL then ⟨1, line ++ [','], none⟩
  else if line.length > JOBCARD_LAST_COL then ⟨-1, line, none⟩
  else
    match lastComma false 0 line with
    | none => ⟨-1, line, none⟩
    | some ii =>
      let o := line.drop (ii + 1)
      let card := indent ++ o ++ [',']
      if card.length > JOBCARD_LAST_COL ∨ card.length ≥ movedSize then ⟨-1, line, none⟩
      else ⟨2, line.take (ii + 1), some card⟩

/-! ## Finding an operand among pieces -/

/-- What the search relies on of a keyword: it is made of none of the characters that steer it, and
it starts neither a card nor the operation. -/
structure IsKeyword (k : Text) : Prop where
  ne_nil : k ≠ []
  chars : ∀ c ∈ k, c ≠ ',' ∧ c ≠ ' ' ∧ c ≠ '=' ∧ c ≠ '\''
  head : ∀ c ∈ k.head?, c ≠ '/' ∧ c ≠ 'J'

/-- What stands in front of the equals sign of an operand. -/
structure IsOperandName (k : Text) : Prop where
  ne_nil : k ≠ []
  chars : ∀ c ∈ k, c ≠ ',' ∧ c ≠ ' ' ∧ c ≠ '=' ∧ c ≠ '\''

theorem IsKeyword.name {k : Text} (h : IsKeyword k) : IsOperandName k := ⟨h.ne_nil, h.chars⟩

theorem isKeyword_user : IsKeyword USER := by
  have h : USER = ['U', 'S', 'E', 'R'] := rfl
  rw [h]
  constructor <;> simp

theorem isKeyword_password : IsKeyword PASSWORD := by
  have h : PASSWORD = ['P', 'A', 'S', 'S', 'W', 'O', 'R', 'D'] := rfl
  rw [h]
  constructor <;> simp

/-- The piece is an operand with this keyword. -/
def carries (k p : Text) : Bool := (k ++ ['=']).isPrefixOf p

/-- What may stand behind a piece: the next comma, or blanks to the end. -/
structure Stops (t : Text) : Prop where
  head : ∀ c ∈ t.head?, c = ',' ∨ c = ' '
  no_equals : (t.dropWhile (· == ' ')).head? ≠ some '='

theorem Stops.comma (t : Text) : Stops (',' :: t) := by
  constructor <;> simp

/-- What may stand behind a field: nothing, or a blank and a comment that does not name `k`. Behind
one that does not end in a comma the comment may not begin with an equals sign. -/
structure Quiet (m : Bool) (k t : Text) : Prop where
  head : ∀ c ∈ t.head?, c = ' '
  no_equals : m = false → (t.dropWhile (· == ' ')).head? ≠ some '='
  unfound : findOperandFrom k false true t = none

theorem Quiet.stops {k t : Text} (h : Quiet false k t) : Stops t :=
  ⟨fun c hc => Or.inr (h.head c hc), h.no_equals rfl⟩

theorem keywordAt_of_carries {p : Text} (h : carries k p = true) (t : Text) :
    keywordAt k (p ++ t) = true := by
  obtain ⟨v, rfl⟩ : ∃ v, k ++ ['='] ++ v = p := List.isPrefixOf_iff_prefix.mp h
  simp [keywordAt]

theorem findOperandFrom_word {k w : Text} (h : ∀ c ∈ w, c ≠ ',' ∧ c ≠ ' ' ∧ c ≠ '\'') (t : Text) :
    findOperandFrom k false false (w ++ t) =
      (findOperandFrom k false false t).map (· + w.length) := by
  induction w with
  | nil => simp
  | cons c w ih =>
    have hc := h c List.mem_cons_self
    have hsep : (c == ',' || c == ' ') = false := by simp [hc.1, hc.2.1]
    rw [List.cons_append, findOperandFrom]
    simp only [hc.2.2, if_false, Bool.false_eq_true, Bool.false_and, hsep,
      ih fun x hx => h x (List.mem_cons_of_mem _ hx)]
    simp [Function.comp_def, Nat.add_assoc]

/-- The first pieces of the field are where the search starts to look. -/
def Skips (k lead : Text) : Prop :=
  ∀ t, findOperandFrom k false true (lead ++ t) =
    (findOperandFrom k false true t).map (· + lead.length)

section Find

variable {k : Text} (hk : IsOperandName k)

include hk

theorem keywordAt_head {c : Char} {t : Text} (hc : ∀ a ∈ k.head?, a ≠ c) :
    keywordAt k (c :: t) = false := by
  obtain ⟨a, as, rfl⟩ := List.exists_cons_of_ne_nil hk.ne_nil
  have : a ≠ c := hc a (by simp)
  simp [keywordAt, List.isPrefixOf, this]

theorem keywordAt_separator {c : Char} {t : Text} (hc : c = ',' ∨ c = ' ') :
    keywordAt k (c :: t) = false := by
  apply keywordAt_head hk
  intro a ha
  have := hk.chars a (List.mem_of_mem_head? ha)
  rcases hc with rfl | rfl
  · exact this.1
  · exact this.2.1

theorem free_behind {v : Text} (h : free [',', ' '] false (k ++ v) = true) :
    free [',', ' '] false v = true := by
  have hchars := hk.chars
  clear hk
  induction k with
  | nil => simpa using h
  | cons c cs ih =>
    have hc := hchars c List.mem_cons_self
    simp only [List.cons_append, free, if_neg hc.2.2.2, Bool.and_eq_true] at h
    exact ih h.2 fun x hx => hchars x (List.mem_cons_of_mem _ hx)

/-- The keyword does not stand at a piece that does not carry it, unless the piece is the keyword
and its equals sign stands apart. -/
theorem keywordAt_apart {p t : Text} (hp : free [',', ' '] false p = true)
    (h : carries k p = false) (ht : ∀ c ∈ t.head?, c = ',' ∨ c = ' ')
    (hapart : p = k → (t.dropWhile (· == ' ')).head? ≠ some '=') : keywordAt k (p ++ t) = false := by
  by_contra hat
  simp only [keywordAt, Bool.not_eq_false, Bool.and_eq_true, beq_iff_eq,
    List.isPrefixOf_iff_prefix] at hat
  obtain ⟨⟨v, hv⟩, heq⟩ := hat
  rcases List.append_eq_append_iff.mp hv with ⟨w, rfl, hw⟩ | ⟨w, rfl, hw⟩
  · have hw' := free_behind hk hp
    rw [List.append_assoc, List.drop_left] at heq
    cases w with
    | nil => exact hapart (by simp) (by simpa using heq)
    | cons c cs =>
      have hc : c ≠ ' ' := by
        rintro rfl
        simp [free] at hw'
      obtain rfl : c = '=' := by simpa [hc] using heq
      have : carries k (k ++ '=' :: cs) = true := List.isPrefixOf_iff_prefix.mpr ⟨cs, by simp⟩
      rw [this] at h
      contradiction
  · cases w with
    | nil =>
      simp only [List.append_nil, List.nil_append] at *
      subst hw
      rw [List.drop_left] at heq
      exact hapart trivial heq
    | cons c cs =>
      have hc := hk.chars c (by simp)
      have := ht c (by simp [hw])
      rcases this with rfl | rfl
      · exact hc.1 rfl
      · exact hc.2.1 rfl

/-- At a comma, a blank or the end it does not matter whether an operand could start here. -/
theorem findOperandFrom_stops {t : Text} (ht : ∀ c ∈ t.head?, c = ',' ∨ c = ' ') (a : Bool) :
    findOperandFrom k false a t = findOperandFrom k false true t := by
  cases t with
  | nil => rfl
  | cons c t =>
    have hc := ht c (by simp)
    have hq : c ≠ '\'' := by rcases hc with rfl | rfl <;> decide
    simp [findOperandFrom, hq, keywordAt_separator hk hc]

/-- A piece where the keyword does not stand is passed over. -/
theorem findOperandFrom_over {p t : Text} (hp : isPiece false p = true)
    (hat : keywordAt k (p ++ t) = false) (ht : ∀ c ∈ t.head?, c = ',' ∨ c = ' ') :
    findOperandFrom k false true (p ++ t) = (findOperandFrom k false true t).map (· + p.length) := by
  have general : ∀ (p : Text) (q a : Bool), isPiece q p = true →
      (a = true → q = false → keywordAt k (p ++ t) = false) →
      findOperandFrom k q a (p ++ t) = (findOperandFrom k false true t).map (· + p.length) := by
    intro p
    induction p with
    | nil =>
      intro q a hp _
      obtain rfl : q = false := by simpa [isPiece] using hp
      simpa using findOperandFrom_stops hk ht a
    | cons c cs ih =>
      intro q a hp hat
      by_cases hc : c = '\''
      · have hp' : isPiece (!q) cs = true := by simpa [isPiece, hc] using hp
        simp [findOperandFrom, hc, ih (!q) false hp' (by simp), Function.comp_def, Nat.add_assoc]
      · have hp' : isPiece q cs = true := by
          simp only [isPiece, hc, if_false, Bool.and_eq_true] at hp
          exact hp.2
        cases q with
        | true => simp [findOperandFrom, hc, ih true a hp' (by simp), Function.comp_def,
            Nat.add_assoc]
        | false =>
          have hsep : (c == ',' || c == ' ') = false := by
            simp only [isPiece, hc, if_false, Bool.and_eq_true] at hp
            simpa using hp.1
          have hnot : (a && keywordAt k (c :: (cs ++ t))) = false := by
            cases a
            · rfl
            · simpa using hat rfl rfl
          simp only [List.cons_append, findOperandFrom, hc, if_false, Bool.false_eq_true, hnot, hsep,
            ih false false hp' (by simp), Option.map_map, Function.comp_def, List.length_cons,
            Nat.add_assoc]
  exact general p false true hp fun _ _ => hat

/-- So is one that is not the operand. -/
theorem findOperandFrom_piece {p t : Text} (hp : isPiece false p = true)
    (h : carries k p = false) (ht : Stops t) :
    findOperandFrom k false true (p ++ t) = (findOperandFrom k false true t).map (· + p.length) :=
  findOperandFrom_over hk hp
    (keywordAt_apart hk (isPiece_iff.mp hp).1 h ht.head fun _ => ht.no_equals) ht.head

/-- So are pieces between commas. -/
theorem findOperandFrom_render {as : List Text} (hp : ∀ p ∈ as, isPiece false p = true)
    (h : ∀ p ∈ as, carries k p = false) (t : Text) :
    findOperandFrom k false true (render true as ++ t) =
      (findOperandFrom k false true t).map (· + (render true as).length) := by
  induction as with
  | nil => simp
  | cons p as ih =>
    have hcomma : findOperandFrom k false true (',' :: (render true as ++ t)) =
        (findOperandFrom k false true (render true as ++ t)).map (· + 1) := by
      have := keywordAt_separator hk (t := render true as ++ t) (Or.inl rfl)
      simp [findOperandFrom, this]
    rw [render_true_cons, List.append_assoc, List.cons_append,
      findOperandFrom_piece hk (hp p List.mem_cons_self) (h p List.mem_cons_self) (Stops.comma _),
      hcomma, ih (fun x hx => hp x (List.mem_cons_of_mem _ hx))
        fun x hx => h x (List.mem_cons_of_mem _ hx)]
    simp only [Option.map_map, Function.comp_def, List.length_append, List.length_cons]
    congr 1
    funext x
    omega

theorem findOperandFrom_blanks (n : Nat) (a : Bool) (t : Text) :
    findOperandFrom k false a (List.replicate (n + 1) ' ' ++ t) =
      (findOperandFrom k false true t).map (· + (n + 1)) := by
  have hone : ∀ a s, findOperandFrom k false a (' ' :: s) =
      (findOperandFrom k false true s).map (· + 1) := by
    intro a s
    simp [findOperandFrom, keywordAt_separator hk (t := s) (Or.inr rfl)]
  induction n generalizing a with
  | zero => simpa using hone a t
  | succ n ih =>
    rw [List.replicate_succ, List.cons_append, hone, ih]
    simp [Function.comp_def, Nat.add_assoc]

theorem findOperandFrom_carries {p : Text} (h : carries k p = true) (t : Text) :
    findOperandFrom k false true (p ++ t) = some 0 := by
  have hat := keywordAt_of_carries h t
  obtain ⟨a, as, hak⟩ := List.exists_cons_of_ne_nil hk.ne_nil
  obtain ⟨v, rfl⟩ : ∃ v, k ++ ['='] ++ v = p := List.isPrefixOf_iff_prefix.mp h
  have ha : a ≠ '\'' := (hk.chars a (by simp [hak])).2.2.2
  subst hak
  simp only [List.cons_append] at hat ⊢
  rw [findOperandFrom, if_neg ha, hat]
  rfl

theorem jobcardFindOperand_eq (line : Text) :
    jobcardFindOperand line k = findOperandFrom k false true line := by
  rw [jobcardFindOperand, if_neg hk.ne_nil]

variable {lead : Text} (hs : Skips k lead)

include hs

/-- Without the operand among the pieces the search finds nothing. -/
theorem find_render_none {ps : List Text} (hp : ∀ p ∈ ps, isPiece false p = true)
    (h : ∀ p ∈ ps, carries k p = false) (m : Bool) {t : Text} (ht : Quiet m k t) :
    jobcardFindOperand (lead ++ (render m ps ++ t)) k = none := by
  rw [jobcardFindOperand_eq hk, hs]
  cases m with
  | true => simp [findOperandFrom_render hk hp h, ht.unfound]
  | false =>
    rcases List.eq_nil_or_concat ps with rfl | ⟨as, a, rfl⟩
    · simpa using ht.unfound
    · simp only [List.concat_eq_append, List.mem_append, List.mem_singleton] at hp h ⊢
      rw [render_append false as (by simp), List.append_assoc,
        findOperandFrom_render hk (fun p h' => hp p (Or.inl h')) fun p h' => h p (Or.inl h')]
      simp [findOperandFrom_piece hk (hp a (Or.inr rfl)) (h a (Or.inr rfl)) ht.stops, ht.unfound]

/-- The first piece with the operand is where it finds it. -/
theorem find_render_some {as bs : List Text} {c : Text} (hp : ∀ p ∈ as, isPiece false p = true)
    (h : ∀ p ∈ as, carries k p = false) (hc : carries k c = true) (m : Bool) (t : Text) :
    jobcardFindOperand (lead ++ (render m (as ++ c :: bs) ++ t)) k =
      some (lead ++ render true as).length := by
  have hcons : ∃ s, render m (c :: bs) = c ++ s := by
    cases bs with
    | nil => cases m <;> simp
    | cons b bs => exact ⟨_, rfl⟩
  obtain ⟨s, hs'⟩ := hcons
  rw [jobcardFindOperand_eq hk, hs, render_append m as (by simp), hs', List.append_assoc,
    List.append_assoc, findOperandFrom_render hk hp h, findOperandFrom_carries hk hc]
  simp [Nat.add_comm]

end Find

theorem skips_indent {k lead : Text} (hk : IsKeyword k) (h : IsIndent lead) : Skips k lead := by
  obtain ⟨n, hn, -, rfl⟩ := h
  obtain ⟨n, rfl⟩ := Nat.exists_eq_add_of_le' hn
  intro t
  have hslash := keywordAt_head hk.name (c := '/') (t := '/' :: (List.replicate (n + 1) ' ' ++ t))
    fun a ha => (hk.head a ha).1
  have hword := findOperandFrom_word (k := k) (w := ['/']) (by simp) (List.replicate (n + 1) ' ' ++ t)
  simp only [List.singleton_append, List.length_singleton] at hword
  simp only [String.reduceToList, List.cons_append, List.nil_append]
  rw [findOperandFrom]
  simp only [hslash, Bool.and_false, Bool.false_eq_true, if_false, Char.reduceEq, Char.reduceBEq,
    Bool.or_self, hword, findOperandFrom_blanks hk.name]
  simp [Function.comp_def, Nat.add_assoc]

theorem skips_head {k name lead : Text} (hk : IsKeyword k) (h : IsHead name "JOB".toList lead)
    (hn : isName name = true) : Skips k lead := by
  obtain ⟨m, n, rfl⟩ := h.eq
  intro t
  have hname : ∀ c ∈ '/' :: name, c ≠ ',' ∧ c ≠ ' ' ∧ c ≠ '\'' := by
    intro c hc
    rcases List.mem_cons.mp hc with rfl | hc
    · simp
    · simp only [isName, Bool.and_eq_true, List.all_eq_true] at hn
      have := hn.1.2 c hc
      refine ⟨?_, h.name_chars c hc, ?_⟩
      · rintro rfl
        simp [isNameChar] at this
      · rintro rfl
        simp [isNameChar] at this
  have hj := keywordAt_head hk.name (c := 'J') (t := 'O' :: 'B' :: (List.replicate (n + 1) ' ' ++ t))
    fun a ha => (hk.head a ha).2
  have hword := findOperandFrom_word (k := k) (w := ['O', 'B']) (by simp)
    (List.replicate (n + 1) ' ' ++ t)
  have hjob : findOperandFrom k false true ('J' :: 'O' :: 'B' :: (List.replicate (n + 1) ' ' ++ t)) =
      (findOperandFrom k false true t).map (· + (n + 4)) := by
    simp only [List.cons_append, List.nil_append] at hword
    rw [findOperandFrom]
    simp only [hj, Bool.and_false, Bool.false_eq_true, if_false, Char.reduceEq, Char.reduceBEq,
      Bool.or_self, hword, findOperandFrom_blanks hk.name]
    simp [Function.comp_def, Nat.add_assoc]
  have hslash := keywordAt_head hk.name (c := '/') (t := '/' :: (name ++ (List.replicate (m + 1) ' ' ++
    ('J' :: 'O' :: 'B' :: (List.replicate (n + 1) ' ' ++ t))))) fun a ha => (hk.head a ha).1
  have hlead := findOperandFrom_word (k := k) hname (List.replicate (m + 1) ' ' ++
    ('J' :: 'O' :: 'B' :: (List.replicate (n + 1) ' ' ++ t)))
  simp only [List.cons_append] at hlead
  simp only [String.reduceToList, List.cons_append, List.nil_append, List.append_assoc]
  rw [findOperandFrom]
  simp only [hslash, Bool.and_false, Bool.false_eq_true, if_false, Char.reduceEq, Char.reduceBEq,
    Bool.or_self, hlead, findOperandFrom_blanks hk.name, hjob, Option.map_map, Function.comp_def,
    List.length_cons, List.length_append, List.length_replicate]
  congr 1
  funext x
  omega

/-! ## Stripping an operand off a card -/

/-- The value of the operand is made of what the code takes a value to be made of. -/
def bare (p : Text) : Bool := p.all fun c => c != ',' && c != ' '

/-- Where the code takes the value of an operand to end. -/
theorem operand_end {k c t : Text} (hk : IsOperandName k) (hc : carries k c = true)
    (hb : bare c = true) (ht : ∀ a ∈ t.head?, a = ',' ∨ a = ' ') (x : Text) :
    ((((x ++ (c ++ t)).drop x.length).dropWhile (· != '=')).drop 1).dropWhile
      (fun c => c != ',' && c != ' ') = t := by
  obtain ⟨v, rfl⟩ : ∃ v, k ++ ['='] ++ v = c := List.isPrefixOf_iff_prefix.mp hc
  have hkey : (k ++ ['='] ++ v ++ t).dropWhile (· != '=') = '=' :: (v ++ t) := by
    rw [List.append_assoc, List.append_assoc, List.dropWhile_append_of_pos]
    · simp
    · intro a ha
      simpa using (hk.chars a ha).2.2.1
  rw [List.drop_left, hkey, List.drop_one, List.tail_cons, List.dropWhile_append_of_pos]
  · cases t with
    | nil => rfl
    | cons a t =>
      rcases ht a (by simp) with rfl | rfl <;> simp
  · intro a ha
    simp only [bare, List.all_append, Bool.and_eq_true, List.all_eq_true] at hb
    simpa using hb.2 a ha

/-- An operand with another behind it goes with the comma between them. -/
theorem removeOperand_comma {k c : Text} (hk : IsOperandName k) (hc : carries k c = true)
    (hb : bare c = true) (x t : Text) :
    removeOperand (x ++ (c ++ ',' :: t)) x.length = x ++ t := by
  simp only [removeOperand, operand_end hk hc hb (t := ',' :: t) (by simp), List.take_left]

/-- The last operand of a field goes with the comma in front of it. -/
theorem removeOperand_last {k c t : Text} (hk : IsOperandName k) (hc : carries k c = true)
    (hb : bare c = true) (ht : ∀ a ∈ t.head?, a = ' ') (x : Text) :
    removeOperand (x ++ (c ++ t)) x.length =
      (if x.getLast? = some ',' then x.dropLast else x) ++ t := by
  simp only [removeOperand, operand_end hk hc hb fun a ha => Or.inr (ht a ha), List.take_left]
  cases t with
  | nil => rfl
  | cons a t =>
    obtain rfl : a = ' ' := ht a rfl
    rfl

/-- **Removing one operand.** The card keeps every other piece, and ends in a comma if it did. -/
theorem removeOperand_render {k lead c t : Text} {as bs : List Text} (hk : IsOperandName k)
    (hl : lead.getLast? ≠ some ',') (hc : carries k c = true) (hb : bare c = true) (m : Bool)
    (ht : ∀ a ∈ t.head?, a = ' ') :
    removeOperand (lead ++ (render m (as ++ c :: bs) ++ t)) (lead ++ render true as).length =
      lead ++ (render m (as ++ bs) ++ t) := by
  rw [render_append m as (by simp)]
  cases bs with
  | cons b bs =>
    have := removeOperand_comma hk hc hb (lead ++ render true as) (render m (b :: bs) ++ t)
    rw [render_cons m c (by simp), render_append m as (by simp)]
    simpa using this
  | nil =>
    cases m with
    | true =>
      have := removeOperand_comma hk hc hb (lead ++ render true as) t
      simpa using this
    | false =>
      have := removeOperand_last hk hc hb ht (lead ++ render true as)
      rcases List.eq_nil_or_concat as with rfl | ⟨as, a, rfl⟩
      · simpa [hl] using this
      · have hmore := @render_more (as ++ [a]) true (by simp)
        simp only [List.concat_eq_append, render_singleton, Bool.false_eq_true, if_false,
          List.append_nil] at this ⊢
        rw [hmore] at this ⊢
        simpa using this

/-- Each round takes at least the equals sign away. -/
theorem length_removeOperand {line : Text} {start : Nat} (h : '=' ∈ line.drop start) :
    (removeOperand line start).length < line.length := by
  have hvalue : (((line.drop start).dropWhile (· != '=')).drop 1).length + start < line.length := by
    have hne : (line.drop start).dropWhile (· != '=') ≠ [] := by
      intro hnil
      have := List.dropWhile_eq_nil_iff.mp hnil '=' h
      simp at this
    have hpos := List.length_pos_of_ne_nil hne
    have hle := (List.dropWhile_sublist (l := line.drop start) (· != '=')).length_le
    rw [List.length_drop] at hle ⊢
    omega
  have hbefore : (line.take start).length ≤ start := by
    rw [List.length_take]
    omega
  have hle := (List.dropWhile_sublist (l := ((line.drop start).dropWhile (· != '=')).drop 1)
    (fun c => c != ',' && c != ' ')).length_le
  unfold removeOperand
  simp only
  split
  next rest hrest =>
    rw [hrest, List.length_cons] at hle
    rw [List.length_append]
    omega
  next =>
    rw [List.length_append]
    split
    · rw [List.length_dropLast]
      omega
    · omega

theorem length_filter_le_render (f : Text → Bool) (hf : ∀ p, f p = true → p ≠ []) (m : Bool)
    (ps : List Text) : (ps.filter f).length ≤ (render m ps).length := by
  induction ps with
  | nil => simp
  | cons p ps ih =>
    have hlen : ps.length = 0 ∨ (render m (p :: ps)).length = p.length + 1 + (render m ps).length := by
      cases ps with
      | nil => exact Or.inl rfl
      | cons p' ps =>
        right
        rw [render_cons m p (by simp)]
        simp [Nat.add_assoc, Nat.add_comm 1]
    have hone : (List.filter f (p :: ps)).length ≤ 1 + (ps.filter f).length := by
      rw [List.filter_cons]
      split
      · simp [Nat.add_comm]
      · omega
    rcases hlen with h0 | h
    · obtain rfl : ps = [] := List.eq_nil_of_length_eq_zero h0
      by_cases hp : f p = true
      · have := List.length_pos_of_ne_nil (hf p hp)
        cases m <;> simp [hp]
        omega
      · simp [hp]
    · omega

/-- **Stripping an operand.** Exactly the pieces that carry the keyword go. -/
theorem jobcardStripOperand_render {k lead : Text} {ps : List Text} (hk : IsOperandName k)
    (hs : Skips k lead) (hl : lead.getLast? = some ' ') (hp : ∀ p ∈ ps, isPiece false p = true)
    (hb : ∀ p ∈ ps, carries k p = true → bare p = true) (m : Bool) {t : Text}
    (ht : Quiet m k t) :
    jobcardStripOperand (lead ++ (render m ps ++ t)) k =
      (lead ++ (render m (ps.filter (!carries k ·)) ++ t),
        (ps.filter (carries k)).length) := by
  have hne : ∀ p, carries k p = true → p ≠ [] := by
    rintro p h rfl
    obtain ⟨v, hv⟩ : ∃ v, k ++ ['='] ++ v = [] := List.isPrefixOf_iff_prefix.mp h
    simp at hv
  have general : ∀ (j fuel : Nat) (ps : List Text), (ps.filter (carries k)).length = j → j ≤ fuel →
      (∀ p ∈ ps, isPiece false p = true) → (∀ p ∈ ps, carries k p = true → bare p = true) →
      stripOperandLoop k fuel (lead ++ (render m ps ++ t)) =
        (lead ++ (render m (ps.filter (!carries k ·)) ++ t), j) := by
    have hcomma : lead.getLast? ≠ some ',' := by simp [hl]
    intro j
    induction j with
    | zero =>
      intro fuel ps hj _ hp _
      have hno : ∀ p ∈ ps, carries k p = false := by
        simpa using List.eq_nil_of_length_eq_zero hj
      have hall : ps.filter (!carries k ·) = ps := by
        apply List.filter_eq_self.mpr
        simpa using hno
      rw [hall]
      cases fuel with
      | zero => rfl
      | succ fuel => rw [stripOperandLoop, find_render_none hk hs hp hno m ht]
    | succ j ih =>
      intro fuel ps hj hfuel hp hb
      obtain ⟨fuel, rfl⟩ := Nat.exists_eq_add_of_le' hfuel
      obtain ⟨c, cs, hcs⟩ := List.exists_cons_of_length_eq_add_one hj
      obtain ⟨as, bs, rfl, has, hc, hbs⟩ := List.filter_eq_cons_iff.mp hcs
      have hno : ∀ p ∈ as, carries k p = false := by simpa using has
      have hfil : (as ++ c :: bs).filter (!carries k ·) = (as ++ bs).filter (!carries k ·) := by
        simp [hc]
      have hj' : ((as ++ bs).filter (carries k)).length = j := by
        rw [List.filter_append, List.filter_eq_nil_iff.mpr (by simpa using hno), hbs,
          List.nil_append]
        rw [hcs] at hj
        simpa using hj
      have hsub : ∀ p ∈ as ++ bs, p ∈ as ++ c :: bs := by
        intro p
        simp only [List.mem_append, List.mem_cons]
        rintro (h | h)
        · exact Or.inl h
        · exact Or.inr (Or.inr h)
      rw [← Nat.add_assoc, stripOperandLoop,
        find_render_some hk hs (fun p h => hp p (by simp [h])) hno hc]
      simp only [removeOperand_render hk hcomma hc (hb c (by simp) hc) m ht.head]
      rw [ih _ _ hj' (by omega) (fun p h => hp p (hsub p h)) (fun p h => hb p (hsub p h)), hfil]
  apply general _ _ _ rfl _ hp hb
  have := length_filter_le_render (carries k) hne m ps
  simp only [List.length_append]
  omega

end Mvsmf
