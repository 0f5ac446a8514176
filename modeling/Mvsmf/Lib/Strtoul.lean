import Mathlib

/-!
# `strtoul`, `strtol`, `strstr` and strings

The C library's number scan over a string of characters, as the standard describes it: white space
is skipped, a sign and (base 16) a `0x` are taken, digits are read as far as they go, a value past
`ULONG_MAX` is held at `ULONG_MAX`, and a minus sign negates as unsigned. The result is the value
and the end pointer, here the characters not read; without a digit that is the whole string.
`long` has 32 bits.
-/

namespace CLib

def ULONG_MAX : Nat := 0xFFFFFFFF

def isspace (c : Char) : Bool :=
  c == ' ' || c == '\t' || c == '\n' || c == '\x0b' || c == '\x0c' || c == '\r'

/-- The value of `c` as a digit, `'a'` and `'A'` being 10. -/
def digitVal (c : Char) : Option Nat :=
  if '0' ≤ c ∧ c ≤ '9' then some (c.toNat - 48)
  else if 'a' ≤ c ∧ c ≤ 'z' then some (c.toNat - 87)
  else if 'A' ≤ c ∧ c ≤ 'Z' then some (c.toNat - 55)
  else none

/-- `c` is a digit of the base. -/
def isDigit (base : Nat) (c : Char) : Bool :=
  match digitVal c with
  | some d => decide (d < base)
  | none => false

def numeral (base : Nat) (ds : List Char) : Nat :=
  ds.foldl (fun v c => v * base + (digitVal c).getD 0) 0

/-- The sign, if there is one: whether it is a minus, and what is behind it. -/
def sign : List Char → Bool × List Char
  | '-' :: s => (true, s)
  | '+' :: s => (false, s)
  | s => (false, s)

/-- The `0x` of a hexadecimal number, taken only in front of a digit. -/
def hexPrefix (base : Nat) : List Char → List Char
  | '0' :: x :: d :: s =>
    if base = 16 ∧ (x = 'x' ∨ x = 'X') ∧ isDigit 16 d then d :: s else '0' :: x :: d :: s
  | s => s

def strtoul (base : Nat) (s : List Char) : Nat × List Char :=
  let (neg, t) := sign (s.dropWhile isspace)
  let u := hexPrefix base t
  let ds := u.takeWhile (isDigit base)
  if ds = [] then (0, s)
  else
    let v := numeral base ds
    let r := if v > ULONG_MAX then ULONG_MAX
      else if neg then (ULONG_MAX + 1 - v) % (ULONG_MAX + 1) else v
    (r, u.dropWhile (isDigit base))

def LONG_MAX : Int := 0x7FFFFFFF

/-- The signed scan in base 10: a value past either end of `long` is held there. -/
def strtol (s : List Char) : Int × List Char :=
  let (neg, t) := sign (s.dropWhile isspace)
  let ds := t.takeWhile (isDigit 10)
  if ds = [] then (0, s)
  else
    let v : Int := numeral 10 ds
    (if neg then max (-LONG_MAX - 1) (-v) else min LONG_MAX v, t.dropWhile (isDigit 10))

/-- `strstr(hay, needle) != NULL`. -/
def strstr (needle : List Char) : List Char → Bool
  | [] => needle.isEmpty
  | c :: hay => needle.isPrefixOf (c :: hay) || strstr needle hay

theorem strstr_iff_infix {needle hay : List Char} :
    strstr needle hay = true ↔ needle <:+: hay := by
  induction hay with
  | nil => rw [strstr, List.isEmpty_iff, List.infix_nil]
  | cons c hay ih =>
    rw [strstr, Bool.or_eq_true, List.isPrefixOf_iff_prefix, ih, List.infix_cons_iff]

/-- `strstr(hay, needle)`, with the text from the place on. -/
def strstrAt (needle : List Char) : List Char → Option (List Char)
  | [] => if needle = [] then some [] else none
  | c :: hay => if needle <+: c :: hay then some (c :: hay) else strstrAt needle hay

theorem strstrAt_prefix {needle hay place : List Char} (h : strstrAt needle hay = some place) :
    needle <+: place := by
  induction hay with
  | nil =>
    obtain ⟨rfl, heq⟩ := Option.ite_none_right_eq_some.mp h
    exact List.nil_prefix
  | cons c hay ih =>
    rw [strstrAt] at h
    split at h
    · next hc =>
      cases h
      exact hc
    · exact ih h

theorem strstrAt_suffix {needle hay place : List Char} (h : strstrAt needle hay = some place) :
    place <:+ hay := by
  induction hay with
  | nil =>
    obtain ⟨-, heq⟩ := Option.ite_none_right_eq_some.mp h
    cases heq
    exact List.suffix_rfl
  | cons c hay ih =>
    rw [strstrAt] at h
    split at h
    · cases h
      exact List.suffix_rfl
    · exact (ih h).trans (List.suffix_cons c hay)

/-- A string in a `char` buffer ends at its first NUL. -/
def cString (buffer : List Char) : List Char := buffer.takeWhile (· != '\x00')

theorem cString_prefix (s : List Char) : cString s <+: s := List.takeWhile_prefix _

theorem cString_eq_self_iff {s : List Char} : cString s = s ↔ '\x00' ∉ s := by
  rw [cString, List.takeWhile_eq_self_iff]
  constructor
  · intro h hmem
    simpa using h _ hmem
  · intro h c hc
    have hne : c ≠ '\x00' := by
      rintro rfl
      exact h hc
    simpa using hne

/-! ## Plain numerals -/

theorem isDigit_cases {base : Nat} {c : Char} (h : isDigit base c = true) :
    ∃ d, digitVal c = some d ∧ d < base := by
  unfold isDigit at h
  split at h
  · next d hd => exact ⟨d, hd, of_decide_eq_true h⟩
  · cases h

theorem digitVal_none_of_isspace {c : Char} (h : isspace c = true) : digitVal c = none := by
  simp only [isspace, Bool.or_eq_true, beq_iff_eq] at h
  rcases h with ((((h | h) | h) | h) | h) | h <;> subst h <;> decide

theorem isspace_of_isDigit {base : Nat} {c : Char} (h : isDigit base c = true) :
    isspace c = false := by
  obtain ⟨d, hd, -⟩ := isDigit_cases h
  by_contra hs
  rw [digitVal_none_of_isspace (by simpa using hs)] at hd
  cases hd

theorem sign_of_isDigit {base : Nat} {c : Char} {s : List Char} (h : isDigit base c = true) :
    sign (c :: s) = (false, c :: s) := by
  obtain ⟨d, hd, -⟩ := isDigit_cases h
  unfold sign
  split
  · next heq => cases heq; cases (show digitVal '-' = none from rfl).symm.trans hd
  · next heq => cases heq; cases (show digitVal '+' = none from rfl).symm.trans hd
  · rfl

theorem hexPrefix_of_isDigit {base : Nat} {ds rest : List Char}
    (hd : ∀ c ∈ ds, isDigit base c = true) (h0 : ds ≠ [])
    (hr : ∀ c ∈ rest.head?, c ≠ 'x' ∧ c ≠ 'X') (hb : base ≤ 16) :
    hexPrefix base (ds ++ rest) = ds ++ rest := by
  obtain ⟨a, ds, rfl⟩ := List.exists_cons_of_ne_nil h0
  have hx : ∀ c ∈ (ds ++ rest).head?, c ≠ 'x' ∧ c ≠ 'X' := by
    cases ds with
    | nil => simpa using hr
    | cons b ds =>
      intro c hc
      have : c = b := by simpa using hc.symm
      subst this
      obtain ⟨d, hv, hlt⟩ := isDigit_cases (hd c (by simp))
      constructor <;> rintro rfl
      · have : d = 33 := (Option.some.inj (hv.symm.trans (by decide)))
        omega
      · have : d = 33 := (Option.some.inj (hv.symm.trans (by decide)))
        omega
  rw [List.cons_append]
  unfold hexPrefix
  split
  · next x e s heq =>
    rw [List.cons.injEq] at heq
    rw [heq.2, List.head?_cons] at hx
    rw [if_neg (fun hc => (hc.2.1).elim (hx x rfl).1 (hx x rfl).2), heq.1, heq.2]
  · rfl

theorem takeWhile_digits {base : Nat} {ds rest : List Char}
    (hd : ∀ c ∈ ds, isDigit base c = true) (hr : ∀ c ∈ rest.head?, isDigit base c = false) :
    (ds ++ rest).takeWhile (isDigit base) = ds ∧ (ds ++ rest).dropWhile (isDigit base) = rest := by
  have h1 : rest.takeWhile (isDigit base) = [] ∧ rest.dropWhile (isDigit base) = rest := by
    cases rest with
    | nil => exact ⟨rfl, rfl⟩
    | cons c rest =>
      have := hr c rfl
      simp [this]
  constructor
  · rw [List.takeWhile_append_of_pos hd, h1.1, List.append_nil]
  · rw [List.dropWhile_append_of_pos hd, h1.2]

/-- A string that starts with digits is read as these digits. -/
theorem strtoul_digits {base : Nat} {ds rest : List Char} (h0 : ds ≠ [])
    (hd : ∀ c ∈ ds, isDigit base c = true) (hr : ∀ c ∈ rest.head?, isDigit base c = false)
    (hx : ∀ c ∈ rest.head?, c ≠ 'x' ∧ c ≠ 'X') (hb : base ≤ 16) :
    strtoul base (ds ++ rest) = (min (numeral base ds) ULONG_MAX, rest) := by
  obtain ⟨a, ds', rfl⟩ := List.exists_cons_of_ne_nil h0
  have ha := hd a List.mem_cons_self
  unfold strtoul
  have hsp : List.dropWhile isspace (a :: ds' ++ rest) = a :: ds' ++ rest := by
    rw [List.cons_append, List.dropWhile_cons_of_neg (by simp [isspace_of_isDigit ha])]
  rw [hsp, show sign (a :: ds' ++ rest) = (false, a :: ds' ++ rest) from sign_of_isDigit ha]
  simp only
  rw [hexPrefix_of_isDigit hd h0 hx hb, (takeWhile_digits hd hr).1, (takeWhile_digits hd hr).2,
    if_neg h0]
  simp only [Bool.false_eq_true, if_false]
  congr 1
  split <;> omega

/-- White space in front does not change the value. -/
theorem strtoul_spaces (base : Nat) {sp : List Char} (h : ∀ c ∈ sp, isspace c = true)
    (s : List Char) : (strtoul base (sp ++ s)).1 = (strtoul base s).1 := by
  unfold strtoul
  rw [List.dropWhile_append_of_pos h]
  simp only
  split <;> rfl

@[simp] theorem strtoul_nil (base : Nat) : strtoul base [] = (0, []) := rfl

end CLib
