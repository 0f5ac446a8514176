import Mathlib

/-!
# JSON texts

A JSON text is read a character at a time, with the containers that are open on a stack; so the text
in front of a place says all about what may come there. A string is its sequence of code units.
-/

namespace Json

/-- A JSON value; a number is `mantissa * 10 ^ exponent`. -/
inductive Value
  | null
  | bool (b : Bool)
  | num (mantissa exponent : Int)
  | str (units : List Nat)
  | arr (vs : List Value)
  | obj (ms : List (List Nat × Value))

/-- The code units of a text. -/
def units (cs : List Char) : List Nat := cs.map Char.toNat

/-! ## Numbers and names -/

/-- A number of digits. -/
def digits (cs : List Char) : Option Nat :=
  if cs = [] ∨ ¬ cs.all Char.isDigit then none else some (Nat.ofDigitChars 10 cs 0)

/-- The digits of a fraction, and the text behind it. -/
def fraction : List Char → Option (List Char × List Char)
  | '.' :: cs =>
    let fs := cs.takeWhile Char.isDigit
    if fs = [] then none else some (fs, cs.dropWhile Char.isDigit)
  | cs => some ([], cs)

def exponent : List Char → Option Int
  | [] => some 0
  | e :: cs =>
    if e = 'e' ∨ e = 'E' then
      match cs with
      | '-' :: ds => (digits ds).map fun n => -(n : Int)
      | '+' :: ds => (digits ds).map Int.ofNat
      | ds => (digits ds).map Int.ofNat
    else none

/-- A number without its sign. -/
def unsigned (cs : List Char) : Option (Nat × Int) :=
  let ds := cs.takeWhile Char.isDigit
  if ds = [] ∨ (ds.head? = some '0' ∧ ds.length ≠ 1) then none
  else
    (fraction (cs.dropWhile Char.isDigit)).bind fun (fs, r) =>
      (exponent r).map fun e => (Nat.ofDigitChars 10 (ds ++ fs) 0, e - fs.length)

def number : List Char → Option Value
  | '-' :: cs => (unsigned cs).map fun (m, e) => .num (-(m : Int)) e
  | cs => (unsigned cs).map fun (m, e) => .num m e

/-- The value that is written without quotes and brackets. -/
def scalar (cs : List Char) : Option Value :=
  if cs = ['n', 'u', 'l', 'l'] then some .null
  else if cs = ['t', 'r', 'u', 'e'] then some (.bool true)
  else if cs = ['f', 'a', 'l', 's', 'e'] then some (.bool false)
  else number cs

/-! ## Reading -/

/-- A container that is open, or the document itself. A member's name stands in `key` until its
value is read. -/
inductive Frame
  | doc (v : Option Value)
  | arr (vs : List Value)
  | obj (ms : List (List Nat × Value)) (key : Option (List Nat))

/-- A value put into the innermost container. -/
def put : List Frame → Value → List Frame
  | .doc none :: st, v => .doc (some v) :: st
  | .arr vs :: st, v => .arr (vs ++ [v]) :: st
  | .obj ms (some k) :: st, v => .obj (ms ++ [(k, v)]) none :: st
  | st, _ => st

/-- What is due. With `first` the container may end as well. -/
inductive Mode
  | value (first : Bool)
  | key (first : Bool)
  | colon
  | after
  | chars (isKey : Bool) (us : List Nat)
  | escape (isKey : Bool) (us : List Nat)
  | code (isKey : Bool) (us : List Nat) (n left : Nat)
  | word (cs : List Char)

structure State where
  stack : List Frame
  mode : Mode

def isSpace (c : Char) : Bool := c = ' ' || c = '\t' || c = '\n' || c = '\r'

def isWord (c : Char) : Bool := c.isAlphanum || c = '-' || c = '+' || c = '.'

/-- What an escape of two characters stands for. -/
def short (e : Char) : Option Nat :=
  if e = '"' ∨ e = '\\' ∨ e = '/' then some e.toNat
  else if e = 'b' then some 8
  else if e = 'f' then some 12
  else if e = 'n' then some 10
  else if e = 'r' then some 13
  else if e = 't' then some 9
  else none

def hexDigit (c : Char) : Option Nat :=
  if '0' ≤ c ∧ c ≤ '9' then some (c.toNat - '0'.toNat)
  else if 'a' ≤ c ∧ c ≤ 'f' then some (c.toNat - 'a'.toNat + 10)
  else if 'A' ≤ c ∧ c ≤ 'F' then some (c.toNat - 'A'.toNat + 10)
  else none

def closeArr : List Frame → Option State
  | .arr vs :: st => some ⟨put st (.arr vs), .after⟩
  | _ => none

def closeObj : List Frame → Option State
  | .obj ms none :: st => some ⟨put st (.obj ms), .after⟩
  | _ => none

/-- Behind a comma. -/
def another : List Frame → Option State
  | .arr vs :: st => some ⟨.arr vs :: st, .value false⟩
  | .obj ms none :: st => some ⟨.obj ms none :: st, .key false⟩
  | _ => none

/-- Behind the closing quote of a string. -/
def quoted (st : List Frame) (us : List Nat) : Bool → Option State
  | false => some ⟨put st (.str us), .after⟩
  | true =>
    match st with
    | .obj ms none :: st => some ⟨.obj ms (some us) :: st, .colon⟩
    | _ => none

/-- A character behind a value. -/
def separator (st : List Frame) (c : Char) : Option State :=
  if isSpace c then some ⟨st, .after⟩
  else if c = ',' then another st
  else if c = ']' then closeArr st
  else if c = '}' then closeObj st
  else none

def step (s : State) (c : Char) : Option State :=
  match s.mode with
  | .value first =>
    if isSpace c then some s
    else if c = '"' then some ⟨s.stack, .chars false []⟩
    else if c = '[' then some ⟨.arr [] :: s.stack, .value true⟩
    else if c = '{' then some ⟨.obj [] none :: s.stack, .key true⟩
    else if c = ']' ∧ first then closeArr s.stack
    else if isWord c then some ⟨s.stack, .word [c]⟩
    else none
  | .key first =>
    if isSpace c then some s
    else if c = '"' then some ⟨s.stack, .chars true []⟩
    else if c = '}' ∧ first then closeObj s.stack
    else none
  | .colon =>
    if isSpace c then some s
    else if c = ':' then some ⟨s.stack, .value false⟩
    else none
  | .after => separator s.stack c
  | .chars k us =>
    if c = '"' then quoted s.stack us k
    else if c = '\\' then some ⟨s.stack, .escape k us⟩
    else if c.toNat < 32 then none
    else some ⟨s.stack, .chars k (us ++ [c.toNat])⟩
  | .escape k us =>
    if c = 'u' then some ⟨s.stack, .code k us 0 3⟩
    else (short c).map fun u => ⟨s.stack, .chars k (us ++ [u])⟩
  | .code k us n left =>
    (hexDigit c).map fun d =>
      ⟨s.stack, if left = 0 then .chars k (us ++ [16 * n + d])
        else .code k us (16 * n + d) (left - 1)⟩
  | .word cs =>
    if isWord c then some ⟨s.stack, .word (cs ++ [c])⟩
    else (scalar cs).bind fun v => separator (put s.stack v) c

def feed : State → List Char → Option State
  | s, [] => some s
  | s, c :: cs => (step s c).bind (feed · cs)

def start : State := ⟨[.doc none], .value false⟩

/-- A word ends where the text does, or a character of none comes. -/
def State.settle (s : State) : Option State :=
  match s.mode with
  | .word cs => (scalar cs).map fun v => ⟨put s.stack v, .after⟩
  | _ => some s

/-- The document, at the end of the text. -/
def finish (s : State) : Option Value :=
  s.settle.bind fun s' =>
    match s'.mode, s'.stack with
    | .after, [.doc v] => v
    | _, _ => none

/-- The value of the whole text, from a state in its middle on. -/
def read (s : State) (cs : List Char) : Option Value := (feed s cs).bind finish

/-- The value of a text; `none` if it is no JSON. -/
def parse (cs : List Char) : Option Value := read start cs

example : parse "\x7b\"a\": [1, -2.50e1, \"\\u0041\\n\"], \"b\" : \x7b\x7d \x7d".toList =
    some (.obj [(units ['a'], .arr [.num 1 0, .num (-250) (-1), .str [65, 10]]),
      (units ['b'], .obj [])]) := by
  rfl

/-! ## A text in parts -/

@[simp] theorem feed_nil (s : State) : feed s [] = some s := rfl

theorem feed_cons (s : State) (c : Char) (cs : List Char) :
    feed s (c :: cs) = (step s c).bind (feed · cs) := rfl

theorem feed_append (s : State) (xs ys : List Char) :
    feed s (xs ++ ys) = (feed s xs).bind (feed · ys) := by
  induction xs generalizing s with
  | nil => rfl
  | cons c xs ih =>
    rw [List.cons_append, feed_cons, feed_cons, Option.bind_assoc]
    exact congrArg _ (funext fun s' => ih s')

theorem read_append (s : State) (xs ys : List Char) :
    read s (xs ++ ys) = (feed s xs).bind (read · ys) := by
  rw [read, feed_append, Option.bind_assoc]
  rfl

theorem settle_settle {s s' : State} (h : s.settle = some s') : s'.settle = some s' := by
  obtain ⟨st, m⟩ := s
  cases m with
  | word cs =>
    obtain ⟨v, -, rfl⟩ := Option.map_eq_some_iff.mp h
    rfl
  | _ => obtain rfl := Option.some.inj h; rfl

theorem step_settle {s s' : State} (h : s.settle = some s') {c : Char} (hc : isWord c = false) :
    step s c = step s' c := by
  obtain ⟨st, m⟩ := s
  cases m with
  | word cs =>
    obtain ⟨v, hv, rfl⟩ := Option.map_eq_some_iff.mp h
    simp only [step, hc, hv, Bool.false_eq_true, if_false, Option.bind_some]
  | _ => obtain rfl := Option.some.inj h; rfl

theorem finish_settle {s s' : State} (h : s.settle = some s') : finish s = finish s' := by
  rw [finish, finish, h, settle_settle h]

/-- The next character ends a word. -/
def Parted (cs : List Char) : Prop := ∀ c ∈ cs.head?, isWord c = false

/-- The text leads from one state to the other, up to the end of a word. -/
def Leads (s : State) (cs : List Char) (s' : State) : Prop :=
  (feed s cs).bind State.settle = some s'

/-- Up to a state where no value has just ended, there is no word to end. -/
theorem Leads.feed_append {s s' : State} {xs ys : List Char} (h : Leads s xs s')
    (hys : s'.mode = .after → Parted ys) :
    (feed s (xs ++ ys)).bind State.settle = (feed s' ys).bind State.settle := by
  obtain ⟨s₁, h₁, hs⟩ := Option.bind_eq_some_iff.mp h
  rw [Json.feed_append, h₁, Option.bind_some]
  cases ys with
  | nil => rw [feed_nil, feed_nil, Option.bind_some, Option.bind_some, hs, settle_settle hs]
  | cons c ys =>
    obtain ⟨st, m⟩ := s₁
    cases m with
    | word cs =>
      obtain ⟨v, -, rfl⟩ := Option.map_eq_some_iff.mp hs
      rw [feed_cons, feed_cons, step_settle hs (hys rfl c rfl)]
    | _ => obtain rfl := Option.some.inj hs; rfl

theorem Leads.append {s s' s'' : State} {xs ys : List Char} (h : Leads s xs s')
    (hys : s'.mode = .after → Parted ys) (h' : Leads s' ys s'') : Leads s (xs ++ ys) s'' :=
  (h.feed_append hys).trans h'

theorem finish_settled (o : Option State) : (o.bind State.settle).bind finish = o.bind finish := by
  cases o with
  | none => rfl
  | some s =>
    rw [Option.bind_some, Option.bind_some]
    cases hs : s.settle with
    | none => rw [finish, hs]; rfl
    | some s' => rw [Option.bind_some, finish_settle hs]

theorem Leads.read_append {s s' : State} {xs ys : List Char} (h : Leads s xs s')
    (hys : s'.mode = .after → Parted ys) : read s (xs ++ ys) = read s' ys := by
  rw [read, read, ← finish_settled, h.feed_append hys, finish_settled]

/-! ## Strings -/

/-- A character that stands for itself in a string. -/
def Plain (c : Char) : Prop := c ≠ '"' ∧ c ≠ '\\' ∧ 32 ≤ c.toNat

instance : DecidablePred Plain := fun _ => inferInstanceAs (Decidable (_ ∧ _))

def hexFrom : Nat → List Char → Option Nat
  | n, [] => some n
  | n, c :: cs => (hexDigit c).bind fun d => hexFrom (16 * n + d) cs

/-- What stands between the quotes, and the string it is. -/
inductive Chars : List Char → List Nat → Prop
  | nil : Chars [] []
  | plain {c : Char} {cs : List Char} {us : List Nat} :
      Plain c → Chars cs us → Chars (c :: cs) (c.toNat :: us)
  | short {e : Char} {u : Nat} {cs : List Char} {us : List Nat} :
      Json.short e = some u → Chars cs us → Chars ('\\' :: e :: cs) (u :: us)
  | code {hs : List Char} {u : Nat} {cs : List Char} {us : List Nat} :
      hs.length = 4 → hexFrom 0 hs = some u → Chars cs us →
      Chars ('\\' :: 'u' :: (hs ++ cs)) (u :: us)

theorem Chars.of_plain {cs : List Char} (h : ∀ c ∈ cs, Plain c) : Chars cs (units cs) := by
  induction cs with
  | nil => exact .nil
  | cons c cs ih =>
    exact .plain (h c List.mem_cons_self) (ih fun d hd => h d (List.mem_cons_of_mem _ hd))

theorem Chars.append {xs ys : List Char} {us vs : List Nat} (h : Chars xs us) (h' : Chars ys vs) :
    Chars (xs ++ ys) (us ++ vs) := by
  induction h with
  | nil => exact h'
  | plain hc _ ih => exact .plain hc ih
  | short he _ ih => exact .short he ih
  | code hl hu _ ih =>
    rw [List.cons_append, List.cons_append, List.append_assoc]
    exact .code hl hu ih

theorem step_plain {c : Char} (h : Plain c) (st : List Frame) (k : Bool) (us : List Nat) :
    step ⟨st, .chars k us⟩ c = some ⟨st, .chars k (us ++ [c.toNat])⟩ := by
  obtain ⟨hq, hb, hc⟩ := h
  simp only [step, if_neg hq, if_neg hb, if_neg (Nat.not_lt.mpr hc)]

theorem step_short {e : Char} {u : Nat} (h : short e = some u) (st : List Frame) (k : Bool)
    (us : List Nat) : step ⟨st, .escape k us⟩ e = some ⟨st, .chars k (us ++ [u])⟩ := by
  have hu : e ≠ 'u' := by
    rintro rfl
    exact nomatch h
  simp only [step, if_neg hu, h, Option.map_some]

theorem feed_code {hs : List Char} : ∀ {n left u : Nat}, hs.length = left + 1 →
    hexFrom n hs = some u → ∀ (st : List Frame) (k : Bool) (us : List Nat),
      feed ⟨st, .code k us n left⟩ hs = some ⟨st, .chars k (us ++ [u])⟩ := by
  induction hs with
  | nil => exact fun hl => absurd hl (Nat.succ_ne_zero _).symm
  | cons c hs ih =>
    intro n left u hl hu st k us
    obtain ⟨d, hd, hu⟩ := Option.bind_eq_some_iff.mp hu
    simp only [feed_cons, step, hd, Option.map_some, Option.bind_some]
    cases left with
    | zero =>
      obtain rfl := List.eq_nil_of_length_eq_zero (Nat.succ.inj hl)
      obtain rfl := Option.some.inj hu
      rfl
    | succ left => exact ih (Nat.succ.inj hl) hu st k us

theorem Chars.feed {cs : List Char} {us : List Nat} (h : Chars cs us) (st : List Frame) (k : Bool)
    (acc : List Nat) : feed ⟨st, .chars k acc⟩ cs = some ⟨st, .chars k (acc ++ us)⟩ := by
  induction h generalizing acc with
  | nil => rw [feed_nil, List.append_nil]
  | plain hc _ ih =>
    rw [feed_cons, step_plain hc, Option.bind_some, ih, List.append_assoc, List.singleton_append]
  | short he _ ih =>
    change (step ⟨st, .escape k acc⟩ _).bind _ = _
    rw [step_short he, Option.bind_some, ih, List.append_assoc, List.singleton_append]
  | code hl hu _ ih =>
    change Json.feed ⟨st, .code k acc 0 3⟩ _ = _
    rw [feed_append, feed_code hl hu, Option.bind_some, ih, List.append_assoc,
      List.singleton_append]

/-- A string where a value is due. -/
theorem feed_string {cs : List Char} {us : List Nat} (h : Chars cs us) (st : List Frame) (f : Bool)
    (t : List Char) :
    feed ⟨st, .value f⟩ ('"' :: (cs ++ '"' :: t)) = feed ⟨put st (.str us), .after⟩ t := by
  rw [feed_cons]
  change feed ⟨st, .chars false []⟩ _ = _
  rw [feed_append, h.feed, Option.bind_some, List.nil_append]
  rfl

/-- A name with its colon. -/
theorem feed_key {cs : List Char} {us : List Nat} (h : Chars cs us)
    (ms : List (List Nat × Value)) (st : List Frame) (f : Bool) (t : List Char) :
    feed ⟨.obj ms none :: st, .key f⟩ ('"' :: (cs ++ '"' :: ':' :: t)) =
      feed ⟨.obj ms (some us) :: st, .value false⟩ t := by
  rw [feed_cons]
  change feed ⟨.obj ms none :: st, .chars true []⟩ _ = _
  rw [feed_append, h.feed, Option.bind_some, List.nil_append]
  rfl

/-! ## Numbers -/

/-- An integer in decimal. -/
def decimal (n : Int) : List Char :=
  if n < 0 then '-' :: Nat.toDigits 10 n.natAbs else Nat.toDigits 10 n.natAbs

theorem head_toDigits {n : Nat} (h : (Nat.toDigits 10 n).head? = some '0') : n = 0 := by
  induction n using Nat.strongRecOn with
  | ind n ih =>
    rcases Nat.lt_or_ge n 10 with hn | hn
    · rw [Nat.toDigits_of_lt_base hn] at h
      exact (show ∀ m < 10, m.digitChar = '0' → m = 0 by decide) n hn (Option.some.inj h)
    · rw [Nat.toDigits_of_base_le (by decide) hn,
        List.head?_append_of_ne_nil _ Nat.toDigits_ne_nil] at h
      have := ih (n / 10) (by omega) h
      omega

theorem unsigned_toDigits (n : Nat) : unsigned (Nat.toDigits 10 n) = some (n, 0) := by
  have hall : ∀ c ∈ Nat.toDigits 10 n, c.isDigit = true := fun c hc =>
    Nat.isDigit_of_mem_toDigits (by decide) (by decide) hc
  have hzero : ¬ ((Nat.toDigits 10 n).head? = some '0' ∧ (Nat.toDigits 10 n).length ≠ 1) := by
    rintro ⟨h, hl⟩
    rw [head_toDigits h] at hl
    exact hl rfl
  rw [unsigned, List.takeWhile_eq_self_iff.mpr hall, List.dropWhile_eq_nil_iff.mpr hall,
    if_neg (not_or.mpr ⟨Nat.toDigits_ne_nil, hzero⟩)]
  simp only [fraction, Option.bind_some, exponent, Option.map_some, List.append_nil,
    Nat.ofDigitChars_ten_toDigits, List.length_nil]
  rfl

theorem isWord_of_isDigit {c : Char} (h : c.isDigit = true) : isWord c = true := by
  simp only [isWord, Char.isAlphanum, h, Bool.or_true, Bool.true_or]

theorem decimal_word (n : Int) : ∀ c ∈ decimal n, isWord c = true := by
  have hall : ∀ c ∈ Nat.toDigits 10 n.natAbs, isWord c = true := fun c hc =>
    isWord_of_isDigit (Nat.isDigit_of_mem_toDigits (by decide) (by decide) hc)
  intro c hc
  rw [decimal] at hc
  split at hc
  · rcases List.mem_cons.mp hc with rfl | hc
    · rfl
    · exact hall c hc
  · exact hall c hc

/-- What begins with no letter is a number or nothing. -/
theorem scalar_eq_number {c : Char} {cs : List Char} (h : c.isAlpha = false) :
    scalar (c :: cs) = number (c :: cs) := by
  have hne : ∀ {d : Char}, d.isAlpha = true → ∀ ds, c :: cs ≠ d :: ds := by
    rintro d hd ds heq
    obtain ⟨rfl, -⟩ := List.cons.inj heq
    exact Bool.false_ne_true (h.symm.trans hd)
  rw [scalar, if_neg (hne rfl _), if_neg (hne rfl _), if_neg (hne rfl _)]

theorem number_of_ne {c : Char} {cs : List Char} (h : c ≠ '-') :
    number (c :: cs) = (unsigned (c :: cs)).map fun (m, e) => .num m e := by
  unfold number
  split
  · rename_i heq
    exact absurd (List.cons.inj heq).1 h
  · rfl

theorem isDigit_ne {c : Char} (h : c.isDigit = true) : c ≠ '-' ∧ c.isAlpha = false := by
  refine ⟨ne_of_apply_ne Char.isDigit (by rw [h]; decide), ?_⟩
  simp only [Char.isDigit, Char.isAlpha, Char.isUpper, Char.isLower, Bool.and_eq_true,
    decide_eq_true_eq, Bool.or_eq_false_iff, Bool.and_eq_false_iff, decide_eq_false_iff_not,
    ge_iff_le, UInt32.le_iff_toNat_le] at *
  have h9 : '9'.val.toNat = 57 := rfl
  have hA : 'A'.val.toNat = 65 := rfl
  have ha : 'a'.val.toNat = 97 := rfl
  omega

theorem scalar_decimal (n : Int) : scalar (decimal n) = some (.num n 0) := by
  have hu := unsigned_toDigits n.natAbs
  rw [decimal]
  split
  · rename_i hn
    have habs : (n.natAbs : Int) = -n := Int.ofNat_natAbs_of_nonpos (Int.le_of_lt hn)
    rw [scalar_eq_number rfl]
    simp only [number, hu, Option.map_some, habs, Int.neg_neg]
  · rename_i hn
    cases hd : Nat.toDigits 10 n.natAbs with
    | nil => exact absurd hd Nat.toDigits_ne_nil
    | cons c cs =>
      have hc : c.isDigit = true := Nat.isDigit_of_mem_toDigits (b := 10) (by decide) (by decide)
        (hd ▸ List.mem_cons_self)
      have habs : (n.natAbs : Int) = n := Int.natAbs_of_nonneg (Int.not_lt.mp hn)
      rw [scalar_eq_number (isDigit_ne hc).2, number_of_ne (isDigit_ne hc).1, ← hd]
      simp only [hu, Option.map_some, habs]

theorem decimal_ne_nil (n : Int) : decimal n ≠ [] := by
  intro h
  have := scalar_decimal n
  rw [h] at this
  exact nomatch this

/-! ## Words -/

theorem plain_of_isWord {c : Char} (h : isWord c = true) : Plain c := by
  simp only [isWord, Bool.or_eq_true, decide_eq_true_eq] at h
  rcases h with ((h | rfl) | rfl) | rfl
  · simp only [Char.isAlphanum, Char.isAlpha, Char.isUpper, Char.isLower, Char.isDigit,
      Bool.or_eq_true, Bool.and_eq_true, decide_eq_true_eq, UInt32.le_iff_toNat_le, ge_iff_le] at h
    have hc : c.toNat = c.val.toNat := rfl
    have hA : 'A'.val.toNat = 65 := rfl
    have hZ : 'Z'.val.toNat = 90 := rfl
    have ha : 'a'.val.toNat = 97 := rfl
    have h0 : '0'.val.toNat = 48 := rfl
    have h9 : '9'.val.toNat = 57 := rfl
    have hq : '"'.toNat = 34 := rfl
    have hb : '\\'.toNat = 92 := rfl
    refine ⟨ne_of_apply_ne Char.toNat ?_, ne_of_apply_ne Char.toNat ?_, ?_⟩ <;> omega
  all_goals decide

theorem isWord_ne {c d : Char} (h : isWord c = true) (hd : isWord d = false) : c ≠ d := by
  rintro rfl
  exact Bool.false_ne_true (hd.symm.trans h)

theorem isSpace_of_isWord {c : Char} (h : isWord c = true) : isSpace c = false := by
  simp only [isSpace, decide_eq_false (isWord_ne h (d := ' ') rfl),
    decide_eq_false (isWord_ne h (d := '\t') rfl), decide_eq_false (isWord_ne h (d := '\n') rfl),
    decide_eq_false (isWord_ne h (d := '\r') rfl), Bool.or_false]

theorem step_word {c : Char} (h : isWord c = true) (st : List Frame) (f : Bool) :
    step ⟨st, .value f⟩ c = some ⟨st, .word [c]⟩ := by
  simp only [step, isSpace_of_isWord h, if_neg (isWord_ne h (d := '"') rfl),
    if_neg (isWord_ne h (d := '[') rfl), if_neg (isWord_ne h (d := '{') rfl),
    isWord_ne h (d := ']') rfl, false_and, h, if_true, Bool.false_eq_true, if_false]

theorem feed_word {w : List Char} (h : ∀ c ∈ w, isWord c = true) (st : List Frame)
    (cs : List Char) : feed ⟨st, .word cs⟩ w = some ⟨st, .word (cs ++ w)⟩ := by
  induction w generalizing cs with
  | nil => rw [feed_nil, List.append_nil]
  | cons c w ih =>
    have hc : step ⟨st, .word cs⟩ c = some ⟨st, .word (cs ++ [c])⟩ := by
      simp only [step, h c List.mem_cons_self, if_true]
    rw [feed_cons, hc, Option.bind_some, ih fun d hd => h d (List.mem_cons_of_mem _ hd),
      List.append_assoc, List.singleton_append]

/-- A number or a name where a value is due. -/
theorem Leads.scalar {w : List Char} {v : Value} (hw : ∀ c ∈ w, isWord c = true)
    (hv : scalar w = some v) (st : List Frame) (f : Bool) :
    Leads ⟨st, .value f⟩ w ⟨put st v, .after⟩ := by
  cases w with
  | nil => exact nomatch hv
  | cons c w =>
    rw [Leads, feed_cons, step_word (hw c List.mem_cons_self), Option.bind_some,
      feed_word fun d hd => hw d (List.mem_cons_of_mem _ hd), Option.bind_some, State.settle]
    simp only [List.singleton_append, hv, Option.map_some]

/-- The same, with the character that ends it. -/
theorem feed_scalar {w : List Char} {v : Value} (hw : ∀ c ∈ w, isWord c = true)
    (hv : Json.scalar w = some v) (st : List Frame) (f : Bool) {c : Char} (hc : isWord c = false)
    (t : List Char) : feed ⟨st, .value f⟩ (w ++ c :: t) = feed ⟨put st v, .after⟩ (c :: t) := by
  obtain ⟨s₁, h₁, hs⟩ := Option.bind_eq_some_iff.mp (Leads.scalar hw hv st f)
  rw [feed_append, h₁, Option.bind_some, feed_cons, feed_cons, step_settle hs hc]

/-! ## What a string was read from -/

theorem read_cons (s : State) (c : Char) (cs : List Char) :
    read s (c :: cs) = (step s c).bind (read · cs) := by
  rw [read, feed_cons, Option.bind_assoc]
  rfl

theorem read_code {left : Nat} {st : List Frame} {k : Bool} {us : List Nat} {cs : List Char}
    {v : Value} : ∀ {n : Nat}, read ⟨st, .code k us n left⟩ cs = some v →
      ∃ hs u t, cs = hs ++ t ∧ hs.length = left + 1 ∧ hexFrom n hs = some u ∧
        read ⟨st, .chars k (us ++ [u])⟩ t = some v := by
  induction left generalizing cs with
  | zero =>
    intro n h
    cases cs with
    | nil => exact nomatch h
    | cons c t =>
      obtain ⟨s, hs, h⟩ := Option.bind_eq_some_iff.mp ((read_cons ..).symm.trans h)
      obtain ⟨d, hd, rfl⟩ := Option.map_eq_some_iff.mp hs
      exact ⟨[c], 16 * n + d, t, rfl, rfl, by rw [hexFrom, hd]; rfl, h⟩
  | succ left ih =>
    intro n h
    cases cs with
    | nil => exact nomatch h
    | cons c t =>
      obtain ⟨s, hs, h⟩ := Option.bind_eq_some_iff.mp ((read_cons ..).symm.trans h)
      obtain ⟨d, hd, rfl⟩ := Option.map_eq_some_iff.mp hs
      obtain ⟨hs, u, t', rfl, hl, hu, h⟩ := ih h
      exact ⟨c :: hs, u, t', rfl, congrArg (· + 1) hl, by rw [hexFrom, hd]; exact hu, h⟩

/-- Where a text with an open string in it is read, the string ends. -/
theorem read_chars {st : List Frame} {k : Bool} {v : Value} {acc : List Nat} {cs : List Char}
    (h : read ⟨st, .chars k acc⟩ cs = some v) :
    ∃ body us t, cs = body ++ '"' :: t ∧ Chars body us ∧
      (quoted st (acc ++ us) k).bind (read · t) = some v := by
  induction hn : cs.length using Nat.strongRecOn generalizing cs acc with
  | ind n ih =>
    subst hn
    cases cs with
    | nil => exact nomatch h
    | cons c cs =>
      obtain ⟨s, hs, hread⟩ := Option.bind_eq_some_iff.mp ((read_cons ..).symm.trans h)
      simp only [step] at hs
      split at hs
      · rename_i hq
        subst hq
        exact ⟨[], [], cs, rfl, .nil, by rw [List.append_nil, hs]; exact hread⟩
      · rename_i hq
        split at hs
        · rename_i hb
          subst hb
          obtain rfl := Option.some.inj hs
          cases cs with
          | nil => exact nomatch hread
          | cons e cs =>
            obtain ⟨s, hs, hread⟩ := Option.bind_eq_some_iff.mp ((read_cons ..).symm.trans hread)
            simp only [step] at hs
            split at hs
            · rename_i hu
              subst hu
              obtain rfl := Option.some.inj hs
              obtain ⟨hs, u, t, rfl, hl, hu, h⟩ := read_code hread
              obtain ⟨body, us, t', rfl, hbody, h⟩ := ih t.length
                (by simp only [List.length_cons, List.length_append]; omega) h rfl
              refine ⟨'\\' :: 'u' :: (hs ++ body), u :: us, t', ?_, .code hl hu hbody, ?_⟩
              · rw [List.cons_append, List.cons_append, List.append_assoc]
              · rwa [List.append_cons]
            · obtain ⟨u, hu, rfl⟩ := Option.map_eq_some_iff.mp hs
              obtain ⟨body, us, t', rfl, hbody, h⟩ := ih cs.length
                (by simp only [List.length_cons]; omega) hread rfl
              refine ⟨'\\' :: e :: body, u :: us, t', rfl, .short hu hbody, ?_⟩
              rwa [List.append_cons]
        · rename_i hb
          split at hs
          · exact nomatch hs
          · rename_i hc
            obtain rfl := Option.some.inj hs
            obtain ⟨body, us, t', rfl, hbody, h⟩ := ih cs.length (Nat.lt_succ_self _) hread rfl
            refine ⟨c :: body, c.toNat :: us, t', rfl, .plain ⟨hq, hb, Nat.not_lt.mp hc⟩ hbody, ?_⟩
            rwa [List.append_cons]

end Json
