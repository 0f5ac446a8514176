import Mvsmf.Jobs.ProcessJobcard
import Mvsmf.Lib.Padding
import Mathlib

/-!
# Cards with blanks behind them

The lines of a job come as they were typed or filled up with blanks. What the rewrite of the card
does with a line does not depend on the blanks behind it, and leaves them where they are.
-/

namespace Mvsmf

open Jcl Padding

/-- The blanks behind a line. -/
abbrev blanks (n : Nat) : Text := List.replicate n ' '

theorem isKeyword_notify : IsKeyword NOTIFY := by
  have h : NOTIFY = ['N', 'O', 'T', 'I', 'F', 'Y'] := rfl
  rw [h]
  constructor <;> simp

/-- Blanks behind a line do not complete a word. -/
theorem isPrefixOf_pad {k : Text} (hk : ∀ c ∈ k, c ≠ ' ') (pp : Text) (n : Nat) :
    k.isPrefixOf (pp ++ blanks n) = k.isPrefixOf pp := by
  by_cases hp : k.isPrefixOf pp = true
  · rw [hp]
    apply List.isPrefixOf_iff_prefix.mpr
    exact (List.isPrefixOf_iff_prefix.mp hp).trans (List.prefix_append _ _)
  · rw [Bool.eq_false_iff.mpr hp, ← Bool.not_eq_true]
    intro h
    obtain ⟨v, hv⟩ := List.isPrefixOf_iff_prefix.mp h
    rcases List.append_eq_append_iff.mp hv with ⟨w, rfl, -⟩ | ⟨w, hw, hv⟩
    · exact hp (by simp)
    · cases w with
      | nil => exact hp (by simp [hw])
      | cons c w =>
        have hc : c ∈ blanks n := by
          rw [hv]
          simp
        exact hk c (by simp [hw]) (List.eq_of_mem_replicate hc)

section Search

variable {k : Text} (hk : IsKeyword k)

include hk

/-! ## The searches -/

theorem keywordAt_pad (pp : Text) (n : Nat) : keywordAt k (pp ++ blanks n) = keywordAt k pp := by
  have hblank : ∀ c ∈ k, c ≠ ' ' := fun c hc => (hk.chars c hc).2.1
  rw [keywordAt, keywordAt, isPrefixOf_pad hblank]
  cases hp : k.isPrefixOf pp with
  | false => rfl
  | true =>
    obtain ⟨v, rfl⟩ := List.isPrefixOf_iff_prefix.mp hp
    rw [List.append_assoc, List.drop_left, List.drop_left, dropWhile_pad (by rfl)]
    split
    next h => simp [h]
    next h =>
      obtain ⟨c, cs, hc⟩ := List.exists_cons_of_ne_nil h
      simp [hc]

theorem findOperandFrom_pad (q a : Bool) (line : Text) (n : Nat) :
    findOperandFrom k q a (line ++ blanks n) = findOperandFrom k q a line := by
  induction line generalizing q a with
  | nil =>
    induction n generalizing a with
    | zero => rfl
    | succ n ih =>
      have hat : keywordAt k (' ' :: blanks n) = false := keywordAt_separator hk.name (Or.inr rfl)
      have ih : ∀ a, findOperandFrom k q a (blanks n) = none := ih
      cases q with
      | false => simp [List.replicate_succ, findOperandFrom, hat, ih]
      | true => simp [List.replicate_succ, findOperandFrom, ih]
  | cons c cs ih =>
    have hat := keywordAt_pad hk (c :: cs) n
    rw [List.cons_append] at hat
    rw [List.cons_append, findOperandFrom, findOperandFrom, hat, ih, ih, ih]

end Search

theorem findOperandFrom_keywordAt {k : Text} {q a : Bool} {line : Text} {i : Nat}
    (h : findOperandFrom k q a line = some i) : keywordAt k (line.drop i) = true := by
  induction line generalizing q a i with
  | nil => cases h
  | cons c cs ih =>
    rw [findOperandFrom] at h
    split at h
    · obtain ⟨j, hj, rfl⟩ := Option.map_eq_some_iff.mp h
      exact ih hj
    · split at h
      · obtain ⟨j, hj, rfl⟩ := Option.map_eq_some_iff.mp h
        exact ih hj
      · split at h
        next hat =>
          cases h
          exact (Bool.and_eq_true_iff.mp hat).2
        next =>
          obtain ⟨j, hj, rfl⟩ := Option.map_eq_some_iff.mp h
          exact ih hj

/-- What is found has an equals sign behind the keyword. -/
theorem exists_of_keywordAt {k pp : Text} (h : keywordAt k pp = true) :
    ∃ m v, pp = k ++ (blanks m ++ '=' :: v) := by
  obtain ⟨hpre, heq⟩ := Bool.and_eq_true_iff.mp h
  obtain ⟨w, rfl⟩ := List.isPrefixOf_iff_prefix.mp hpre
  rw [List.drop_left, beq_iff_eq] at heq
  have hblank : ∀ c ∈ w.takeWhile (· == ' '), c = ' ' := by
    intro c hc
    simpa using List.mem_takeWhile_imp hc
  refine ⟨(w.takeWhile (· == ' ')).length, (w.dropWhile (· == ' ')).tail, ?_⟩
  obtain ⟨c, cs, hc⟩ : ∃ c cs, w.dropWhile (· == ' ') = c :: cs := by
    cases hd : w.dropWhile (· == ' ') with
    | nil => simp [hd] at heq
    | cons c cs => exact ⟨c, cs, rfl⟩
  rw [hc] at heq
  obtain rfl : c = '=' := by simpa using heq
  rw [hc, List.tail_cons, ← hc, blanks, ← List.eq_replicate_of_mem hblank,
    List.takeWhile_append_dropWhile]

theorem equals_of_find {k line : Text} {q a : Bool} {i : Nat}
    (h : findOperandFrom k q a line = some i) : '=' ∈ line.drop i := by
  obtain ⟨m, v, hv⟩ := exists_of_keywordAt (findOperandFrom_keywordAt h)
  rw [hv]
  simp

/-! ## Stripping -/

/-- What stands behind the equals sign, with the blanks of the line behind it. -/
theorem value_pad {line : Text} {start : Nat} (h : '=' ∈ line.drop start) (n : Nat) :
    (((line ++ blanks n).drop start).dropWhile (· != '=')).drop 1 =
      ((line.drop start).dropWhile (· != '=')).drop 1 ++ blanks n := by
  have hstart : start ≤ line.length := by
    by_contra hlt
    rw [List.drop_eq_nil_of_le (by omega)] at h
    cases h
  have hne : (line.drop start).dropWhile (· != '=') ≠ [] := by
    intro hnil
    have := List.dropWhile_eq_nil_iff.mp hnil '=' h
    simp at this
  rw [List.drop_append_of_le_length hstart, dropWhile_pad (by rfl), if_neg hne,
    List.drop_append_of_le_length (List.length_pos_of_ne_nil hne)]

theorem removeOperand_pad {line : Text} {start : Nat} (h : '=' ∈ line.drop start) (n : Nat) :
    removeOperand (line ++ blanks n) start = removeOperand line start ++ blanks n := by
  have hstart : start ≤ line.length := by
    by_contra hlt
    rw [List.drop_eq_nil_of_le (by omega)] at h
    cases h
  have hbefore : (line ++ blanks n).take start = line.take start :=
    List.take_append_of_le_length hstart
  have hend : ∀ s : Text, (s ++ blanks n).dropWhile (fun c => c != ',' && c != ' ') =
      s.dropWhile (fun c => c != ',' && c != ' ') ++ blanks n :=
    fun s => dropWhile_to_pad (by rfl) n
  simp only [removeOperand, value_pad h, hbefore, hend]
  generalize List.dropWhile _ (List.drop 1 _) = rest
  cases rest with
  | nil =>
    cases n with
    | zero => simp
    | succ n => simp [List.replicate_succ]
  | cons c rest =>
    by_cases hc : c = ','
    · simp [hc]
    · simp [hc]

theorem stripOperandLoop_pad {k : Text} (hk : IsKeyword k) (fuel : Nat) (line : Text) (n : Nat) :
    stripOperandLoop k fuel (line ++ blanks n) =
      ((stripOperandLoop k fuel line).1 ++ blanks n, (stripOperandLoop k fuel line).2) := by
  induction fuel generalizing line with
  | zero => rfl
  | succ fuel ih =>
    rw [stripOperandLoop, stripOperandLoop, jobcardFindOperand_eq hk.name, jobcardFindOperand_eq hk.name,
      findOperandFrom_pad hk]
    cases hfind : findOperandFrom k false true line with
    | none => rfl
    | some start => simp only [removeOperand_pad (equals_of_find hfind), ih]

/-- With as many rounds as the line has characters the loop has ended. -/
theorem stripOperandLoop_fuel {k : Text} (hk : IsKeyword k) {fuel : Nat} {line : Text}
    (h : line.length ≤ fuel) :
    stripOperandLoop k fuel line = jobcardStripOperand line k := by
  have general : ∀ (fuel fuel' : Nat) (line : Text), line.length ≤ fuel → line.length ≤ fuel' →
      stripOperandLoop k fuel line = stripOperandLoop k fuel' line := by
    intro fuel
    induction fuel with
    | zero =>
      intro fuel' line h _
      obtain rfl : line = [] := List.eq_nil_of_length_eq_zero (Nat.le_zero.mp h)
      cases fuel' with
      | zero => rfl
      | succ fuel' =>
        rw [stripOperandLoop, stripOperandLoop, jobcardFindOperand_eq hk.name]
        rfl
    | succ fuel ih =>
      intro fuel' line h h'
      cases fuel' with
      | zero =>
        obtain rfl : line = [] := List.eq_nil_of_length_eq_zero (Nat.le_zero.mp h')
        rw [stripOperandLoop, stripOperandLoop, jobcardFindOperand_eq hk.name]
        rfl
      | succ fuel' =>
        rw [stripOperandLoop, stripOperandLoop, jobcardFindOperand_eq hk.name]
        cases hfind : findOperandFrom k false true line with
        | none => rfl
        | some start =>
          have hlen := length_removeOperand (equals_of_find hfind)
          simp only [ih fuel' (removeOperand line start) (by omega) (by omega)]
  exact general _ _ line h (Nat.le_refl _)

theorem jobcardStripOperand_pad {k : Text} (hk : IsKeyword k) (line : Text) (n : Nat) :
    jobcardStripOperand (line ++ blanks n) k =
      ((jobcardStripOperand line k).1 ++ blanks n, (jobcardStripOperand line k).2) := by
  rw [jobcardStripOperand, stripOperandLoop_pad hk, stripOperandLoop_fuel hk (by simp)]

theorem stripCredentials_pad (line : Text) (n : Nat) :
    (stripCredentials (line ++ blanks n)).1 = (stripCredentials line).1 ++ blanks n := by
  simp only [stripCredentials, jobcardStripOperand_pad isKeyword_user,
    jobcardStripOperand_pad isKeyword_password]

/-! ## What a strip keeps of a line -/

/-- A card begins with a slash, which is where none of the keywords begins. -/
def Slash (line : Text) : Prop := ∃ rest, line = '/' :: rest

theorem Slash.append {line : Text} (h : Slash line) (t : Text) : Slash (line ++ t) := by
  obtain ⟨rest, rfl⟩ := h
  exact ⟨rest ++ t, rfl⟩

theorem Slash.ne_nil {line : Text} (h : Slash line) : line ≠ [] := by
  obtain ⟨rest, rfl⟩ := h
  simp

theorem Slash.removeOperand {k line : Text} {start : Nat} (hk : IsKeyword k) (hl : Slash line)
    (h : findOperandFrom k false true line = some start) : Slash (removeOperand line start) := by
  obtain ⟨rest, rfl⟩ := hl
  cases start with
  | zero =>
    have hat := findOperandFrom_keywordAt h
    rw [List.drop_zero, keywordAt_head hk.name fun a ha => (hk.head a ha).1] at hat
    cases hat
  | succ start =>
    have hbefore : ∀ before : Text, Slash
        (if ('/' :: before).getLast? = some ',' then ('/' :: before).dropLast
          else '/' :: before) := by
      intro before
      split
      next hcomma =>
        cases before with
        | nil => simp at hcomma
        | cons c cs => exact ⟨_, rfl⟩
      next => exact ⟨_, rfl⟩
    unfold Mvsmf.removeOperand
    simp only [List.take_succ_cons]
    split
    · exact ⟨_, rfl⟩
    · exact (hbefore _).append _

theorem stripOperandLoop_slash {k : Text} (hk : IsKeyword k) (fuel : Nat) {line : Text}
    (h : Slash line) : Slash (stripOperandLoop k fuel line).1 ∧
      (stripOperandLoop k fuel line).1.length ≤ line.length := by
  induction fuel generalizing line with
  | zero => exact ⟨h, Nat.le_refl _⟩
  | succ fuel ih =>
    rw [stripOperandLoop, jobcardFindOperand_eq hk.name]
    cases hfind : findOperandFrom k false true line with
    | none => exact ⟨h, Nat.le_refl _⟩
    | some start =>
      obtain ⟨hs, hlen⟩ := ih (h.removeOperand hk hfind)
      exact ⟨hs, Nat.le_trans hlen (length_removeOperand (equals_of_find hfind)).le⟩

theorem stripCredentials_slash {line : Text} (h : Slash line) :
    Slash (stripCredentials line).1 ∧ (stripCredentials line).1.length ≤ line.length := by
  obtain ⟨hu, hlu⟩ := stripOperandLoop_slash isKeyword_user line.length h
  obtain ⟨hp, hlp⟩ := stripOperandLoop_slash isKeyword_password
    (jobcardStripOperand line USER).1.length hu
  exact ⟨hp, Nat.le_trans hlp hlu⟩

/-! ## The card, line by line -/

/-- The same card line, padded. -/
structure CardLine (line line' : Text) : Prop where
  padded : Padded ' ' line line'
  slash : line = [] ∨ Slash line
  length : line'.length ≤ 80

theorem CardLine.eq {line line' : Text} (h : CardLine line line') :
    ∃ n, line' = line ++ blanks n := by
  obtain ⟨n, hn, -⟩ := h.padded
  exact ⟨n, hn⟩

theorem cardLine_strip {line line' : Text} (h : CardLine line line') (hs : Slash line) :
    CardLine (stripCredentials line).1 (stripCredentials line').1 := by
  obtain ⟨n, rfl⟩ := h.eq
  obtain ⟨hstrip, hlen⟩ := stripCredentials_slash hs
  refine ⟨⟨n, stripCredentials_pad line n, fun h => absurd h hstrip.ne_nil⟩, Or.inr hstrip, ?_⟩
  have := h.length
  rw [stripCredentials_pad]
  rw [List.length_append] at this ⊢
  omega

theorem jobcardOperandsEmpty_pad {line : Text} (hs : Slash line) (n : Nat) :
    jobcardOperandsEmpty (line ++ blanks n) = jobcardOperandsEmpty line := by
  have hempty : ∀ s : Text, ((s ++ blanks n).dropWhile (· == ' ') == []) =
      (s.dropWhile (· == ' ') == []) := by
    intro s
    rw [dropWhile_pad (by rfl)]
    split
    next h => rw [h]
    next h =>
      obtain ⟨c, cs, hc⟩ := List.exists_cons_of_ne_nil h
      rw [hc]
      rfl
  obtain ⟨rest, rfl⟩ := hs
  have hpre : "//".toList.isPrefixOf ('/' :: rest ++ blanks n) =
      "//".toList.isPrefixOf ('/' :: rest) := by
    cases rest with
    | nil => cases n <;> simp [List.replicate_succ, List.isPrefixOf]
    | cons c rest => simp [List.isPrefixOf]
  rw [jobcardOperandsEmpty, jobcardOperandsEmpty, hpre]
  cases hp : "//".toList.isPrefixOf ('/' :: rest) with
  | false => exact hempty _
  | true =>
    cases rest with
    | nil => simp [List.isPrefixOf] at hp
    | cons c rest => exact hempty rest

theorem cardLine_continuation {line line' : Text} (h : CardLine line line') (hs : Slash line) :
    CardLine (stripContinuation line) (stripContinuation line') := by
  have hstrip := cardLine_strip h hs
  obtain ⟨n, hn⟩ := hstrip.eq
  rw [stripContinuation, stripContinuation, hn,
    jobcardOperandsEmpty_pad (stripCredentials_slash hs).1, ← hn]
  split
  · exact ⟨.refl [], Or.inl rfl, by simp⟩
  · exact hstrip

/-- **Stripping a card.** Blanks behind its lines stay behind them. -/
theorem cardLines_strip {head head' : Text} {lines lines' : List Text} (h : CardLine head head')
    (hs : Slash head) (hlines : List.Forall₂ CardLine lines lines') (hslash : ∀ l ∈ lines, Slash l) :
    List.Forall₂ CardLine (jobcardStripCredentials (head :: lines)).1
      (jobcardStripCredentials (head' :: lines')).1 := by
  refine .cons (cardLine_strip h hs) ?_
  induction hlines with
  | nil => exact .nil
  | cons hl _ ih =>
    exact .cons (cardLine_continuation hl (hslash _ List.mem_cons_self))
      (ih fun l hm => hslash l (List.mem_cons_of_mem _ hm))

/-! ## NOTIFY -/

/-- What is put behind the caller's userid for what stands behind a NOTIFY. -/
def separated (rest : Text) : Text :=
  if rest.head? = some ',' then rest
  else if rest.dropWhile (· == ' ') = [] then []
  else ',' :: rest.dropWhile (· == ' ')

/-- In a line of at most 80 characters there is room for it. -/
theorem behindSysuid_eq {rest : Text} (h : rest.length < 79) :
    behindSysuid rest = .ok
      (separated ((rest.dropWhile (· == ' ')).dropWhile fun c => c != ',' && c != ' ')) := by
  have hlen := ((List.dropWhile_sublist (l := rest.dropWhile (· == ' '))
    fun c => c != ',' && c != ' ').trans (List.dropWhile_sublist (l := rest) (· == ' '))).length_le
  unfold behindSysuid separated
  simp only
  generalize List.dropWhile _ (List.dropWhile _ rest) = realEnd at hlen ⊢
  have hmore := (List.dropWhile_sublist (l := realEnd) (· == ' ')).length_le
  split
  next tail =>
    rw [List.take_of_length_le (by omega), List.head?_cons, if_pos rfl]
  next hcomma =>
    have hhead : realEnd.head? ≠ some ',' := by
      intro hhead
      obtain ⟨tail, htail⟩ := List.head?_eq_some_iff.mp hhead
      exact hcomma tail htail
    rw [if_neg hhead]
    split
    next hnil => rw [if_pos hnil]
    next hnil => rw [if_neg hnil, if_neg (by omega)]

theorem separated_pad (rest : Text) (n : Nat) :
    separated (rest ++ blanks n) = separated rest ∨
      separated (rest ++ blanks n) = separated rest ++ blanks n := by
  have hskip : (rest ++ blanks n).dropWhile (· == ' ') = if rest.dropWhile (· == ' ') = [] then []
      else rest.dropWhile (· == ' ') ++ blanks n := dropWhile_pad (by rfl) n
  have hhead : (rest ++ blanks n).head? = some ',' ↔ rest.head? = some ',' := by
    cases rest with
    | nil => cases n <;> simp [List.replicate_succ]
    | cons c rest => rfl
  unfold separated
  rw [hskip]
  by_cases hcomma : rest.head? = some ','
  · rw [if_pos hcomma, if_pos (hhead.mpr hcomma)]
    exact Or.inr rfl
  · rw [if_neg hcomma, if_neg fun h => hcomma (hhead.mp h)]
    by_cases hnil : rest.dropWhile (· == ' ') = []
    · rw [if_pos hnil, if_pos rfl, if_pos hnil]
      exact Or.inl rfl
    · rw [if_neg hnil, if_neg hnil, if_neg fun h => hnil (List.append_eq_nil_iff.mp h).1]
      exact Or.inr rfl

theorem behindSysuid_pad {rest : Text} {n : Nat} (h : (rest ++ blanks n).length < 79) :
    ∃ after, behindSysuid rest = .ok after ∧
      (behindSysuid (rest ++ blanks n) = .ok after ∨
        behindSysuid (rest ++ blanks n) = .ok (after ++ blanks n)) := by
  have hrest : rest.length < 79 := by
    rw [List.length_append] at h
    omega
  have hword : ∀ s : Text, (s ++ blanks n).dropWhile (fun c => c != ',' && c != ' ') =
      s.dropWhile (fun c => c != ',' && c != ' ') ++ blanks n :=
    fun s => dropWhile_to_pad (by rfl) n
  refine ⟨_, behindSysuid_eq hrest, ?_⟩
  rw [behindSysuid_eq h, dropWhile_pad (by rfl)]
  split
  next hnil =>
    left
    rw [hnil]
  next =>
    rw [hword]
    rcases separated_pad (List.dropWhile _ (rest.dropWhile (· == ' '))) n with h | h
    · exact Or.inl (congrArg _ h)
    · exact Or.inr (congrArg _ h)

theorem replaceSysuid_pad {line : Text} {start : Nat} (h : '=' ∈ line.drop start) {n : Nat}
    (hlen : (line ++ blanks n).length ≤ 80) (user : Text) :
    replaceSysuid (line ++ blanks n) user start = replaceSysuid line user start := by
  have hstart : start ≤ line.length := by
    by_contra hlt
    rw [List.drop_eq_nil_of_le (by omega)] at h
    cases h
  have hvalue : (((line.drop start).dropWhile (· != '=')).drop 1).length ≤ line.length := by
    have := (List.dropWhile_sublist (l := line.drop start) (· != '=')).length_le
    rw [List.length_drop] at this ⊢
    omega
  rw [replaceSysuid, replaceSysuid, value_pad h, List.take_append_of_le_length hstart]
  generalize ((line.drop start).dropWhile (· != '=')).drop 1 = value at hvalue ⊢
  rw [dropWhile_pad (by rfl)]
  split
  next hnil => rw [hnil]
  next =>
    have hsysuid := (List.dropWhile_sublist (l := value) (· == ' ')).length_le
    generalize value.dropWhile (· == ' ') = sysuid at hsysuid ⊢
    simp only [isPrefixOf_pad (k := SYSUID) (List.all_iff_forall_prop.mp rfl)]
    split
    next hpre =>
      obtain ⟨v, rfl⟩ := List.isPrefixOf_iff_prefix.mp hpre
      have hv : (v ++ blanks n).length < 79 := by
        have h7 : SYSUID.length = 7 := rfl
        simp only [List.length_append, h7] at hlen hsysuid ⊢
        omega
      obtain ⟨after, hafter, hpad⟩ := behindSysuid_pad hv
      rw [List.append_assoc, List.drop_left, List.drop_left, hafter]
      rcases hpad with hpad | hpad
      · rw [hpad]
      · rw [hpad]
        simp only [rdropWhile_pad (b := ' ') (p := (· == ' ')) (by rfl)]
    next => rfl

/-- The same failure, or results that are related. -/
inductive Alike {ε α : Type} (R : α → α → Prop) : Except ε α → Except ε α → Prop
  | error (e : ε) : Alike R (.error e) (.error e)
  | ok {a b : α} (h : R a b) : Alike R (.ok a) (.ok b)

theorem Alike.map {ε α β : Type} {R : α → α → Prop} {S : β → β → Prop} {x y : Except ε α}
    {f g : α → β} (h : Alike R x y) (hfg : ∀ a b, R a b → S (f a) (g b)) :
    Alike S (x.map f) (y.map g) := by
  cases h with
  | error e => exact .error e
  | ok h => exact .ok (hfg _ _ h)

theorem CardLine.refl {line : Text} (hs : line = [] ∨ Slash line) (h : line.length ≤ 80) :
    CardLine line line :=
  ⟨.refl line, hs, h⟩

theorem replaceSysuid_some {line line' user : Text} {start : Nat} (hs : Slash line)
    (hfind : findNotifyOperand line = some start)
    (h : replaceSysuid line user start = .ok (some line')) : Slash line' ∧ line'.length < 72 := by
  obtain ⟨rest, rfl⟩ := hs
  rw [replaceSysuid] at h
  simp only at h
  split at h
  · split at h
    · cases h
    · split at h
      · cases h
      next hlen =>
        cases h
        refine ⟨?_, Nat.lt_of_not_le hlen⟩
        cases start with
        | zero =>
          have hat := findOperandFrom_keywordAt hfind
          rw [List.drop_zero, keywordAt_head isKeyword_notify.name fun a ha =>
            (isKeyword_notify.head a ha).1] at hat
          cases hat
        | succ start => exact ⟨_, rfl⟩
  · cases h

theorem processNotify_alike (user : Text) (replaced : Bool) {lines lines' : List Text}
    (h : List.Forall₂ CardLine lines lines') :
    Alike (fun r r' => List.Forall₂ CardLine r.1 r'.1 ∧ r.2 = r'.2)
      (processNotify user replaced lines) (processNotify user replaced lines') := by
  induction h generalizing replaced with
  | nil => exact .ok ⟨.nil, rfl⟩
  | @cons line line' lines lines' hl _ ih =>
    obtain ⟨n, hn⟩ := hl.eq
    have hfind : findNotifyOperand line' = findNotifyOperand line := by
      rw [hn]
      exact findOperandFrom_pad isKeyword_notify _ _ _ _
    rw [processNotify, processNotify, hfind]
    cases hstart : findNotifyOperand line with
    | none => exact (ih replaced).map fun r r' hr => ⟨.cons hl hr.1, hr.2⟩
    | some start =>
      have hs : Slash line := by
        rcases hl.slash with rfl | hs
        · cases hstart
        · exact hs
      have hrep : replaceSysuid line' user start = replaceSysuid line user start := by
        have hlen := hl.length
        rw [hn] at hlen ⊢
        exact replaceSysuid_pad (equals_of_find hstart) hlen user
      cases replaced with
      | true => exact (ih true).map fun r r' hr => ⟨.cons hl hr.1, rfl⟩
      | false =>
        simp only [hrep, Bool.false_eq_true, if_false]
        cases hr : replaceSysuid line user start with
        | error e => exact .error e
        | ok res =>
          cases res with
          | none => exact (ih false).map fun r r' hr => ⟨.cons hl hr.1, rfl⟩
          | some new =>
            obtain ⟨hslash, hlen⟩ := replaceSysuid_some hs hstart hr
            have hnew : CardLine new new := .refl (Or.inr hslash) (by omega)
            exact (ih true).map fun r r' hr => ⟨.cons hnew hr.1, rfl⟩

/-! ## The cards behind the last line -/

theorem jobcardContinue_pad (line : Text) (n size : Nat) :
    jobcardContinue (line ++ blanks n) size = jobcardContinue line size := by
  rw [jobcardContinue, jobcardContinue, rdropWhile_pad (by rfl)]

theorem Slash.of_prefix {line t : Text} (h : Slash line) (ht : t <+: line) (hne : t ≠ []) :
    Slash t := by
  obtain ⟨rest, rfl⟩ := h
  obtain ⟨c, cs, rfl⟩ := List.exists_cons_of_ne_nil hne
  rw [List.cons_prefix_cons] at ht
  exact ⟨cs, by rw [ht.1]⟩

theorem Slash.rdropWhile {line : Text} (h : Slash line) : Slash (line.rdropWhile (· == ' ')) := by
  apply h.of_prefix (List.rdropWhile_prefix _ _)
  intro hnil
  obtain ⟨rest, rfl⟩ := h
  have := List.rdropWhile_eq_nil_iff.mp hnil '/' List.mem_cons_self
  simp at this

/-- A card that continues is a card, and so is the one its last operand is moved to. -/
theorem jobcardContinue_slash {line : Text} (hs : line = [] ∨ Slash line) (hlen : line.length ≤ 80) :
    ∀ l ∈ (jobcardContinue line 81).line :: (jobcardContinue line 81).moved.toList,
      (l = [] ∨ Slash l) ∧ l.length ≤ 80 := by
  have htrim := (List.rdropWhile_prefix (· == ' ') line).length_le
  have hstrim : line.rdropWhile (· == ' ') = [] ∨ Slash (line.rdropWhile (· == ' ')) := by
    rcases hs with rfl | hs
    · exact Or.inl rfl
    · exact Or.inr hs.rdropWhile
  unfold jobcardContinue
  simp only
  generalize line.rdropWhile (· == ' ') = text at htrim hstrim ⊢
  have hself : ∀ l ∈ [text], (l = [] ∨ Slash l) ∧ l.length ≤ 80 := by
    intro l hl
    rw [List.mem_singleton.mp hl]
    exact ⟨hstrim, by omega⟩
  split
  · exact hself
  next hend =>
    have hne : text ≠ [] := fun h => hend (Or.inl h)
    have hslash : Slash text := hstrim.resolve_left hne
    split
    next hshort =>
      intro l hl
      rw [List.mem_singleton.mp hl, List.length_append]
      rw [JOBCARD_LAST_COL] at hshort
      exact ⟨Or.inr (hslash.append _), by simp; omega⟩
    next =>
      split
      · exact hself
      · split
        · exact hself
        next ii _ =>
          split
          · exact hself
          next hroom =>
            intro l hl
            rcases List.mem_cons.mp hl with rfl | hl
            · refine ⟨Or.inr (hslash.of_prefix (List.take_prefix _ _) ?_), ?_⟩
              · simp [hne]
              · rw [List.length_take]
                omega
            · rw [List.eq_of_mem_singleton hl]
              simp only [JOBCARD_LAST_COL, not_or, Nat.not_lt, Nat.not_le] at hroom
              exact ⟨Or.inr ⟨_, rfl⟩, by omega⟩

theorem continueLast_alike {lines lines' : List Text} (h : List.Forall₂ CardLine lines lines') :
    Alike (List.Forall₂ CardLine) (continueLast lines) (continueLast lines') := by
  induction h with
  | nil => exact .ok .nil
  | @cons line line' lines lines' hl hls ih =>
    cases hls with
    | nil =>
      obtain ⟨n, rfl⟩ := hl.eq
      have hlen := hl.length
      rw [List.length_append] at hlen
      have hcards := jobcardContinue_slash hl.slash (by omega)
      rw [continueLast, continueLast, jobcardContinue_pad]
      split
      · exact .error _
      · apply Alike.ok
        rw [List.forall₂_same]
        intro l hl
        exact .refl (hcards l hl).1 (hcards l hl).2
    | cons hl' hls => exact ih.map fun r r' hr => .cons hl hr

/-! ## The rewritten card -/

theorem identityCard_ok {user password card : Text} {notify : Bool}
    (h : identityCard user password notify = .ok card) :
    Slash card ∧ card.length < 72 ∧ '=' ∈ card := by
  have hbase : ∀ t : Text, Slash (indent ++ t) := fun t => ⟨_, rfl⟩
  rw [identityCard] at h
  simp only [List.append_assoc] at h
  generalize (if notify = true then [] else _) = operand at h
  split at h
  next hlen =>
    cases h
    exact ⟨hbase _, hlen, by simp⟩
  next =>
    split at h
    next hlen =>
      cases h
      exact ⟨hbase _, hlen, by simp⟩
    next => cases h

/-- **The rewrite of a card** does not depend on the blanks behind its lines. -/
theorem rewriteCard_alike {head head' : Text} {lines lines' : List Text} (h : CardLine head head')
    (hs : Slash head) (hlines : List.Forall₂ CardLine lines lines') (hslash : ∀ l ∈ lines, Slash l)
    (user password : Text) :
    Alike (List.Forall₂ CardLine) (rewriteCard head lines user password)
      (rewriteCard head' lines' user password) := by
  have hnotify := processNotify_alike user false (cardLines_strip h hs hlines hslash)
  rw [rewriteCard, rewriteCard]
  generalize processNotify user false (jobcardStripCredentials (head :: lines)).1 = x at hnotify ⊢
  generalize processNotify user false (jobcardStripCredentials (head' :: lines')).1 = y at hnotify ⊢
  cases hnotify with
  | error e => exact .error e
  | @ok a b hab =>
    obtain ⟨card, notify⟩ := a
    obtain ⟨card', notify'⟩ := b
    obtain ⟨hcard, rfl⟩ := hab
    have hcont := continueLast_alike hcard
    simp only
    generalize continueLast card = x at hcont ⊢
    generalize continueLast card' = y at hcont ⊢
    cases hcont with
    | error e => exact .error e
    | ok hcard =>
      cases hid : identityCard user password notify with
      | error e => exact .error e
      | ok identity =>
        obtain ⟨hslash, hlen, -⟩ := identityCard_ok hid
        have hidentity : CardLine identity identity := .refl (Or.inr hslash) (by omega)
        exact .ok (List.rel_append hcard (.cons hidentity .nil))

end Mvsmf
