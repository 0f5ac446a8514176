import Mvsmf.Lib.JsonText
import Mvsmf.Lib.Loop

/-!
# The request of a job update

`jobreq_parse` reads the top level of an object: it scans the names and the strings, skips any other
value, and keeps what stands behind the name it looks for, the last one if there are several. On a
text that is an object it comes to every member, and to nothing else.
-/

namespace Mvsmf

open Json

/-- `skip_ws`: what sorts up to the blank. -/
def skipWs (p : List Char) : List Char := p.dropWhile fun c => c.toNat ≤ ' '.toNat

/-- `scan_string` behind the opening quote: what stands up to the closing one, and the text behind
it. -/
def scanString : List Char → Option (List Char × List Char)
  | [] => none
  | c :: p =>
    if c = '"' then some ([], p)
    else if c = '\\' then
      match p with
      | [] => none
      | e :: p => (scanString p).map fun (s, r) => (c :: e :: s, r)
    else (scanString p).map fun (s, r) => (c :: s, r)

theorem scanString_length {p s r : List Char} (h : scanString p = some (s, r)) :
    s.length + r.length < p.length := by
  induction hn : p.length using Nat.strongRecOn generalizing p s r with
  | ind n ih =>
    subst hn
    rw [scanString.eq_def] at h
    split at h
    · cases h
    · next c p =>
      split at h
      · cases h
        simp
      split at h
      · split at h
        · cases h
        · next e p =>
          obtain ⟨⟨s', r'⟩, hs, heq⟩ := Option.map_eq_some_iff.mp h
          cases heq
          have := ih p.length (by simp only [List.length_cons]; omega) hs rfl
          simp only [List.length_cons]
          omega
      · obtain ⟨⟨s', r'⟩, hs, heq⟩ := Option.map_eq_some_iff.mp h
        cases heq
        have := ih p.length (Nat.lt_succ_self _) hs rfl
        simp only [List.length_cons]
        omega

/-- One turn of `skip_value`, at a depth of brackets. -/
def skipValueStep : Nat × List Char → (Nat × List Char) ⊕ Option (List Char)
  | (_, []) => .inr none
  | (depth, c :: p) =>
    if c = '"' then
      match scanString p with
      | none => .inr none
      | some (_, p) => .inl (depth, p)
    else if c = '{' ∨ c = '[' then .inl (depth + 1, p)
    else if c = '}' ∨ c = ']' then
      if depth = 0 then .inr (if c = '}' then some (c :: p) else none)
      else .inl (depth - 1, p)
    else if c = ',' ∧ depth = 0 then .inr (some (c :: p))
    else .inl (depth, p)

theorem skipValueStep_lowers {s s' : Nat × List Char} (h : skipValueStep s = .inl s') :
    s'.2.length < s.2.length := by
  obtain ⟨depth, p⟩ := s
  cases p with
  | nil => cases h
  | cons c p =>
    simp only [skipValueStep] at h
    split at h
    · split at h
      · cases h
      · next heq =>
        cases h
        have := scanString_length heq
        simp only [List.length_cons]
        omega
    split at h
    · cases h
      exact Nat.lt_succ_self _
    split at h
    · split at h
      · cases h
      · cases h
        exact Nat.lt_succ_self _
    split at h
    · cases h
    · cases h
      exact Nat.lt_succ_self _

/-- `skip_value` ends where it stands. -/
theorem skipValueStep_leaves {s : Nat × List Char} {r : List Char}
    (h : skipValueStep s = .inr (some r)) : r = s.2 := by
  obtain ⟨depth, p⟩ := s
  cases p with
  | nil => cases h
  | cons c p =>
    simp only [skipValueStep] at h
    split at h
    · split at h <;> cases h
    split at h
    · cases h
    split at h
    · split at h
      · split at h
        · cases h
          rfl
        · cases h
      · cases h
    split at h
    · cases h
      rfl
    · cases h

def skipValueLoop : Loop (Nat × List Char) (Option (List Char)) where
  step := skipValueStep
  measure s := s.2.length
  lowers := skipValueStep_lowers

def skipValue (p : List Char) : Option (List Char) := skipValueLoop.exec (0, p)

/-- The value of a member: a string by where it begins and how long it is. -/
inductive JobreqValue
  | string (val : List Char) (vlen : Nat)
  | other
  deriving DecidableEq

def jobreqValue : List Char → Option (JobreqValue × List Char)
  | '"' :: p => (scanString p).map fun (s, r) => (.string p s.length, r)
  | p => (skipValue p).map fun r => (.other, r)

/-- What has to follow a member: the next one, or the end of the object. -/
def jobreqNext (p : List Char) : Option (List Char) :=
  match skipWs p with
  | ',' :: p =>
    match skipWs p with
    | '"' :: p => some ('"' :: p)
    | _ => none
  | '}' :: p => some ('}' :: p)
  | _ => none

/-- One turn of the loop of `jobreq_parse`, for a name: the place, and what was found. -/
def jobreqStep (key : List Char) :
    List Char × Option JobreqValue → (List Char × Option JobreqValue) ⊕ Option (Option JobreqValue)
  | ('}' :: p, found) => .inr (if skipWs p = [] then some found else none)
  | ('"' :: p, found) =>
    match scanString p with
    | none => .inr none
    | some (name, p) =>
      match skipWs p with
      | ':' :: p =>
        match jobreqValue (skipWs p) with
        | none => .inr none
        | some (this, p) =>
          match jobreqNext p with
          | none => .inr none
          | some p => .inl (p, if name = key then some this else found)
      | _ => .inr none
  | _ => .inr none

/-! ## Every turn goes on in the text -/

theorem skipWs_length (p : List Char) : (skipWs p).length ≤ p.length :=
  (List.dropWhile_suffix _).length_le

theorem skipValue_length {p r : List Char} (h : skipValue p = some r) : r.length ≤ p.length := by
  have hall : ∀ o, o = skipValueLoop.exec (0, p) → ∀ r, o = some r → r.length ≤ p.length := by
    rintro _ rfl
    refine skipValueLoop.rule (P := fun s o => ∀ r, o = some r → r.length ≤ s.2.length)
      (fun s o hs r ho => ?_) (fun s s' hs ih r ho => ?_) (0, p)
    · subst ho
      rw [skipValueStep_leaves hs]
    · exact Nat.le_trans (ih r ho) (Nat.le_of_lt (skipValueStep_lowers hs))
  exact hall _ rfl r h

theorem jobreqValue_length {p r : List Char} {v : JobreqValue} (h : jobreqValue p = some (v, r)) :
    r.length ≤ p.length := by
  unfold jobreqValue at h
  split at h
  · next q =>
    obtain ⟨⟨s, r'⟩, hs, heq⟩ := Option.map_eq_some_iff.mp h
    cases heq
    have := scanString_length hs
    simp only [List.length_cons]
    omega
  · obtain ⟨r', hr, heq⟩ := Option.map_eq_some_iff.mp h
    cases heq
    exact skipValue_length hr

theorem jobreqNext_length {p r : List Char} (h : jobreqNext p = some r) : r.length ≤ p.length := by
  have hskip := skipWs_length p
  unfold jobreqNext at h
  split at h
  · next q hq =>
    have hskip' := skipWs_length q
    split at h
    · next q' hq' =>
      cases h
      rw [hq] at hskip
      rw [hq'] at hskip'
      simp only [List.length_cons] at hskip hskip' ⊢
      omega
    · cases h
  · next q hq =>
    cases h
    rwa [hq] at hskip
  · cases h

theorem jobreqStep_lowers {key : List Char} {s s' : List Char × Option JobreqValue}
    (h : jobreqStep key s = .inl s') : s'.1.length < s.1.length := by
  unfold jobreqStep at h
  split at h
  · cases h
  · next p found =>
    split at h
    · cases h
    · next name q hname =>
      have hname := scanString_length hname
      have hcolon := skipWs_length q
      split at h
      · next q' hq =>
        rw [hq] at hcolon
        have hvalue := skipWs_length q'
        split at h
        · cases h
        · next this r hr =>
          have hr := jobreqValue_length hr
          split at h
          · cases h
          · next r' hr' =>
            cases h
            have hr' := jobreqNext_length hr'
            simp only [List.length_cons] at hcolon ⊢
            omega
      · cases h
  · cases h

def jobreqLoop (key : List Char) :
    Loop (List Char × Option JobreqValue) (Option (Option JobreqValue)) where
  step := jobreqStep key
  measure s := s.1.length
  lowers := jobreqStep_lowers

/-- What stands behind a name at the top level of a body; `none` if the body is damaged. -/
def jobreqScan (key body : List Char) : Option (Option JobreqValue) :=
  match skipWs body with
  | '{' :: p => (jobreqLoop key).exec (skipWs p, none)
  | _ => none

def JOBREQ_NONE : Nat := 0
def JOBREQ_UNKNOWN : Nat := 1
def JOBREQ_CANCEL : Nat := 2
def JOBREQ_HOLD : Nat := 3
def JOBREQ_RELEASE : Nat := 4

/-- `jobreq_parse`, with the member's value turned into its code when the scan is over. -/
def jobreqParse (body : List Char) : Nat :=
  match jobreqScan "request".toList body with
  | none | some none => JOBREQ_NONE
  | some (some .other) => JOBREQ_UNKNOWN
  | some (some (.string val vlen)) =>
    if val.take vlen = "cancel".toList then JOBREQ_CANCEL
    else if val.take vlen = "hold".toList then JOBREQ_HOLD
    else if val.take vlen = "release".toList then JOBREQ_RELEASE
    else JOBREQ_UNKNOWN

example : jobreqParse "\x7b\"a\": [\"request\"], \"request\" : \"hold\" \x7d ".toList =
    JOBREQ_HOLD := by
  decide +kernel

/-! ## Values -/

theorem isSpace_le {c : Char} (h : isSpace c = true) : c.toNat ≤ ' '.toNat := by
  simp only [isSpace, Bool.or_eq_true, decide_eq_true_eq] at h
  rcases h with ((rfl | rfl) | rfl) | rfl <;> decide

theorem skipWs_spaces {ws : List Char} (hws : Entry.Spaces ws) (p : List Char) :
    skipWs (ws ++ p) = skipWs p :=
  List.dropWhile_append_of_pos fun c hc => decide_eq_true (isSpace_le (hws c hc))

theorem skipWs_cons {c : Char} (hc : ' '.toNat < c.toNat) (p : List Char) :
    skipWs (c :: p) = c :: p :=
  List.dropWhile_cons_of_neg fun h => absurd (of_decide_eq_true h) (Nat.not_le.mpr hc)

theorem skipWs_all {ws : List Char} (hws : Entry.Spaces ws) : skipWs ws = [] := by
  have := skipWs_spaces hws []
  rwa [List.append_nil] at this

theorem skipWs_text {text : List Char} {v : Value} (h : Written text v) (p : List Char) :
    skipWs (text ++ p) = text ++ p := by
  cases h with
  | @word c w _ hw _ =>
    have hc := hw c List.mem_cons_self
    refine skipWs_cons (Nat.lt_of_le_of_ne (plain_of_isWord hc).2.2 fun heq => ?_) _
    exact isWord_ne hc rfl (Char.toNat_inj.mp heq.symm)
  | string _ => exact skipWs_cons (by decide) _
  | @group o _ _ _ ho _ _ _ =>
    simp only [isOpen, Bool.or_eq_true, decide_eq_true_eq] at ho
    rcases ho with rfl | rfl <;> exact skipWs_cons (by decide) _

theorem scanString_append {xs : List Char} (h : ∀ c ∈ xs, c ≠ '"' ∧ c ≠ '\\') (p : List Char) :
    scanString (xs ++ p) = (scanString p).map fun (s, r) => (xs ++ s, r) := by
  induction xs with
  | nil => simp
  | cons c xs ih =>
    obtain ⟨hc, hxs⟩ := List.forall_mem_cons.mp h
    rw [List.cons_append, scanString.eq_def]
    dsimp only
    rw [if_neg hc.1, if_neg hc.2, ih hxs, Option.map_map]
    rfl

theorem scanString_escape (e : Char) (p : List Char) :
    scanString ('\\' :: e :: p) = (scanString p).map fun (s, r) => ('\\' :: e :: s, r) := by
  rw [scanString.eq_def]
  rfl

/-- A string of a JSON text is scanned to its end. -/
theorem scanString_chars {body : List Char} {us : List Nat} (h : Chars body us)
    (rest : List Char) : scanString (body ++ '"' :: rest) = some (body, rest) := by
  induction h with
  | nil =>
    rw [List.nil_append, scanString.eq_def]
    rfl
  | @plain c cs us hc _ ih =>
    have hone := scanString_append (List.forall_mem_singleton.mpr ⟨hc.1, hc.2.1⟩)
      (cs ++ '"' :: rest)
    rw [ih] at hone
    exact hone
  | @short e u cs us _ _ ih =>
    rw [List.cons_append, List.cons_append, scanString_escape, ih]
    rfl
  | @code hs u cs us _ hu _ ih =>
    have hplain : ∀ c ∈ hs, c ≠ '"' ∧ c ≠ '\\' := fun c hc =>
      ⟨fun heq => hexFrom_ne_quote hu (heq ▸ hc), fun heq => hexFrom_ne_escape hu (heq ▸ hc)⟩
    rw [List.cons_append, List.cons_append, List.append_assoc, scanString_escape,
      scanString_append hplain, ih]
    rfl

theorem step_neutral {c : Char} (hc : Neutral c) (depth : Nat) (hcomma : c = ',' → depth ≠ 0)
    (p : List Char) : skipValueLoop.step (depth, c :: p) = .inl (depth, p) := by
  obtain ⟨hq, ho, hcl⟩ := hc
  simp only [isOpen, isClose, Bool.or_eq_false_iff, decide_eq_false_iff_not] at ho hcl
  have hcomma' : ¬ (c = ',' ∧ depth = 0) := fun h => hcomma h.1 h.2
  simp only [skipValueLoop, skipValueStep, hq, ho.1, ho.2, hcl.1, hcl.2, hcomma', or_self, if_false]

theorem step_open {o : Char} (ho : isOpen o = true) (depth : Nat) (p : List Char) :
    skipValueLoop.step (depth, o :: p) = .inl (depth + 1, p) := by
  simp only [isOpen, Bool.or_eq_true, decide_eq_true_eq] at ho
  rcases ho with rfl | rfl <;> rfl

theorem step_close {c : Char} (hc : isClose c = true) (depth : Nat) (p : List Char) :
    skipValueLoop.step (depth + 1, c :: p) = .inl (depth, p) := by
  simp only [isClose, Bool.or_eq_true, decide_eq_true_eq] at hc
  rcases hc with rfl | rfl <;> rfl

theorem step_quote {body : List Char} {us : List Nat} (h : Chars body us) (depth : Nat)
    (p : List Char) :
    skipValueLoop.step (depth, '"' :: (body ++ '"' :: p)) = .inl (depth, p) := by
  simp only [skipValueLoop, skipValueStep, if_true, scanString_chars h]

/-- Inside a value that is no string, nothing ends it. -/
theorem skipValue_inner {inner : List Char} (h : Inner inner) (depth : Nat) (rest : List Char) :
    skipValueLoop.exec (depth + 1, inner ++ rest) = skipValueLoop.exec (depth + 1, rest) := by
  induction h generalizing depth rest with
  | nil => rfl
  | @char c cs hc _ ih =>
    have hstep := step_neutral hc _ (fun _ => Nat.succ_ne_zero depth) (cs ++ rest)
    exact (skipValueLoop.exec_next hstep).trans (ih depth rest)
  | @string body cs us hbody _ ih =>
    have hstep := step_quote hbody (depth + 1) (cs ++ rest)
    rw [List.cons_append, List.append_assoc, List.cons_append]
    exact (skipValueLoop.exec_next hstep).trans (ih depth rest)
  | @group o c inner cs ho hc _ _ ih ih' =>
    rw [List.cons_append, List.append_assoc, List.cons_append]
    have hopen := step_open ho (depth + 1) (inner ++ c :: (cs ++ rest))
    have hclose := step_close hc (depth + 1) (cs ++ rest)
    rw [skipValueLoop.exec_next hopen, ih (depth + 1), skipValueLoop.exec_next hclose, ih' depth]

/-- A word and space are skipped. -/
theorem skipValue_plain {w : List Char} (h : ∀ c ∈ w, Neutral c ∧ c ≠ ',') (rest : List Char) :
    skipValueLoop.exec (0, w ++ rest) = skipValueLoop.exec (0, rest) := by
  induction w with
  | nil => rfl
  | cons c w ih =>
    obtain ⟨hc, hw⟩ := List.forall_mem_cons.mp h
    have hstep := step_neutral hc.1 0 (fun heq => absurd heq hc.2) (w ++ rest)
    exact (skipValueLoop.exec_next hstep).trans (ih hw)

/-- What `jobreq_parse` makes of a value, with the text behind it. -/
def valueAt (text rest : List Char) : JobreqValue :=
  if text.head? = some '"' then .string (text.tail ++ rest) (text.length - 2) else .other

/-- A value is read to its end, or through the space behind it. -/
theorem jobreqValue_written {text tail : List Char} {v : Value} (h : Written text v)
    (htail : Entry.Spaces tail) {c : Char} (hc : c = ',' ∨ c = '}') (rest : List Char) :
    ∃ p, jobreqValue (text ++ (tail ++ c :: rest)) =
        some (valueAt text (tail ++ c :: rest), p) ∧ skipWs p = c :: rest := by
  have hend : skipWs (c :: rest) = c :: rest := by
    rcases hc with rfl | rfl <;> exact skipWs_cons (by decide) rest
  have htailPlain : ∀ d ∈ tail, Neutral d ∧ d ≠ ',' := by
    refine fun d hd => ⟨neutral_of_isSpace (htail d hd), ?_⟩
    rintro rfl
    exact nomatch htail _ hd
  have hstop : skipValueLoop.exec (0, tail ++ c :: rest) = some (c :: rest) := by
    rw [skipValue_plain htailPlain]
    rcases hc with rfl | rfl <;> exact skipValueLoop.exec_done rfl
  cases h with
  | @word c' w _ hw _ =>
    have hplain : ∀ d ∈ c' :: w, Neutral d ∧ d ≠ ',' := fun d hd =>
      ⟨neutral_of_isWord (hw d hd), isWord_ne (hw d hd) rfl⟩
    have hq : c' ≠ '"' := (hplain c' List.mem_cons_self).1.1
    refine ⟨c :: rest, ?_, hend⟩
    have hskip : skipValue (c' :: w ++ (tail ++ c :: rest)) = some (c :: rest) :=
      (skipValue_plain hplain _).trans hstop
    rw [valueAt, List.head?_cons, if_neg fun heq => hq (Option.some.inj heq), jobreqValue, hskip]
    · rfl
    · rintro p heq
      exact hq (List.cons.inj heq).1
  | @string body us hbody =>
    refine ⟨tail ++ c :: rest, ?_, (skipWs_spaces htail _).trans hend⟩
    rw [List.cons_append, List.append_assoc, List.singleton_append, jobreqValue,
      scanString_chars hbody, valueAt]
    simp
  | @group o c' inner _ ho hc' hinner _ =>
    have hq : o ≠ '"' := by
      rintro rfl
      exact nomatch ho
    refine ⟨c :: rest, ?_, hend⟩
    have hskip : skipValue (o :: (inner ++ [c']) ++ (tail ++ c :: rest)) = some (c :: rest) := by
      rw [skipValue, List.cons_append, List.append_assoc, List.singleton_append,
        skipValueLoop.exec_next (step_open ho 0 _), skipValue_inner hinner,
        skipValueLoop.exec_next (step_close hc' 0 _), hstop]
    rw [valueAt, List.head?_cons, if_neg fun heq => hq (Option.some.inj heq), jobreqValue, hskip]
    · rfl
    · rintro p heq
      exact hq (List.cons.inj heq).1

/-! ## Members -/

/-- One member is one turn. -/
theorem step_entry (key : List Char) {e : Entry} (he : e.Ok) {c : Char} (hc : c = ',' ∨ c = '}')
    {rest p : List Char} (hnext : jobreqNext (c :: rest) = some p) (found : Option JobreqValue) :
    (jobreqLoop key).step ('"' :: e.named (c :: rest), found) =
      .inl (p, if e.name = key then some (valueAt e.text (e.tail ++ c :: rest)) else found) := by
  obtain ⟨q, hq, hskip⟩ := jobreqValue_written he.text he.tail hc rest
  have hcolon : skipWs (e.gap ++ ':' :: (e.sep ++ (e.text ++ (e.tail ++ c :: rest)))) =
      ':' :: (e.sep ++ (e.text ++ (e.tail ++ c :: rest))) :=
    (skipWs_spaces he.gap _).trans (skipWs_cons (by decide) _)
  have hvalue : skipWs (e.sep ++ (e.text ++ (e.tail ++ c :: rest))) =
      e.text ++ (e.tail ++ c :: rest) := by
    rw [skipWs_spaces he.sep]
    exact skipWs_text he.text _
  have hq' : jobreqNext q = some p := by
    have hc' : skipWs (c :: rest) = c :: rest := by
      rcases hc with rfl | rfl <;> exact skipWs_cons (by decide) rest
    rw [← hnext, jobreqNext, jobreqNext, hskip, hc']
  simp only [jobreqLoop, jobreqStep, Entry.named, scanString_chars he.name, hcolon, hvalue, hq, hq']

/-- The value behind the last of the names that are `key`, with the text from there to the end. -/
def lastNamed (key trail : List Char) : List Entry → Option JobreqValue
  | [] => none
  | e :: es =>
    match lastNamed key trail es with
    | some v => some v
    | none =>
      if e.name = key then some (valueAt e.text (e.tail ++ (closing es ++ '}' :: trail))) else none

/-- All the members, from the quote of a name on. -/
theorem exec_members (key : List Char) {trail : List Char} (htrail : Entry.Spaces trail)
    {inner : List Char} {es : List Entry} (h : Members inner es) :
    ∃ p, skipWs (inner ++ '}' :: trail) = '"' :: p ∧ ∀ found,
      (jobreqLoop key).exec ('"' :: p, found) = some ((lastNamed key trail es).or found) := by
  have hlead {e : Entry} (he : e.Ok) (post : List Char) :
      skipWs (e.written ++ post) = '"' :: e.named post := by
    rw [e.written_append, skipWs_spaces he.lead]
    exact skipWs_cons (by decide) _
  induction h with
  | @last e he =>
    refine ⟨e.named ('}' :: trail), hlead he _, fun found => ?_⟩
    have hnext : jobreqNext ('}' :: trail) = some ('}' :: trail) := rfl
    rw [Loop.exec_next _ (step_entry key he (.inr rfl) hnext found)]
    refine Loop.exec_done _ ?_
    simp only [jobreqLoop, jobreqStep, skipWs_all htrail, if_true, lastNamed, closing,
      List.flatMap_nil, List.nil_append]
    split <;> rfl
  | @more e es cs he h ih =>
    obtain ⟨p, hp, hexec⟩ := ih
    obtain ⟨f, back, rfl, rfl⟩ := h.eq_cons
    refine ⟨e.named (',' :: (f.written ++ closing back ++ '}' :: trail)), ?_, fun found => ?_⟩
    · rw [List.append_assoc, hlead he]
      rfl
    · have hnext : jobreqNext (',' :: (f.written ++ closing back ++ '}' :: trail)) =
          some ('"' :: p) := by
        rw [jobreqNext, skipWs_cons (by decide)]
        simp only [hp]
      rw [Loop.exec_next _ (step_entry key he (.inl rfl) hnext found), hexec]
      have hclosing : closing (f :: back) ++ '}' :: trail =
          ',' :: (f.written ++ closing back ++ '}' :: trail) := by
        simp [closing]
      rw [lastNamed.eq_def key trail (e :: f :: back)]
      dsimp only
      rw [hclosing]
      cases lastNamed key trail (f :: back) with
      | some v => rfl
      | none => split <;> rfl

theorem lastNamed_eq_none_iff {key trail : List Char} {es : List Entry} :
    lastNamed key trail es = none ↔ ∀ e ∈ es, e.name ≠ key := by
  induction es with
  | nil => exact ⟨fun _ => nofun, fun _ => rfl⟩
  | cons e es ih =>
    rw [List.forall_mem_cons, ← ih, lastNamed]
    cases lastNamed key trail es with
    | some v => exact ⟨nofun, fun h => nomatch h.2⟩
    | none => by_cases he : e.name = key <;> simp [he]

theorem lastNamed_append {key trail : List Char} {front back : List Entry} {e : Entry}
    (hname : e.name = key) (hback : ∀ f ∈ back, f.name ≠ key) :
    lastNamed key trail (front ++ e :: back) =
      some (valueAt e.text (e.tail ++ (closing back ++ '}' :: trail))) := by
  induction front with
  | nil =>
    rw [List.nil_append, lastNamed, lastNamed_eq_none_iff.mpr hback]
    exact if_pos hname
  | cons f front ih => rw [List.cons_append, lastNamed, ih]

theorem lastNamed_eq_some {key trail : List Char} {es : List Entry} {v : JobreqValue}
    (h : lastNamed key trail es = some v) :
    ∃ front e back, es = front ++ e :: back ∧ e.name = key ∧ (∀ f ∈ back, f.name ≠ key) ∧
      v = valueAt e.text (e.tail ++ (closing back ++ '}' :: trail)) := by
  induction es with
  | nil => cases h
  | cons e es ih =>
    cases hlast : lastNamed key trail es with
    | some v' =>
      rw [lastNamed, hlast] at h
      obtain ⟨front, f, back, rfl, hf⟩ := ih (hlast.trans h)
      exact ⟨e :: front, f, back, rfl, hf⟩
    | none =>
      rw [lastNamed, hlast] at h
      obtain ⟨hname, heq⟩ := Option.ite_none_right_eq_some.mp h
      exact ⟨[], e, es, rfl, hname, lastNamed_eq_none_iff.mp hlast, (Option.some.inj heq).symm⟩

/-- `jobreq_parse` finds the last member that is written with the name. -/
theorem jobreqScan_eq (key : List Char) {body : List Char} {ms : List (List Nat × Value)}
    (d : Layout body ms) : jobreqScan key body = some (lastNamed key d.trail d.entries) := by
  have hbody : skipWs body = '{' :: (d.inner ++ '}' :: d.trail) := by
    conv_lhs => rw [d.eq]
    rw [skipWs_spaces d.lead_spaces]
    exact skipWs_cons (by decide) _
  rw [jobreqScan, hbody]
  change (jobreqLoop key).exec (skipWs (d.inner ++ '}' :: d.trail), none) = _
  have hf := d.fields
  generalize d.inner = inner at hf ⊢
  generalize d.entries = es at hf ⊢
  cases hf with
  | none hws =>
    rw [skipWs_spaces hws, skipWs_cons (by decide)]
    refine Loop.exec_done _ ?_
    simp only [jobreqLoop, jobreqStep, skipWs_all d.trail_spaces, if_true, lastNamed]
  | members h =>
    obtain ⟨p, hp, hexec⟩ := exec_members key d.trail_spaces h
    rw [hp, hexec, Option.or_none]

end Mvsmf
