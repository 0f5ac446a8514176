import Mvsmf.Common.JsonExtract
import Mvsmf.Console.Collect
import Mvsmf.Dsapi.Allocate
import Mathlib

/-!
# The request to issue a command

`consoleIssueHandler` takes the members of its body one by one with `json_get_str`, which knows no
escapes and takes what stands behind the next colon of the first place of a name. SVC 34 gets the
first 100 characters of the command.
-/

namespace Mvsmf

open Json CLib

/-! ## The members of the body -/

def PAT_SIZE : Nat := 40

/-- The value, as far as a buffer of `outsz` takes it. -/
def jsonGetStr (body key : List Char) (outsz : Nat) : Option (List Char) :=
  if key.length + 3 > PAT_SIZE then none
  else
    match strstrAt ('"' :: (key ++ ['"'])) body with
    | none => none
    | some p =>
      match (p.drop (key.length + 2)).dropWhile (· ≠ ':') with
      | [] => none
      | _ :: p =>
        match skipBlanks p with
        | '"' :: v =>
          if '"' ∈ v then some ((v.takeWhile (· ≠ '"')).take (outsz - 1)) else none
        | _ => none

/-- A buffer that stays empty where there is no value. -/
def jsonField (body : List Char) (key : String) (outsz : Nat) : List Char :=
  (jsonGetStr body key.toList outsz).getD []

def isYes (flag : List Char) : Bool := flag.head? == some 'Y' || flag.head? == some 'y'

/-- What the handler goes on with. `timeout` is the bound on a synchronous detection. -/
structure IssueFields where
  cmd : List Char
  isAsync : Bool
  solkey : List Char
  unsolkey : List Char
  unsolSync : Bool
  detectSecs : Nat
  timeout : Nat

def cmdMissing : ConsoleError :=
  ⟨400, 1, 13, "Cannot find 'cmd' in request body, or value of 'cmd' is empty."⟩

def cmdTooLong : ConsoleError := ⟨400, 1, 17, "Command length must be less than 127."⟩

def solKeyRegular : ConsoleError :=
  ⟨400, 1, 25, "Invalid value for sol-key: regular expressions are not supported."⟩

def unsolKeyRegular : ConsoleError :=
  ⟨400, 1, 25, "Invalid value for unsol-key: regular expressions are not supported."⟩

def otherSystem : ConsoleError := ⟨400, 1, 5, "Routing to another system is not supported."⟩

/-- `detect_secs`: a time that is missing or not positive is 30 seconds. -/
def detectTime (detecttime : List Char) : Nat :=
  let secs := if detecttime = [] then 30 else atoi detecttime
  if secs ≤ 0 then 30 else secs.toNat

/-- A bound that is missing, 0, negative or above 60 is 20 seconds. -/
def detectTimeout (unsoltimeout : List Char) : Nat :=
  let secs := if unsoltimeout = [] then 20 else atoi unsoltimeout
  if secs ≤ 0 ∨ 60 < secs then 20 else secs.toNat

def issueFields (body : List Char) : Except ConsoleError IssueFields :=
  let cmd := jsonField body "cmd" (CMD_MAX + 2)
  let solkey := jsonField body "sol-key" 64
  let unsolkey := jsonField body "unsol-key" 64
  if cmd = [] then .error cmdMissing
  else if cmd.length > CMD_MAX then .error cmdTooLong
  else if (jsonField body "solKeyReg" 4).head? = some 'Y' ∧ solkey ≠ [] then .error solKeyRegular
  else if (jsonField body "unsolKeyReg" 4).head? = some 'Y' ∧ unsolkey ≠ [] then
    .error unsolKeyRegular
  else if jsonField body "system" 16 ≠ [] then .error otherSystem
  else .ok
    { cmd := cmd
      isAsync := isYes (jsonField body "async" 4)
      solkey := solkey
      unsolkey := unsolkey
      unsolSync := isYes (jsonField body "unsol-detect-sync" 4)
      detectSecs := detectTime (jsonField body "detect-time" 8)
      timeout := detectTimeout (jsonField body "unsol-detect-timeout" 8) }

def IssueFields.cmdUpper (f : IssueFields) : List Char := f.cmd.map Char.toUpper

/-- `issue_command` up to SVC 34: the text it puts into the command buffer. -/
def issueText (cmd : List Char) : List Char := cmd.take 100

theorem issueFields_cmd {body : List Char} {f : IssueFields} (h : issueFields body = .ok f) :
    f.cmd = jsonField body "cmd" (CMD_MAX + 2) ∧ f.cmd ≠ [] ∧ f.cmd.length ≤ CMD_MAX := by
  unfold issueFields at h
  dsimp only at h
  split at h
  · cases h
  · next hempty =>
    split at h
    · cases h
    · next hlong =>
      split at h
      · cases h
      · split at h
        · cases h
        · split at h
          · cases h
          · cases h
            exact ⟨rfl, hempty, Nat.not_lt.mp hlong⟩

/-- The first check is that of the command. -/
theorem issueFields_missing {body : List Char} (h : jsonField body "cmd" (CMD_MAX + 2) = []) :
    issueFields body = .error cmdMissing := by
  unfold issueFields
  dsimp only
  rw [if_pos h]

theorem issueFields_tooLong {body : List Char}
    (h : CMD_MAX < (jsonField body "cmd" (CMD_MAX + 2)).length) :
    issueFields body = .error cmdTooLong := by
  have hne : jsonField body "cmd" (CMD_MAX + 2) ≠ [] := by
    intro hnil
    rw [hnil] at h
    exact absurd h (Nat.not_lt_zero _)
  unfold issueFields
  dsimp only
  rw [if_neg hne, if_pos h]

/-! ## A member that is the command -/

/-- The first `"cmd"` of the body is the name of a member whose value is a string, written `text`. -/
structure Commands {body : List Char} {ms : List (List Nat × Value)} (d : Layout body ms)
    (e : Entry) (back : List Entry) (text : List Char) (us : List Nat) : Prop where
  member : ∃ front, d.entries = front ++ e :: back
  spelled : e.name = "cmd".toList
  place : strstrAt "\"cmd\"".toList body = some ('"' :: e.named (d.behind back))
  value : e.value = .str us
  text : e.text = '"' :: (text ++ ['"'])

/-- The string in upper case, and nothing else. -/
def CommandOf (us : List Nat) (issued : List Char) : Prop :=
  ∃ value, us = units value ∧ issued = value.map Char.toUpper

section
variable {body : List Char} {ms : List (List Nat × Value)} {d : Layout body ms} {e : Entry}
  {back : List Entry} {text : List Char} {us : List Nat}

theorem Commands.chars (h : Commands d e back text us) : Chars text us := by
  obtain ⟨front, hes⟩ := h.member
  have hok := d.ok e (hes ▸ List.mem_append_right _ List.mem_cons_self)
  obtain ⟨text', htext', hchars⟩ := (h.value ▸ hok.text).string_of
  obtain rfl : text = text' := by simpa using h.text.symm.trans htext'
  exact hchars

/-- Space that is not all blanks and tabs is not skipped. -/
theorem skipBlanks_of_not_blanks {sep : List Char} (hsep : Entry.Spaces sep) (hb : ¬ Blanks sep)
    (t : List Char) : (skipBlanks (sep ++ t)).head? ≠ some '"' := by
  obtain ⟨bs, hbs, heq⟩ := skipBlanks_split sep
  cases hrest : skipBlanks sep with
  | nil =>
    rw [hrest, List.append_nil] at heq
    exact absurd (heq ▸ hbs) hb
  | cons c rest =>
    have hc : c ≠ ' ' ∧ c ≠ '\t' := by
      have hhead := List.head?_dropWhile_not (fun c => c = ' ' || c = '\t') sep
      rw [← skipBlanks, hrest] at hhead
      simpa using hhead
    have hspace : isSpace c = true := by
      apply hsep
      rw [heq, hrest]
      exact List.mem_append_right _ List.mem_cons_self
    rw [heq, hrest, List.append_assoc, skipBlanks_append hbs, List.cons_append, skipBlanks_cons hc]
    intro hquote
    cases Option.some.inj hquote
    cases hspace

/-- The handler reads what stands behind the colon of the member. -/
theorem Commands.jsonGetStr_eq (h : Commands d e back text us) :
    jsonGetStr body "cmd".toList (CMD_MAX + 2) =
      match skipBlanks (e.sep ++ (e.text ++ (e.tail ++ d.behind back))) with
      | '"' :: v =>
        if '"' ∈ v then some ((v.takeWhile (· ≠ '"')).take (CMD_MAX + 1)) else none
      | _ => none := by
  obtain ⟨front, hes⟩ := h.member
  have hok := d.ok e (hes ▸ List.mem_append_right _ List.mem_cons_self)
  have hcolon (t : List Char) : (e.gap ++ ':' :: t).dropWhile (· ≠ ':') = ':' :: t := by
    rw [List.dropWhile_append_of_pos, List.dropWhile_cons_of_neg (by simp)]
    intro c hc
    have hspace := hok.gap c hc
    refine decide_eq_true ?_
    rintro rfl
    cases hspace
  have hdrop : ('"' :: e.named (d.behind back)).drop ("cmd".toList.length + 2) =
      e.gap ++ ':' :: (e.sep ++ (e.text ++ (e.tail ++ d.behind back))) := by
    rw [Entry.named, h.spelled]
    rfl
  have hshort : ¬ "cmd".toList.length + 3 > PAT_SIZE := by decide
  have hplace : strstrAt ('"' :: ("cmd".toList ++ ['"'])) body =
    some ('"' :: e.named (d.behind back)) := h.place
  rw [jsonGetStr, if_neg hshort, hplace]
  dsimp only
  rw [hdrop, hcolon]
  rfl

/-- The text up to its first quote, if there are but blanks in front of it. -/
theorem Commands.field (h : Commands d e back text us) (hb : Blanks e.sep) :
    jsonField body "cmd" (CMD_MAX + 2) = (text.takeWhile (· ≠ '"')).take (CMD_MAX + 1) := by
  have htext : e.text ++ (e.tail ++ d.behind back) =
      '"' :: (text ++ '"' :: (e.tail ++ d.behind back)) := by
    rw [h.text]
    simp
  have hquote : skipBlanks ('"' :: (text ++ '"' :: (e.tail ++ d.behind back))) =
    '"' :: (text ++ '"' :: (e.tail ++ d.behind back)) := skipBlanks_cons (by decide) _
  have hcut (rest : List Char) :
      (text ++ '"' :: rest).takeWhile (· ≠ '"') = text.takeWhile (· ≠ '"') := by
    rw [List.takeWhile_append]
    split
    · next hall =>
      rw [List.takeWhile_cons_of_neg (by simp), List.append_nil]
      exact (List.takeWhile_prefix _).eq_of_length hall |>.symm
    · rfl
  rw [jsonField, h.jsonGetStr_eq, skipBlanks_append hb, htext, hquote, ← hcut]
  exact congrArg (Option.getD · []) (if_pos (List.mem_append_right _ List.mem_cons_self))

theorem Commands.field_none (h : Commands d e back text us) (hb : ¬ Blanks e.sep) :
    jsonField body "cmd" (CMD_MAX + 2) = [] := by
  obtain ⟨front, hes⟩ := h.member
  have hok := d.ok e (hes ▸ List.mem_append_right _ List.mem_cons_self)
  have hhead := skipBlanks_of_not_blanks hok.sep hb (e.text ++ (e.tail ++ d.behind back))
  rw [jsonField, h.jsonGetStr_eq]
  split
  · next v hv =>
    rw [hv] at hhead
    exact absurd rfl hhead
  · rfl

/-! ## What is issued -/

theorem length_upper (cs : List Char) : (cs.map Char.toUpper).length = cs.length := List.length_map _

theorem toUpper_eq_quote {c : Char} : c.toUpper = '"' ↔ c = '"' := by
  rw [← Char.toNat_inj, ← Char.toNat_inj, toNat_toUpper]
  have hquote : '"'.toNat = 34 := rfl
  rw [hquote]
  split <;> omega

/-- What an accepted body issues. -/
theorem Commands.issued (h : Commands d e back text us) {f : IssueFields}
    (hf : issueFields body = .ok f) :
    issueText f.cmdUpper = ((text.takeWhile (· ≠ '"')).map Char.toUpper).take 100 := by
  obtain ⟨hcmd, hne, -⟩ := issueFields_cmd hf
  by_cases hb : Blanks e.sep
  · rw [issueText, IssueFields.cmdUpper, hcmd, h.field hb, List.map_take, List.take_take]
    rfl
  · exact absurd (hcmd.trans (h.field_none hb)) hne

theorem takeWhile_of_noQuote {cs : List Char} (h : '"' ∉ cs) : cs.takeWhile (· ≠ '"') = cs := by
  apply List.takeWhile_eq_self_iff.mpr
  intro c hc
  refine decide_eq_true ?_
  rintro rfl
  exact h hc

/-- Without escapes the string is what is written. -/
theorem Commands.plain (h : Commands d e back text us) (hback : '\\' ∉ text) :
    us = units text ∧ text.takeWhile (· ≠ '"') = text := by
  obtain ⟨hplain, hus⟩ := h.chars.plain_of hback
  refine ⟨hus, takeWhile_of_noQuote fun hq => ?_⟩
  exact (hplain _ hq).1 rfl

theorem quote_mem_of_units {value : List Char} (h : 34 ∈ units value) : '"' ∈ value := by
  obtain ⟨c, hc, hunit⟩ := List.mem_map.mp h
  rwa [(toNat_eq_quote c).mp hunit] at hc

/-- With an escape the text is longer than its string, or is read only as far as a quote. -/
theorem Commands.not_commandOf (h : Commands d e back text us) (hback : '\\' ∈ text)
    (hlen : text.length ≤ 100) {f : IssueFields} (hf : issueFields body = .ok f) :
    ¬ CommandOf us (issueText f.cmdUpper) := by
  rintro ⟨value, rfl, hissued⟩
  rw [h.issued hf] at hissued
  by_cases hq : '"' ∈ text
  · have hquote := quote_mem_of_units (h.chars.quote_mem hq)
    have hmem : '"' ∈ value.map Char.toUpper :=
      List.mem_map.mpr ⟨'"', hquote, toUpper_eq_quote.mpr rfl⟩
    rw [← hissued] at hmem
    obtain ⟨c, hc, hupper⟩ := List.mem_map.mp (List.mem_of_mem_take hmem)
    rw [toUpper_eq_quote.mp hupper] at hc
    have hno := List.mem_takeWhile_imp hc
    simp at hno
  · have hshort := h.chars.length_le.2 hback
    have hsame := congrArg List.length hissued
    rw [takeWhile_of_noQuote hq, List.length_take, length_upper, length_upper,
      Nat.min_eq_right hlen] at hsame
    rw [units, List.length_map, ← hsame] at hshort
    exact Nat.lt_irrefl _ hshort

variable (d e back text us) in
/-- **The command.** Where the first `"cmd"` of a body is the name of a member with a string: a member
whose value stands on another line, an empty one and one of more than 126 characters without escapes
are refused; and of an accepted body SVC 34 gets the text in upper case up to its first quote and to
100 characters. This is the string, for a text that fits, only if it has no escapes; a longer text
without escapes is cut. -/
theorem command_issued (h : Commands d e back text us) :
    (¬ Blanks e.sep ∨ text = [] → issueFields body = .error cmdMissing) ∧
    (Blanks e.sep → '\\' ∉ text → CMD_MAX < text.length → issueFields body = .error cmdTooLong) ∧
    ∀ f, issueFields body = .ok f →
      issueText f.cmdUpper = ((text.takeWhile (· ≠ '"')).map Char.toUpper).take 100 ∧
      (text.length ≤ 100 → (CommandOf us (issueText f.cmdUpper) ↔ '\\' ∉ text)) ∧
      ('\\' ∉ text → 100 < text.length → ¬ CommandOf us (issueText f.cmdUpper)) := by
  refine ⟨?_, ?_, fun f hf => ⟨h.issued hf, ?_, ?_⟩⟩
  · intro hmissing
    apply issueFields_missing
    by_cases hb : Blanks e.sep
    · rw [h.field hb, hmissing.resolve_left (not_not.mpr hb)]
      rfl
    · exact h.field_none hb
  · intro hb hback hlong
    apply issueFields_tooLong
    rw [h.field hb, (h.plain hback).2, List.length_take]
    exact Nat.lt_min.mpr ⟨Nat.lt_succ_self _, hlong⟩
  · intro hlen
    constructor
    · intro hwhole hback
      exact h.not_commandOf hback hlen hf hwhole
    · intro hback
      obtain ⟨hus, hall⟩ := h.plain hback
      refine ⟨text, hus, ?_⟩
      rw [h.issued hf, hall, List.take_of_length_le]
      rwa [length_upper]
  · rintro hback hlong ⟨value, hvalue, hissued⟩
    obtain ⟨hus, hall⟩ := h.plain hback
    obtain rfl := units_inj (hus.symm.trans hvalue)
    have hsame := congrArg List.length hissued
    rw [h.issued hf, hall, List.length_take, length_upper] at hsame
    omega

end

/-- A body with a command and nothing else. -/
def cmdEntry (text : List Char) : Entry where
  lead := []
  name := "cmd".toList
  gap := []
  sep := []
  text := '"' :: (text ++ ['"'])
  tail := []
  key := units "cmd".toList
  value := .str (units text)

theorem cmdEntry_ok {text : List Char} (h : ∀ c ∈ text, Plain c) : (cmdEntry text).Ok where
  lead := List.forall_mem_nil _
  name := .of_plain (by simp [Plain] : ∀ c ∈ "cmd".toList, Plain c)
  gap := List.forall_mem_nil _
  sep := List.forall_mem_nil _
  text := .string (.of_plain h)
  tail := List.forall_mem_nil _

def cmdLayout {text : List Char} (h : ∀ c ∈ text, Plain c) :
    Layout ('{' :: ((cmdEntry text).written ++ ['}'])) [(cmdEntry text).member] where
  lead := []
  inner := (cmdEntry text).written
  trail := []
  entries := [cmdEntry text]
  eq := rfl
  lead_spaces := List.forall_mem_nil _
  fields := .members (.last (cmdEntry_ok h))
  trail_spaces := List.forall_mem_nil _
  members := rfl

/-- A display of the time, in small letters. -/
theorem command_issued_display :
    CommandOf (units "d t".toList) (issueText
      ((jsonField ('{' :: ((cmdEntry "d t".toList).written ++ ['}'])) "cmd" 128).map Char.toUpper)) := by
  have hplain : ∀ c ∈ "d t".toList, Plain c := by simp [Plain]
  have h : Commands (cmdLayout hplain) (cmdEntry "d t".toList) [] "d t".toList
      (units "d t".toList) := ⟨⟨[], rfl⟩, rfl, rfl, rfl, rfl⟩
  have hok : (issueFields ('{' :: ((cmdEntry "d t".toList).written ++ ['}']))).toBool = true := by
    decide +kernel
  cases hf : issueFields ('{' :: ((cmdEntry "d t".toList).written ++ ['}'])) with
  | error e =>
    rw [hf] at hok
    cases hok
  | ok f =>
    have hissued := (command_issued (cmdLayout hplain) (cmdEntry "d t".toList) [] _ _ h).2.2 f hf
    have hwhole := (hissued.2.1 (by decide)).mpr (by decide)
    rwa [IssueFields.cmdUpper, (issueFields_cmd hf).1] at hwhole

end Mvsmf
