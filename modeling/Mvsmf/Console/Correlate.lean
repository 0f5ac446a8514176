import Mvsmf.Lib.Scan
import Mvsmf.Lib.Strtoul
import Mathlib

/-!
# One poll of the Master Trace Table

`correlate_once` finds the echo of a command in a copy of the table and walks the entries behind
it; the lines the walk takes are the command's response block. `collect_poll` asks it for the lines
beyond those delivered and moves the count forward. The count goes over every line of the block,
also over one the response buffer had no room for.
-/

namespace Mvsmf

open CLib

/-! ## Entries -/

def MTT_ENTRY_MAX : Nat := 256
def MTT_SRC_OFF : Nat := 14
def MTT_SRC_LEN : Nat := 8
def MTT_MSG_OFF : Nat := 24

/-- The length of an entry's data, clamped. -/
def mttLen (mtentlen : Int) : Nat :=
  if mtentlen < 0 then 0
  else if mtentlen > MTT_ENTRY_MAX then MTT_ENTRY_MAX
  else mtentlen.toNat

/-- An entry of the table; `mtentdat` are the characters that can be read from there on. -/
structure MtEntry where
  mtentlen : Int
  mtentdat : List Char
  covers : mttLen mtentlen ≤ mtentdat.length

/-- The formatted line of an entry. -/
def MtEntry.line (e : MtEntry) : List Char := e.mtentdat.take (mttLen e.mtentlen)

def rstrip (s : List Char) : List Char := s.rdropWhile (· == ' ')

/-- The jobtype and number of a line, if it has them. -/
def mttSource (dat : List Char) : Option (List Char) :=
  if MTT_SRC_OFF + MTT_SRC_LEN ≤ dat.length then some ((dat.drop MTT_SRC_OFF).take MTT_SRC_LEN)
  else none

/-- The seconds of day of a line's `hh.mm.ss`, `none` standing for -1. -/
def mttSecsOfDay (dat : List Char) : Option Nat :=
  let t := (dat.drop 4).dropWhile (· == ' ')
  let hh := t.takeWhile (isDigit 10)
  let h := numeral 10 hh
  if hh.length = 0 ∨ hh.length > 2 then none
  else
    match t.drop hh.length with
    | p :: m₁ :: m₂ :: q :: s₁ :: s₂ :: _ =>
      if p = '.' ∧ q = '.' ∧ ([m₁, m₂, s₁, s₂].all (isDigit 10)) = true then
        let m := numeral 10 [m₁, m₂]
        let s := numeral 10 [s₁, s₂]
        if h > 23 ∨ m > 59 ∨ s > 59 then none else some (h * 3600 + m * 60 + s)
      else none
    | _ => none

/-- The entry's message is the command, trailing blanks apart. -/
def isEchoLine (cmdUpper : List Char) (e : MtEntry) : Bool :=
  let len := e.line.length
  let msg := rstrip (e.line.drop MTT_MSG_OFF)
  decide (MTT_MSG_OFF < len) && !msg.isEmpty && msg == rstrip cmdUpper

/-- The first token has no digit in it. -/
def isCommandShaped (msg : List Char) : Bool :=
  !msg.isEmpty && (msg.takeWhile (· != ' ')).all fun c => !isDigit 10 c

/-- The last token, if it is all digits and fits a `char[12]`. -/
def mlwtoNum (line : List Char) : Option (List Char) :=
  let token := (rstrip line).rtakeWhile (· != ' ')
  if token.isEmpty ∨ token.length ≥ 12 then none
  else if token.all (isDigit 10) then some token
  else none

/-! ## The walk -/

/-- What the walk carries: the block's source, the MLWTO number, whether the source was taken from
the target, and the number of lines so far. -/
structure CorrWalk where
  src : List Char
  num : Option (List Char)
  adopted : Bool
  lineIdx : Nat

def isBlankSrc (dat : List Char) : Bool :=
  match mttSource dat with
  | some f => f.all (· == ' ')
  | none => false

/-- A continuation of a multi-line message: the line starts with its number. -/
def isCont (num : Option (List Char)) (dat : List Char) : Bool :=
  match num with
  | some n => n.isPrefixOf (dat.dropWhile (· == ' '))
  | none => false

/-- The line is in the echo's second or the next, modulo a day. -/
def inEchoSecond (echoSecs : Option Nat) (dat : List Char) : Bool :=
  match echoSecs, mttSecsOfDay dat with
  | some e, some s => decide ((if s < e then s + 86400 - e else s - e) ≤ 1)
  | _, _ => false

/-- One entry behind the echo: `none` ends the block. -/
def walkEntry (isrc : List Char) (echoSecs : Option Nat) (w : CorrWalk) (e : MtEntry) :
    Option (CorrWalk × Option (List Char)) :=
  let dat := e.line
  let isIssuer := mttSource dat == some isrc
  let blankSrc := isBlankSrc dat
  let cont := isCont w.num dat
  if !cont && (isIssuer || blankSrc) && decide (MTT_MSG_OFF < dat.length) &&
      isCommandShaped (rstrip (dat.drop MTT_MSG_OFF)) then
    -- a command from the issuer's source starts another block
    if isIssuer then none else some (w, none)
  else
    let foreign := !(mttSource dat == some w.src) && !blankSrc && !cont
    -- the answer to a MODIFY comes under the source of the target
    let adopt := foreign && w.lineIdx == 0 && !w.adopted && inEchoSecond echoSecs dat
    let w := match adopt, mttSource dat with
      | true, some f => { w with src := f, adopted := true }
      | _, _ => w
    let hasSrc := mttSource dat == some w.src
    if !hasSrc && !blankSrc && !cont then
      if w.lineIdx > 0 then none else some (w, none)
    else if cont && !hasSrc && !blankSrc then
      let raw := dat.dropWhile (· == ' ')
      let msg := rstrip ((raw.drop (w.num.getD []).length).dropWhile (· == ' '))
      some ({ w with lineIdx := w.lineIdx + 1 }, some msg)
    else if dat.length ≤ MTT_MSG_OFF then some (w, none)
    else
      let msg := rstrip (dat.drop MTT_MSG_OFF)
      some ({ w with num := (mlwtoNum msg).or w.num, lineIdx := w.lineIdx + 1 }, some msg)

/-- The source of the echo, blanks if it has none. -/
def echoSource (echo : MtEntry) : List Char :=
  (mttSource echo.line).getD (List.replicate MTT_SRC_LEN ' ')

/-- The walk behind `echo`. -/
def corrScan (echo : MtEntry) : Scan CorrWalk MtEntry (List Char) where
  step := walkEntry (echoSource echo) (mttSecsOfDay echo.line)

def corrStart (echo : MtEntry) : CorrWalk := ⟨echoSource echo, none, false, 0⟩

/-- The newest echo of the command, or the oldest with the second a cursor was stored with. -/
def findEcho (cmdUpper : List Char) (wantSecs : Option Nat) (arr : List MtEntry) :
    Option (MtEntry × List MtEntry) :=
  match wantSecs with
  | none => Table.newest (isEchoLine cmdUpper) arr
  | some s => Table.oldest (fun e => isEchoLine cmdUpper e && mttSecsOfDay e.line == some s) arr

/-- The lines of the block, the empty ones too. -/
def blockLines (cmdUpper : List Char) (wantSecs : Option Nat) (arr : List MtEntry) :
    List (List Char) :=
  match findEcho cmdUpper wantSecs arr with
  | some (echo, rest) => (corrScan echo).takes (corrStart echo) rest
  | none => []

structure Correlated where
  out : List Char
  total : Nat
  echoSecs : Option Nat

/-- One correlation; `none` is a snapshot that could not be taken. -/
def correlateOnce (snap : Option (List MtEntry)) (cmdUpper : List Char) (outsz skip : Nat)
    (wantSecs : Option Nat) : Option Correlated :=
  match snap with
  | none => none
  | some arr =>
    let lines := blockLines cmdUpper wantSecs arr
    some {
      out := cString (fill '\r' outsz 0 (lines.drop skip))
      total := lines.length
      echoSecs := (findEcho cmdUpper wantSecs arr).bind fun r => mttSecsOfDay r.1.line }

/-- One poll of a collect: the text of its response, `none` for a failed poll, and the count of the
delivered lines. `storage` is whether the buffer of `cap` bytes could be had. -/
def collectPoll (storage : Bool) (snap : Option (List MtEntry)) (cmdUpper : List Char)
    (echoSecs : Option Nat) (cap delivered : Nat) : Option (List Char) × Nat :=
  if storage then
    match correlateOnce snap cmdUpper cap delivered echoSecs with
    | some r => (some r.out, if r.total > delivered then r.total else delivered)
    | none => (none, delivered)
  else (none, delivered)

/-! ## What a poll delivers -/

/-- The buffer takes the lines: there are none to write, or with their ends and the NUL they fit and
none has a NUL of its own. -/
def LinesFit (cap : Nat) (ls : List (List Char)) : Prop :=
  endedLines '\r' ls = [] ∨
    (endedLines '\r' ls).length < cap ∧ '\x00' ∉ endedLines '\r' ls

/-- The block's lines in a snapshot. -/
def snapLines (cmdUpper : List Char) (wantSecs : Option Nat) (snap : Option (List MtEntry)) :
    List (List Char) :=
  (snap.map (blockLines cmdUpper wantSecs)).getD []

/-- A poll does not pass over a line: its text has each of the lines that are counted as delivered
now and were not before, whole and in order, the empty ones apart. -/
def PollWhole (storage : Bool) (snap : Option (List MtEntry)) (cmdUpper : List Char)
    (echoSecs : Option Nat) (cap delivered : Nat) : Prop :=
  let r := collectPoll storage snap cmdUpper echoSecs cap delivered
  r.1.getD [] = endedLines '\r' (((snapLines cmdUpper echoSecs snap).take r.2).drop delivered)

/-- The response has all the lines exactly if they fit. -/
theorem out_eq_iff {cap : Nat} {ls : List (List Char)} :
    cString (fill '\r' cap 0 ls) = endedLines '\r' ls ↔ LinesFit cap ls := by
  constructor
  · intro h
    have hpre : endedLines '\r' ls <+: fill '\r' cap 0 ls := h ▸ cString_prefix _
    have hfill := (hpre.eq_of_length_le (fill_length_le '\r' cap 0 ls)).symm
    rcases fill_eq_iff.mp hfill with hnil | hlt
    · exact Or.inl hnil
    · right
      rw [hfill, cString_eq_self_iff] at h
      exact ⟨by omega, h⟩
  · rintro (hnil | ⟨hlt, hnul⟩)
    · rw [fill_eq_iff.mpr (Or.inl hnil), hnil]
      rfl
    · rw [fill_eq_iff.mpr (Or.inr (by omega))]
      exact cString_eq_self_iff.mpr hnul

/-- A poll with a buffer and a snapshot. -/
theorem collectPoll_done (arr : List MtEntry) (cmdUpper : List Char) (echoSecs : Option Nat)
    (cap delivered : Nat) :
    collectPoll true (some arr) cmdUpper echoSecs cap delivered =
      (some (cString (fill '\r' cap 0 ((blockLines cmdUpper echoSecs arr).drop delivered))),
        max delivered (blockLines cmdUpper echoSecs arr).length) := by
  simp only [collectPoll, correlateOnce, if_true, Prod.mk.injEq, true_and]
  split <;> omega

theorem collectPoll_failed {storage : Bool} {snap : Option (List MtEntry)}
    (h : storage = false ∨ snap = none) (cmdUpper : List Char) (echoSecs : Option Nat)
    (cap delivered : Nat) :
    collectPoll storage snap cmdUpper echoSecs cap delivered = (none, delivered) := by
  rcases h with rfl | rfl
  · rfl
  · simp [collectPoll, correlateOnce]

/-- The lines a poll counts are those beyond the delivered ones. -/
theorem counted_lines {α : Type} (ls : List α) (delivered : Nat) :
    (ls.take (max delivered ls.length)).drop delivered = ls.drop delivered := by
  rw [List.take_of_length_le (Nat.le_max_right _ _)]

theorem pollWhole_done_iff {arr : List MtEntry} {cmdUpper : List Char} {echoSecs : Option Nat}
    {cap delivered : Nat} :
    PollWhole true (some arr) cmdUpper echoSecs cap delivered ↔
      LinesFit cap ((blockLines cmdUpper echoSecs arr).drop delivered) := by
  rw [PollWhole, collectPoll_done, ← out_eq_iff]
  simp only [snapLines, Option.map_some, Option.getD_some, counted_lines]

/-- **A poll passes over no line** exactly if it fails or the lines beyond the delivered ones fit
into its buffer. -/
theorem collectPoll_whole_iff (storage : Bool) (snap : Option (List MtEntry))
    (cmdUpper : List Char) (echoSecs : Option Nat) (cap delivered : Nat) :
    PollWhole storage snap cmdUpper echoSecs cap delivered ↔
      (storage = true →
        LinesFit cap ((snapLines cmdUpper echoSecs snap).drop delivered)) := by
  cases storage with
  | false =>
    rw [PollWhole, collectPoll_failed (Or.inl rfl)]
    simp [endedLines]
  | true =>
    cases snap with
    | none =>
      rw [PollWhole, collectPoll_failed (Or.inr rfl)]
      simp [snapLines, LinesFit, endedLines]
    | some arr =>
      rw [pollWhole_done_iff]
      simp [snapLines]

/-! ## A long response -/

def RESP_CAP : Nat := 32768

/-- An entry with the line `0000  9.24.38 STC  320  ` and a message. -/
def stcEntry (msg : List Char) : MtEntry :=
  let line := ("0000  9.24.38 STC  320  ".toList ++ msg).take MTT_ENTRY_MAX
  { mtentlen := line.length
    mtentdat := line
    covers := by
      simp only [mttLen]
      split
      · exact Nat.zero_le _
      · split <;> omega }

theorem stcEntry_line (msg : List Char) :
    (stcEntry msg).line = ("0000  9.24.38 STC  320  ".toList ++ msg).take MTT_ENTRY_MAX := by
  rw [MtEntry.line, stcEntry]
  apply List.take_of_length_le
  have hle := List.length_take_le MTT_ENTRY_MAX ("0000  9.24.38 STC  320  ".toList ++ msg)
  simp only [mttLen]
  split
  · omega
  · split <;> omega

def longMsg : List Char := List.replicate 232 '1'

theorem longMsg_taken (k : Nat) :
    walkEntry "STC  320".toList (some 33878) ⟨"STC  320".toList, none, false, k⟩ (stcEntry longMsg) =
      some (⟨"STC  320".toList, none, false, k + 1⟩, some longMsg) := by
  have hline := stcEntry_line longMsg
  have hsrc : mttSource (stcEntry longMsg).line = some "STC  320".toList := by
    rw [hline]
    decide +kernel
  have hlen : MTT_MSG_OFF < (stcEntry longMsg).line.length := by
    rw [hline]
    decide +kernel
  have hmsg : rstrip ((stcEntry longMsg).line.drop MTT_MSG_OFF) = longMsg := by
    rw [hline]
    decide +kernel
  have hshape : isCommandShaped longMsg = false := by decide +kernel
  have hnum : mlwtoNum longMsg = none := by decide +kernel
  have hblank : isBlankSrc (stcEntry longMsg).line = false := by
    rw [isBlankSrc, hsrc]
    decide
  simp [walkEntry, hsrc, hmsg, hshape, hnum, hblank, isCont, Nat.not_le.mpr hlen]

/-- A command and `n` lines of answer. -/
def longAnswer (cmd : List Char) (n : Nat) : List MtEntry :=
  stcEntry cmd :: List.replicate n (stcEntry longMsg)

theorem longAnswer_lines (n : Nat) :
    blockLines "D A,L".toList (some 33878) (longAnswer "D A,L".toList n) =
      List.replicate n longMsg := by
  have hsecs : mttSecsOfDay (stcEntry "D A,L".toList).line = some 33878 := by
    rw [stcEntry_line]
    decide +kernel
  have hsrc : echoSource (stcEntry "D A,L".toList) = "STC  320".toList := by
    rw [echoSource, stcEntry_line]
    decide +kernel
  have hecho : isEchoLine "D A,L".toList (stcEntry "D A,L".toList) = true := by
    rw [isEchoLine, stcEntry_line]
    decide +kernel
  have hfind : findEcho "D A,L".toList (some 33878) (longAnswer "D A,L".toList n) =
      some (stcEntry "D A,L".toList, List.replicate n (stcEntry longMsg)) := by
    rw [findEcho, longAnswer, Table.oldest, hecho, hsecs]
    rfl
  have hstep : ∀ k, (corrScan (stcEntry "D A,L".toList)).step
      ⟨"STC  320".toList, none, false, k⟩ (stcEntry longMsg) =
        some (⟨"STC  320".toList, none, false, k + 1⟩, some longMsg) := by
    intro k
    simp only [corrScan, hsrc, hsecs]
    exact longMsg_taken k
  have htakes := Scan.takes_replicate _ (fun k => CorrWalk.mk "STC  320".toList none false k) hstep n 0
  rw [← htakes, ← hsrc]
  simp only [blockLines, hfind, corrStart]

/-- A command answered with 150 lines of 232 characters each. -/
theorem collectPoll_passesOver :
    ¬ ∀ storage snap cmdUpper echoSecs cap delivered,
      PollWhole storage snap cmdUpper echoSecs cap delivered := by
  intro h
  have hwhole := h true (some (longAnswer "D A,L".toList 150)) "D A,L".toList (some 33878) RESP_CAP 0
  rw [pollWhole_done_iff, longAnswer_lines, List.drop_zero] at hwhole
  have hmsg : longMsg.length = 232 := List.length_replicate
  have hne : longMsg ≠ [] := by
    apply List.ne_nil_of_length_pos
    omega
  have hlen := endedLines_replicate_length hne '\r' 150
  rw [hmsg] at hlen
  rcases hwhole with hnil | ⟨hlt, -⟩
  · have hzero := congrArg List.length hnil
    rw [List.length_nil] at hzero
    omega
  · rw [RESP_CAP] at hlt
    omega

end Mvsmf
