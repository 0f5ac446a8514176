import Mvsmf.Jobs.JobCard
import Mvsmf.Lib.Strtoul

/-!
# The rewrite of the JOB card

`process_jobcard` and what it calls in `jobsapi.c`. The lines are C strings of at most 80
characters in arrays of 81 that are clear behind them, so a line has no blank where it is too short.
-/

namespace Mvsmf

open Jcl

/-! ## The card among the lines -/

/-- The operation field of a line, its first four characters. -/
def getOperation (line : Text) : Text :=
  if line.length < 3 then []
  else
    let rest := line.drop 2
    let name := (rest.take 8).takeWhile (· != ' ')
    let op := (rest.drop name.length).dropWhile (· == ' ')
    ((op.takeWhile (· != ' ')).take 4).rdropWhile CLib.isspace

def isJclLine (line : Text) : Bool := "//".toList.isPrefixOf line

/-- A line that `find_job_card_range` takes for a JOB statement. -/
def isJobLine (line : Text) : Bool :=
  decide (3 ≤ line.length) && isJclLine line && getOperation line == "JOB".toList

/-- The last character that is no space is a comma. -/
def hasComma (line : Text) : Bool := (line.rdropWhile CLib.isspace).getLast? == some ','

/-- `//` and nothing in columns 3 to 10. -/
def isContinuationLine (line : Text) : Bool :=
  isJclLine line && decide (10 ≤ line.length) && ((line.drop 2).take 8).all CLib.isspace

/-- The lines behind `line` that continue it, and those behind them. -/
def cardContinuations (line : Text) : List Text → List Text × List Text
  | [] => ([], [])
  | next :: lines =>
    if hasComma line && isContinuationLine next then
      let r := cardContinuations next lines
      (next :: r.1, r.2)
    else ([], next :: lines)

/-- The lines in front of the card, its first line and its continuations, and those behind. -/
structure CardRange where
  pre : List Text
  head : Text
  continuations : List Text
  post : List Text
deriving DecidableEq, Repr

def findJobCardRange : List Text → Option CardRange
  | [] => none
  | line :: lines =>
    if isJobLine line then
      let r := cardContinuations line lines
      some ⟨[], line, r.1, r.2⟩
    else (findJobCardRange lines).map fun r => { r with pre := line :: r.pre }

/-! ## NOTIFY -/

def NOTIFY : Text := "NOTIFY".toList
def SYSUID : Text := "&SYSUID".toList
def JOBCARD_NOTIFY_USER : Text := "$MVSMF".toList

def findNotifyOperand (line : Text) : Option Nat := findOperandFrom NOTIFY false true line

inductive JobcardErr
  | noCard
  | tooLong
deriving DecidableEq, Repr

/-- What stands behind `&SYSUID`: the blanks behind it and a word behind these are skipped, the
rest is separated by a comma. -/
def behindSysuid (rest : Text) : Except JobcardErr Text :=
  let realEnd := (rest.dropWhile (· == ' ')).dropWhile fun c => c != ',' && c != ' '
  match realEnd with
  | ',' :: _ => .ok (realEnd.take 79)
  | _ =>
    match realEnd.dropWhile (· == ' ') with
    | [] => .ok []
    | more => if more.length + 1 ≥ 80 then .error .tooLong else .ok (',' :: more)

/-- The line with the caller for `&SYSUID`, or `none` if its NOTIFY has another value. -/
def replaceSysuid (line user : Text) (notifyStart : Nat) : Except JobcardErr (Option Text) :=
  let sysuid := (((line.drop notifyStart).dropWhile (· != '=')).drop 1).dropWhile (· == ' ')
  if SYSUID.isPrefixOf sysuid then
    match behindSysuid (sysuid.drop SYSUID.length) with
    | .error e => .error e
    | .ok after =>
      let line := line.take notifyStart ++ (NOTIFY ++ '=' :: user) ++ after.rdropWhile (· == ' ')
      if line.length ≥ 72 then .error .tooLong else .ok (some line)
  else .ok none

/-- The lines of the card with the first `NOTIFY=&SYSUID` replaced, and whether one has a NOTIFY. -/
def processNotify (user : Text) (replaced : Bool) :
    List Text → Except JobcardErr (List Text × Bool)
  | [] => .ok ([], false)
  | line :: lines =>
    match findNotifyOperand line with
    | none => (processNotify user replaced lines).map fun r => (line :: r.1, r.2)
    | some notifyStart =>
      if replaced then (processNotify user replaced lines).map fun r => (line :: r.1, true)
      else
        match replaceSysuid line user notifyStart with
        | .error e => .error e
        | .ok none => (processNotify user replaced lines).map fun r => (line :: r.1, true)
        | .ok (some line') => (processNotify user true lines).map fun r => (line' :: r.1, true)

/-! ## The cards behind the last line -/

/-- The card with the caller's identity. -/
def identityCard (user password : Text) (notifyPresent : Bool) : Except JobcardErr Text :=
  let notify := if notifyPresent then [] else NOTIFY ++ '=' :: JOBCARD_NOTIFY_USER ++ [',']
  let card := indent ++ notify ++ (USER ++ '=' :: user) ++ ',' :: (PASSWORD ++ '=' :: password)
  let long := card ++ "   GENERATED BY MVSMF".toList
  let short := card ++ "   BY MVSMF".toList
  if long.length < 72 then .ok long else if short.length < 72 then .ok short else .error .tooLong

/-- The last line of the card made to continue, and the card its last operand is moved to. -/
def continueLast : List Text → Except JobcardErr (List Text)
  | [] => .ok []
  | [line] =>
    let r := jobcardContinue line 81
    if r.rc < 0 then .error .tooLong else .ok (r.line :: r.moved.toList)
  | line :: lines => (continueLast lines).map (line :: ·)

/-! ## process_jobcard -/

structure ProcessedJcl where
  lines : List Text
  jobname : Text
  jobclass : Option Char
deriving DecidableEq, Repr

/-- The character behind the first `CLASS=`. -/
def classParam (line : Text) : Option Char :=
  match line.tails.find? ("CLASS=".toList.isPrefixOf ·) with
  | some t => (t.drop 6).head?
  | none => none

def jobnameOf (line : Text) : Text := ((line.drop 2).take 8).takeWhile (· != ' ')

/-- The lines of the card when it is rewritten. -/
def rewriteCard (head : Text) (continuations : List Text) (user password : Text) :
    Except JobcardErr (List Text) :=
  match processNotify user false (jobcardStripCredentials (head :: continuations)).1 with
  | .error e => .error e
  | .ok (card, notifyPresent) =>
    match continueLast card with
    | .error e => .error e
    | .ok card =>
      match identityCard user password notifyPresent with
      | .error e => .error e
      | .ok identity => .ok (card ++ [identity])

def processJobcard (lines : List Text) (user password : Text) : Except JobcardErr ProcessedJcl :=
  match findJobCardRange lines with
  | none => .error .noCard
  | some r =>
    match rewriteCard r.head r.continuations user password with
    | .error e => .error e
    | .ok card => .ok ⟨r.pre ++ card ++ r.post, jobnameOf r.head, classParam r.head⟩

example : (processJobcard ["//J1 JOB 1,NOTIFY=&SYSUID".toList, "//S EXEC PGM=P".toList] "U".toList
    "P".toList).toOption.map (·.lines) =
      some ["//J1 JOB 1,NOTIFY=U,".toList,
        "//         USER=U,PASSWORD=P   GENERATED BY MVSMF".toList, "//S EXEC PGM=P".toList] := by
  decide +kernel

end Mvsmf
