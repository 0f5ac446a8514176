import Mvsmf.Jobs.JobList

/-!
# Spool output

`do_print_sysout` with its callback and the decision of `spoolln.c`. The walk over the blocks of a
data set is `jesprint()`'s: what it hands over line by line, and how it ends.
-/

namespace Mvsmf

open Jcl

/-! ## One line -/

inductive SpoolLineAction where
  | emit | skip | stop
deriving DecidableEq, Repr

/-- No cap is 0. -/
def spoolLineAction (jclin : Bool) (limit count : Nat) (line : Text) : SpoolLineAction :=
  if limit ≠ 0 ∧ count ≥ limit then .stop
  else if !jclin then .emit
  else if line = [] then .skip
  else if line.head? = some '/' then .emit
  else .skip

/-- `"%-*.*s\r\n"`: a line ends at a NUL and is filled up with blanks. -/
def printedLine (line : Text) : Text :=
  let s := line.takeWhile (· != '\x00')
  s ++ List.replicate (line.length - s.length) ' ' ++ ['\r', '\n']

/-- The lines printed of those handed over, and whether the cap stopped the walk. -/
def printLines (jclin : Bool) (limit : Nat) : Nat → List Text → List Text × Bool
  | _, [] => ([], false)
  | count, line :: lines =>
    match spoolLineAction jclin limit count line with
    | .stop => ([], true)
    | .skip => printLines jclin limit count lines
    | .emit =>
      let (printed, stopped) := printLines jclin limit (count + 1) lines
      (printedLine line :: printed, stopped)

/-! ## One data set -/

/-- Why a walk ended. -/
inductive JesprReason where
  | ended | empty | openEnd | ioErr | foreign | dsid | loop | cap | stopped | noBuf | noMem
deriving DecidableEq, Repr

/-- What `jesprint()` finds: it rejects the request, or has lines to hand over and the reason it
ends for if it is not stopped. -/
inductive SpoolWalk where
  | rejected
  | walked (lines : List Text) (reason : JesprReason)
deriving DecidableEq, Repr

/-- The spool of a job: the data set id of its JCL, and the walks. -/
structure JobSpool where
  pdbInJcl : Nat
  jesprint : Nat → SpoolWalk

def doPrintSysoutWhy (rejected : Bool) (reason : JesprReason) (records : Nat) : Option String :=
  if rejected then some "JES2 checkpoint or spool data set not available"
  else
    match reason with
    | .ioErr => some "spool read failed"
    | .foreign => if records ≠ 0 then some "no longer on the spool" else none
    | .dsid => if records ≠ 0 then some "first spool block belongs to another data set" else none
    | .loop => some "spool block chain loops, output truncated"
    | .cap => some "spool block limit reached, output truncated"
    | .noBuf => some "incomplete spanned record, output truncated"
    | .noMem => some "out of storage, output truncated"
    | _ => none

def HTTP_STATUS_OK : Nat := 200

def doPrintSysoutStatus (rejected : Bool) (reason : JesprReason) (records : Nat) : Nat :=
  if rejected then Answer.HTTP_STATUS_INTERNAL_SERVER_ERROR
  else if reason = .foreign ∧ records ≠ 0 then Answer.HTTP_STATUS_NOT_FOUND
  else if (doPrintSysoutWhy rejected reason records).isSome then
    Answer.HTTP_STATUS_INTERNAL_SERVER_ERROR
  else HTTP_STATUS_OK

/-- The first abnormal outcome. -/
structure SpoolBad where
  dsid : Nat
  why : String
  status : Nat
deriving DecidableEq, Repr

structure SpoolState where
  output : List Text
  bad : Option SpoolBad
deriving DecidableEq, Repr

def separator : Text := (List.replicate 66 ['-', ' ']).flatten.dropLast ++ ['\r', '\n']

/-- The data sets the loop walks. -/
def printable (dsid : Nat) (dd : JesDd) : Bool :=
  dd.dsid == dsid && dd.mttr != 0 && !(dd.sysin && dsid == 0)

/-- One data set of the loop: a separator if something went out before, its lines, and what is
remembered of how the walk ended. -/
def printDd (spool : JobSpool) (st : SpoolState) (dd : JesDd) : SpoolState :=
  let before := if st.output = [] then [] else st.output ++ [separator]
  let limit := if dd.sysin && dd.records != 0 then dd.records else 0
  let bad (rejected : Bool) (reason : JesprReason) : Option SpoolBad :=
    (doPrintSysoutWhy rejected reason dd.records).map fun why =>
      ⟨dd.dsid, why, doPrintSysoutStatus rejected reason dd.records⟩
  match spool.jesprint dd.dsid with
  | .rejected => ⟨before, st.bad.or (bad true .ended)⟩
  | .walked lines reason =>
    let (printed, stopped) := printLines (dd.dsid == spool.pdbInJcl) limit 0 lines
    ⟨before ++ printed, st.bad.or (bad false (if stopped then .stopped else reason))⟩

/-! ## The response -/

def spoolJob (job : JesJob) (dsid : Nat) : String :=
  "job '" ++ String.ofList ((jwnPrintable JWN_PRTSZ job.jobname).take 8) ++ "(" ++
    String.ofList ((jwnPrintable JWN_PRTSZ job.jobid).take 8) ++ ")' DD id " ++ toString dsid

/-- `opened`: the second `jesopen()` of a records request. -/
def doPrintSysout (opened : Bool) (spool : JobSpool) (job : JesJob) (dsid : Nat) :
    JobsAnswer :=
  if !opened then .error (JobsAnswer.jesUnavailable Answer.CATEGORY_SERVICE)
  else
    let st := (job.dds.filter (printable dsid)).foldl (printDd spool) ⟨[], none⟩
    if st.output ≠ [] then .spool st.output
    else
      match st.bad with
      | none => .spool []
      | some bad =>
        if bad.status = Answer.HTTP_STATUS_NOT_FOUND then
          .error ⟨Answer.HTTP_STATUS_NOT_FOUND, Answer.CATEGORY_SERVICE, JobsAnswer.RC_WARNING,
            JobsAnswer.REASON_SPOOL_GONE,
            "Spool output for " ++ spoolJob job bad.dsid ++ " is no longer on the spool", []⟩
        else
          .error ⟨bad.status, Answer.CATEGORY_SERVICE, Answer.RC_ERROR, JobsAnswer.REASON_SPOOL_READ,
            "Unable to read spool output for " ++ spoolJob job bad.dsid ++ ": " ++ bad.why, []⟩

end Mvsmf
