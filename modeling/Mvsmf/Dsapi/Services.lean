import Mvsmf.Common.ReqBody
import Mvsmf.Dsapi.ControlName
import Mvsmf.Dsapi.IfMatch
import Mvsmf.Dsapi.MemberScan
import Mvsmf.Dsapi.Put
import Mvsmf.Dsapi.RecordCount
import Mvsmf.Dsapi.Volser
import Mvsmf.Lib.Prog

/-!
# The services behind the data set handlers

What a handler of dsapi.c asks of the system: the access check, the catalog and the VTOC, the
directory, the opens, and what changes a data set. The helpers that the handlers share are programs
over these calls; each has its answer sent where the source sends it, so a helper that refuses comes
to the answer.
-/

namespace Mvsmf

inductive RacfAttr
  | READ
  | UPDATE
  | ALTER
  deriving DecidableEq, Repr

/-- The format-1 DSCB with what the record count reads of it. -/
structure DsDscb1 extends Dscb1, FbDscb1

/-- The body of a PUT that is to be stored; `opened` says that the target is open for output. -/
structure PutSpec where
  name : List Char
  dataType : DataType
  enc : FileEnc
  dcb : Dcb
  chunked : Bool
  contentLength : Nat
  opened : Bool

/-- How the storing of a body ends: with the answer behind the close, or in front of an open for
output that the end of an empty body needs and that fails. -/
inductive BodyEnd
  | answered (a : Answer)
  | openFailed

inductive DsCall
  | checkAuth (dsname : List Char) (attr : RacfAttr)
  | readRequestContent
  | locate (dsn44 : List Char)
  | dscbdv (dsn44 : List Char) (vol : Volser)
  | dscbv (vol : Volser)
  | listpd (dsname member : List Char)
  | fopenRead (name : List Char)
  | fopenDirectory (name : List Char)
  | fopenWrite (name : List Char)
  | storeBody (spec : PutSpec)
  | remove (name : List Char)
  | renmem (dsname oldMember newMember : List Char)
  | rename (oldName newName : List Char)

/-- A directory open for input: the block buffer, the reads and `ferror`. -/
structure DirectoryFile where
  blk : Block
  reads : List BlockRead
  ferror : Bool

abbrev DsCall.Ans : DsCall → Type
  | .checkAuth _ _ => Int
  | .readRequestContent => Except BodyRc (List Char)
  | .locate _ => Option Volser
  | .dscbdv _ _ => Option DsDscb1
  | .dscbv _ => Option Dscb4
  | .listpd _ _ => Bool × Nat
  | .fopenRead _ => Option DsFile
  | .fopenDirectory _ => Option DirectoryFile
  | .fopenWrite _ => Option Dcb
  | .storeBody _ => BodyEnd
  | .remove _ => Int
  | .renmem _ _ _ => Int
  | .rename _ _ => Int

abbrev DsProg := Prog DsCall DsCall.Ans

abbrev DsEvent := Prog.Event DsCall DsCall.Ans

def service (c : DsCall) : DsProg c.Ans := Prog.ask c

namespace DsProg

/-! ## The access check -/

def HTTP_STATUS_UNAUTHORIZED : Nat := 401

def CATEGORY_AUTHORIZATION : Nat := 4

def REASON_NOT_AUTHORIZED : Int := 0

def ERR_MSG_NOT_AUTHORIZED : String := "LMOPEN error"

def ERR_MSG_DENIED_DETAIL : String :=
  "Authorization failed - You may not use this protected data set."

/-- `send_not_authorized` without a detail of the caller's. -/
def notAuthorized : Answer :=
  ⟨Answer.HTTP_STATUS_INTERNAL_SERVER_ERROR, CATEGORY_AUTHORIZATION, Answer.RC_ERROR,
    REASON_NOT_AUTHORIZED, ERR_MSG_NOT_AUTHORIZED, [ERR_MSG_DENIED_DETAIL]⟩

def unauthorized : Answer :=
  ⟨HTTP_STATUS_UNAUTHORIZED, CATEGORY_AUTHORIZATION, Answer.RC_ERROR, REASON_NOT_AUTHORIZED,
    ERR_MSG_NOT_AUTHORIZED, []⟩

/-- The answer to a code of `http_check_auth`; none is permitted. -/
def refusal (rc : Int) : Option Answer :=
  if rc = 0 then none else if rc < 0 then some unauthorized else some notAuthorized

/-- `some` is the answer that was sent. -/
def requireAccess (dsname : List Char) (attr : RacfAttr) : DsProg (Option Answer) := do
  let rc ← service (.checkAuth dsname attr)
  return refusal rc

/-! ## The catalog and the VTOC -/

def datasetCataloged (dsname : List Char) : DsProg Bool := do
  let vol ← service (.locate (dsn44 dsname))
  return vol.isSome

def isPds (dsname : List Char) : DsProg Bool := do
  match ← service (.locate (dsn44 dsname)) with
  | none => return false
  | some vol =>
    match ← service (.dscbdv (dsn44 dsname) vol) with
    | none => return false
    | some d => return d.dsorg1 &&& DSGPO ≠ 0

def getFbRecordCount (dsname : List Char) : DsProg Int := do
  match ← service (.locate (dsn44 dsname)) with
  | none => return -1
  | some vol =>
    match ← service (.dscbdv (dsn44 dsname) vol) with
    | none => return -1
    | some d =>
      if !d.countable then return -1
      else
        let g ← service (.dscbv vol)
        return Mvsmf.getFbRecordCount (some d.toFbDscb1) g

/-! ## The volume -/

def ERR_MSG_INVALID_VOLSER : String := "Invalid volume serial"

def REASON_DATASET_NOT_ON_VOLUME : Int := 13

def datasetNotOnVolume : Answer :=
  ⟨Answer.HTTP_STATUS_NOT_FOUND, Answer.CATEGORY_SERVICE, Answer.RC_ERROR,
    REASON_DATASET_NOT_ON_VOLUME, "Dataset not found on the requested volume", []⟩

/-- `volser` is the volume of the path, if it has one. -/
def volumeGate (volser : Option (List Char)) (dsname : List Char) : DsProg (Option Answer) := do
  match volser with
  | none => return none
  | some volser =>
    let located ← service (.locate (dsn44 dsname))
    match volserVerdict volser located with
    | .onVolume => return none
    | .bad => return some (handleError ERR_INVALID_PARAM ERR_MSG_INVALID_VOLSER)
    | .otherVolume => return some datasetNotOnVolume
    | .notCataloged => return some datasetNotFound

/-- The check and the gate in front of every operation but the rename of a data set. -/
def gates (volser : Option (List Char)) (dsname : List Char) (attr : RacfAttr) :
    DsProg (Option Answer) := do
  match ← requireAccess dsname attr with
  | some a => return some a
  | none => volumeGate volser dsname

/-! ## Failed opens -/

def ENOMEM : Nat := 12

inductive ListOutcome
  | found
  | empty
  | nostor
  | failed
  deriving DecidableEq, Repr

/-- What an array of `__listpd` and the errno say. -/
def listOutcome (list : Bool) (err : Nat) : ListOutcome :=
  if list then .found
  else if err = 0 then .empty
  else if err = ENOMEM then .nostor
  else .failed

inductive OpenFailure
  | io
  | noDsn
  | noMember
  | notPds
  | noStorage
  deriving DecidableEq, Repr

def diagnoseOpenFailure (dsname : List Char) (member : Option (List Char)) :
    DsProg OpenFailure := do
  if !(← datasetCataloged dsname) then return .noDsn
  else
    match member with
    | none => return .io
    | some member =>
      if !(← isPds dsname) then return .notPds
      else
        let (list, err) ← service (.listpd dsname member)
        match listOutcome list err with
        | .nostor => return .noStorage
        | .found => return .io
        | .empty | .failed => return .noMember

def REASON_MEMBER_NOT_FOUND : Int := 5

def memberNotFound : Answer :=
  ⟨Answer.HTTP_STATUS_NOT_FOUND, Answer.CATEGORY_SERVICE, Answer.RC_ERROR,
    REASON_MEMBER_NOT_FOUND, "PDS member not found", []⟩

/-- The report of zosmferr.h, which dsapi.c includes. -/
def CATEGORY_UNEXPECTED : Nat := 7
def RC_SEVERE : Nat := 16
def REASON_SERVER_ERROR : Int := 0

def listNoStorage : Answer :=
  ⟨Answer.HTTP_STATUS_INTERNAL_SERVER_ERROR, CATEGORY_UNEXPECTED, RC_SEVERE, REASON_SERVER_ERROR,
    "Storage for the list could not be obtained", []⟩

def notPartitioned : Answer :=
  handleError ERR_INVALID_PARAM "Dataset is not partitioned (use the dataset endpoint instead)"

def openFailure (ioMessage : String) : OpenFailure → Answer
  | .noDsn => datasetNotFound
  | .noMember => memberNotFound
  | .noStorage => listNoStorage
  | .notPds => notPartitioned
  | .io => handleError ERR_IO ioMessage

def sendOpenFailure (dsname : List Char) (member : Option (List Char)) (ioMessage : String) :
    DsProg Answer := do
  return openFailure ioMessage (← diagnoseOpenFailure dsname member)

def requirePds (dsname : List Char) : DsProg (Option Answer) := do
  if !(← datasetCataloged dsname) then return some datasetNotFound
  else if !(← isPds dsname) then return some notPartitioned
  else return none

/-! ## The stamp -/

/-- `dataset_etag`, the stamp or the return of -1. -/
def datasetEtag (calloc : Nat → Bool) (name : List Char) (maxRecords : Int) :
    DsProg (Option (List Char)) := do
  let fp ← service (.fopenRead name)
  return (Mvsmf.datasetEtag calloc fp maxRecords).map recordsEtag

def checkIfMatch (calloc : Nat → Bool) (ifMatch : Option (List Char)) (name : List Char)
    (maxRecords : Int) : DsProg (Option Answer) := do
  match ifMatch with
  | none => return none
  | some header => return Mvsmf.checkIfMatch (some header) (← datasetEtag calloc name maxRecords)

end DsProg

end Mvsmf
