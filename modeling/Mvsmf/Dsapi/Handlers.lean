import Mvsmf.Dsapi.Services

/-!
# The handlers of the authorization table

The data set and member handlers, each with its checks and its calls in the order of the source. The
name of the URL is folded, then authorized, then the volume of the path is compared, and then the
data set is looked at. Receiving a body and storing its records is one call here.
-/

namespace Mvsmf

/-- What a data set request brings: the variables of its path, its headers and its query. -/
structure DsRequest extends PutRequest where
  datasetName : Option (List Char)
  memberName : Option (List Char)
  volumeSerial : Option (List Char)
  contentType : Option (List Char)
  ifMatch : Option (List Char)
  ifNoneMatch : Option (List Char)
  returnEtag : Option (List Char)
  start : Option (List UInt8)
  pattern : Option (List UInt8)
  maxItems : Option (List Char)
  attributes : Option (List Char)
  httpx : Httpx
  x : Session

/-- What is sent: a report or a status, the 304, the records of a data set, the members of a
directory, or the 204 of a write. -/
inductive DsReply
  | report (a : Answer)
  | notModified (etag : List Char)
  | content (etag : Option (List Char)) (out : GetOut)
  | members (scan : Except Fault (Int × List MemberItem))
  | stored (etag : Option (List Char))

namespace DsProg

def tooLong (what : String) : Answer := handleError ERR_INVALID_PARAM (what ++ " name is too long")

def datasetRequired : Answer := handleError ERR_INVALID_PARAM "Dataset name is required"

def namesRequired : Answer :=
  handleError ERR_INVALID_PARAM "Dataset and member names are required"

def pdsNotSequential : Answer :=
  ⟨Answer.HTTP_STATUS_BAD_REQUEST, Answer.CATEGORY_SERVICE, Answer.RC_ERROR, 1,
    "Dataset is a partitioned dataset (PDS). Use /ds/\x7bdataset-name\x7d(\x7bmember-name\x7d) " ++
      "to access members", []⟩

def foldDsn (name : List Char) : Option (List Char) :=
  normalizeDsn (some name) (MAX_DATASET_NAME + 1)

def foldMember (name : List Char) : Option (List Char) :=
  normalizeDsn (some name) (MAX_MEMBER_NAME + 1)

/-- A member as `fopen` takes it. -/
def qualified (dsname member : List Char) : List Char := dsname ++ '(' :: (member ++ [')'])

/-! ## Reading -/

/-- The stamp for `X-IBM-Return-Etag` and `If-None-Match`; an error is the 304. -/
def validator (req : DsRequest) (name : List Char) (count : DsProg Int) :
    DsProg (Except (List Char) (Option (List Char))) := do
  if req.ifNoneMatch.isNone && !etagRequested req.returnEtag then return .ok none
  else
    match ← datasetEtag req.x.calloc name (← count) with
    | none => return .ok none
    | some etag =>
      match req.ifNoneMatch with
      | none => return .ok (some etag)
      | some header => return if etagMatches header etag then .error etag else .ok (some etag)

/-- A transfer as text reads up to the end of the file. -/
def recordCap (dsname : List Char) (dataType : DataType) : DsProg Int :=
  if dataType = .text then pure (-1) else getFbRecordCount dsname

def datasetGetHandler (req : DsRequest) : DsProg DsReply := do
  match req.datasetName with
  | none => return .report datasetRequired
  | some name =>
    match foldDsn name with
    | none => return .report (tooLong "Dataset")
    | some dsname =>
      match ← gates req.volumeSerial dsname .READ with
      | some a => return .report a
      | none =>
        if ← isPds dsname then return .report pdsNotSequential
        else
          match parseDataType req.dataType with
          | none => return .report (sendBadEncoding req.dataType)
          | some (dataType, enc) =>
            match ← validator req dsname (getFbRecordCount dsname) with
            | .error etag => return .notModified etag
            | .ok etag =>
              let maxRecords ← recordCap dsname dataType
              match ← service (.fopenRead dsname) with
              | none => return .report (← sendOpenFailure dsname none "Cannot open dataset")
              | some fp =>
                let cp := dsCodepage req.httpx enc
                return .content etag (readAndSendDataset req.x fp dataType cp maxRecords)

def memberGetHandler (req : DsRequest) : DsProg DsReply := do
  match req.datasetName, req.memberName with
  | some name, some member =>
    match foldDsn name with
    | none => return .report (tooLong "Dataset")
    | some dsname =>
      match foldMember member with
      | none => return .report (tooLong "Member")
      | some member =>
        let dataset := qualified dsname member
        match ← gates req.volumeSerial dsname .READ with
        | some a => return .report a
        | none =>
          match parseDataType req.dataType with
          | none => return .report (sendBadEncoding req.dataType)
          | some (dataType, enc) =>
            match ← validator req dataset (pure (-1)) with
            | .error etag => return .notModified etag
            | .ok etag =>
              match ← service (.fopenRead dataset) with
              | none =>
                return .report (← sendOpenFailure dsname (some member) "Cannot open dataset member")
              | some fp =>
                let cp := dsCodepage req.httpx enc
                return .content etag (readAndSendDataset req.x fp dataType cp (-1))
  | _, _ => return .report namesRequired

/-! ## The directory -/

def MEMBER_PATTERN_SIZE : Nat := 45

def internalError : Answer := .plain 500

def patternTooLong : Answer :=
  ⟨Answer.HTTP_STATUS_BAD_REQUEST, Answer.CATEGORY_SERVICE, Answer.RC_ERROR, 9,
    "Member pattern is too long", []⟩

/-- The directory of a PDS that is one could not be opened. -/
def directoryNotFound : Answer := { datasetNotFound.1 with category := CATEGORY_UNEXPECTED }

def scanRequest (req : DsRequest) : ScanRequest where
  startKey := (startOf req.start).1
  startAfter := (startOf req.start).2
  pattern := (makeQueryKey req.pattern MEMBER_PATTERN_SIZE).map Prod.fst
  page := (req.maxItems.map fun s => UInt32.ofInt (atoi s)).getD 0
  base := ispfWantsBase req.attributes

def memberListHandler (req : DsRequest) : DsProg DsReply := do
  match req.datasetName with
  | none => return .report internalError
  | some name =>
    match foldDsn name with
    | none => return .report (tooLong "Dataset")
    | some dsname =>
      match ← gates req.volumeSerial dsname .READ with
      | some a => return .report a
      | none =>
        if (req.pattern.map List.length).getD 0 ≥ MEMBER_PATTERN_SIZE then
          return .report patternTooLong
        else
          match ← requirePds dsname with
          | some a => return .report a
          | none =>
            match ← service (.fopenDirectory dsname) with
            | none => return .report directoryNotFound
            | some fp => return .members (memberScan (scanRequest req) fp.blk fp.reads fp.ferror)

/-! ## Renaming -/

def HTTP_STATUS_PAYLOAD_TOO_LARGE : Nat := 413

/-- `send_body_error`. -/
def bodyError (rc : BodyRc) : Answer :=
  if rc = .tooLarge then
    ⟨HTTP_STATUS_PAYLOAD_TOO_LARGE, Answer.CATEGORY_SERVICE, Answer.RC_ERROR, REASON_SERVER_ERROR,
      "The request body is too large", []⟩
  else
    ⟨Answer.HTTP_STATUS_INTERNAL_SERVER_ERROR, CATEGORY_UNEXPECTED, RC_SEVERE, REASON_SERVER_ERROR,
      "Storage for the request body could not be obtained", []⟩

def renameTargetExists : Answer :=
  ⟨Answer.HTTP_STATUS_BAD_REQUEST, Answer.CATEGORY_SERVICE, Answer.RC_ERROR, 7,
    "Rename target already exists", []⟩

def renameFailed : Answer :=
  ⟨Answer.HTTP_STATUS_INTERNAL_SERVER_ERROR, Answer.CATEGORY_SERVICE, Answer.RC_ERROR, 8,
    "Rename operation failed", []⟩

/-- The answer to a code of `__renmem`. -/
def renmemAnswer (rc : Int) : Answer :=
  if rc = 0 then .plain 204
  else if rc = 8 ∨ rc = -2 then memberNotFound
  else if rc = 4 then renameTargetExists
  else renameFailed

def renameMember (req : DsRequest) (dsname fromMember newMember : List Char) : DsProg DsReply := do
  match ← gates req.volumeSerial dsname .UPDATE with
  | some a => return .report a
  | none =>
    let rc ← service (.renmem dsname fromMember newMember)
    return .report (renmemAnswer rc)

/-- The new name is authorized too, and the volume is that of the old one. -/
def renameGates (req : DsRequest) (fromDsn newDsn : List Char) : DsProg (Option Answer) := do
  match ← requireAccess newDsn .ALTER with
  | some a => return some a
  | none => volumeGate req.volumeSerial fromDsn

def renameDataset (req : DsRequest) (fromDsn newDsn : List Char) : DsProg DsReply := do
  match ← requireAccess fromDsn .ALTER with
  | some a => return .report a
  | none =>
    match ← renameGates req fromDsn newDsn with
    | some a => return .report a
    | none =>
      match ← service (.locate (dsn44 fromDsn)) with
      | none => return .report datasetNotFound
      | some _ =>
        let rc ← service (.rename fromDsn newDsn)
        return .report (if rc = 0 then .plain 204 else renameFailed)

/-- `process_rename` for a member of the data set, or for the data set. -/
def processRename (req : DsRequest) (dsname : List Char) (member : Option (List Char)) :
    DsProg DsReply := do
  match ← service .readRequestContent with
  | .error rc => return .report (if rc = .bad then invalidRenameRequest else bodyError rc)
  | .ok body =>
    match Mvsmf.processRename member.isSome body with
    | .error a => return .report a
    | .ok fromName =>
      match member with
      | some newMember => renameMember req dsname fromName newMember
      | none => renameDataset req fromName dsname

/-- A control request. -/
def isControl (req : DsRequest) : Bool :=
  match req.contentType with
  | some ct => CLib.strstr "application/json".toList ct
  | none => false

/-! ## Writing -/

/-- The stamp of what was written, if it is asked for. -/
def returnedEtag (req : DsRequest) (name : List Char) (count : DsProg Int) :
    DsProg (Option (List Char)) := do
  if etagRequested req.returnEtag then datasetEtag req.x.calloc name (← count)
  else return none

/-- The checks of the DCB, and the body. -/
def storeTarget (req : DsRequest) (spec : PutSpec) (openFailed : DsProg Answer)
    (count : DsProg Int) : DsProg DsReply := do
  if spec.dcb.piece = 0 ∨ spec.dcb.contentMax = 0 then
    return .report (handleError ERR_IO "Dataset has zero record length")
  else if req.x.calloc spec.dcb.piece = false then
    return .report (handleError ERR_MEMORY "Memory allocation failed")
  else
    match ← service (.storeBody spec) with
    | .openFailed => return .report (← openFailed)
    | .answered a =>
      if a.success then return .stored (← returnedEtag req spec.name count)
      else return .report a

def putSpec (req : DsRequest) (name : List Char) (dataType : DataType) (enc : FileEnc) (dcb : Dcb)
    (opened : Bool) : PutSpec :=
  ⟨name, dataType, enc, dcb, isChunked req.transferEncoding, req.length, opened⟩

def datasetPutHandler (req : DsRequest) : DsProg DsReply := do
  match req.datasetName with
  | none => return .report datasetRequired
  | some name =>
    match foldDsn name with
    | none => return .report (tooLong "Dataset")
    | some dsname =>
      if isControl req then processRename req dsname none
      else
        match ← gates req.volumeSerial dsname .UPDATE with
        | some a => return .report a
        | none =>
          if ← isPds dsname then return .report pdsNotSequential
          else
            match parseDataType req.dataType with
            | none => return .report (sendBadEncoding req.dataType)
            | some (dataType, enc) =>
              if req.unframed then return .report missingLength
              else
                match ← service (.fopenRead dsname) with
                | none => return .report datasetNotFound
                | some chk =>
                  let count ← getFbRecordCount dsname
                  match ← checkIfMatch req.x.calloc req.ifMatch dsname count with
                  | some a => return .report a
                  | none =>
                    storeTarget req (putSpec req dsname dataType enc chk.dcb false)
                      (pure (handleError ERR_IO "Cannot open dataset for writing"))
                      (getFbRecordCount dsname)

/-- A member that is not there is opened for output at once, which supplies the DCB. -/
def memberTarget (dsname dataset : List Char) : DsProg (Except Answer (Dcb × Bool)) := do
  match ← service (.fopenRead dataset) with
  | some chk => return .ok (chk.dcb, false)
  | none =>
    match ← service (.fopenWrite dataset) with
    | some dcb => return .ok (dcb, true)
    | none => return .error (← sendOpenFailure dsname none "Cannot open dataset member for writing")

def memberPutHandler (req : DsRequest) : DsProg DsReply := do
  match req.datasetName, req.memberName with
  | some name, some member =>
    match foldDsn name with
    | none => return .report (tooLong "Dataset")
    | some dsname =>
      match foldMember member with
      | none => return .report (tooLong "Member")
      | some member =>
        if isControl req then processRename req dsname (some member)
        else
          match ← gates req.volumeSerial dsname .UPDATE with
          | some a => return .report a
          | none =>
            let dataset := qualified dsname member
            if req.unframed then return .report missingLength
            else
              match parseDataType req.dataType with
              | none => return .report (sendBadEncoding req.dataType)
              | some (dataType, enc) =>
                if !(← datasetCataloged dsname) then return .report datasetNotFound
                else
                  match ← checkIfMatch req.x.calloc req.ifMatch dataset (-1) with
                  | some a => return .report a
                  | none =>
                    match ← memberTarget dsname dataset with
                    | .error a => return .report a
                    | .ok (dcb, opened) =>
                      storeTarget req (putSpec req dataset dataType enc dcb opened)
                        (sendOpenFailure dsname none "Cannot open dataset member for writing")
                        (pure (-1))
  | _, _ => return .report namesRequired

/-! ## Deleting -/

def deleteFailed : Answer :=
  ⟨Answer.HTTP_STATUS_INTERNAL_SERVER_ERROR, Answer.CATEGORY_SERVICE, Answer.RC_ERROR, 11,
    "Dataset delete failed", []⟩

def datasetDeleteHandler (req : DsRequest) : DsProg DsReply := do
  match req.datasetName with
  | none => return .report invalidAllocParams
  | some name =>
    match foldDsn name with
    | none => return .report (tooLong "Dataset")
    | some dsname =>
      match ← gates req.volumeSerial dsname .ALTER with
      | some a => return .report a
      | none =>
        match ← service (.locate (dsn44 dsname)) with
        | none => return .report datasetNotFound
        | some _ =>
          let rc ← service (.remove dsname)
          return .report (if rc = 0 then .plain 204 else deleteFailed)

def memberDeleteHandler (req : DsRequest) : DsProg DsReply := do
  match req.datasetName, req.memberName with
  | some name, some member =>
    match foldDsn name with
    | none => return .report (tooLong "Dataset")
    | some dsname =>
      match foldMember member with
      | none => return .report (tooLong "Member")
      | some member =>
        match ← gates req.volumeSerial dsname .UPDATE with
        | some a => return .report a
        | none =>
          match ← service (.fopenRead (qualified dsname member)) with
          | none => return .report memberNotFound
          | some _ =>
            let rc ← service (.remove (qualified dsname member))
            return .report (if rc = 0 then .plain 204 else deleteFailed)
  | _, _ => return .report namesRequired

end DsProg

/-- The operations of the authorization table. Renames come in as writes. -/
inductive DsOperation
  | read
  | listMembers
  | readMember
  | write
  | writeMember
  | deleteMember
  | delete
  deriving DecidableEq

/-- The handler of an operation. -/
def DsOperation.handler : DsOperation → DsRequest → DsProg DsReply
  | .read => DsProg.datasetGetHandler
  | .listMembers => DsProg.memberListHandler
  | .readMember => DsProg.memberGetHandler
  | .write => DsProg.datasetPutHandler
  | .writeMember => DsProg.memberPutHandler
  | .deleteMember => DsProg.memberDeleteHandler
  | .delete => DsProg.datasetDeleteHandler

end Mvsmf
