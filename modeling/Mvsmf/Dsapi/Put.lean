import Mvsmf.Common.Answer
import Mvsmf.Common.Receive
import Mvsmf.Dsapi.Create
import Mvsmf.Dsapi.Records

/-!
# `datasetPutHandler` and `memberPutHandler`

Both handlers read the body by its framing, cut it into records and write them to a target that is
opened by the first record, or behind a body without one. They are two copies of one text, so the
text stands here once, over a `PutJob` that says in what the two differ: which data sets the last
short record of a binary body is padded for, and what is answered when the target cannot be opened
behind the body. The handlers themselves differ in the checks in front of it.

The access method is a parameter: whether the target opens for output, what `fwrite` and `fflush`
answer for each record, and whether the close succeeds. A target keeps the records that are on it
and, for the results about when it is opened, what the client had still to send at that time.
-/

namespace Mvsmf

/-- The code pages of libhttpd. -/
structure Httpx where
  xlateCp037 : HttpCp
  xlate1047 : HttpCp

def dsCodepage (x : Httpx) : FileEnc → HttpCp
  | .ibm1047 => x.xlate1047
  | _ => x.xlateCp037

/-! ## The target -/

/-- What the access method answers for a record: a short `fwrite`, or the code of `fflush`. -/
inductive AmRc
  | short
  | flushed (err : Nat)
  deriving DecidableEq, Repr

structure AccessMethod where
  opens : Bool
  put : Nat → AmRc
  closes : Bool

/-- An access method that takes everything. -/
def AccessMethod.sound : AccessMethod := ⟨true, fun _ => .flushed 0, true⟩

/-- A target open for output: its previous content is gone, `records` are on it. -/
structure Target where
  unread : List UInt8
  records : List (List UInt8)
  deriving DecidableEq, Repr

def openWriteTarget (am : AccessMethod) (unread : List UInt8) (fp : Option Target) :
    Option Target :=
  match fp with
  | some t => some t
  | none => if am.opens then some ⟨unread, []⟩ else none

/-- The answer of `fflush`: 12 is out of space. -/
def flushRecord (err : Nat) : Int := if err = 0 then 0 else if err = 12 then -2 else -1

/-- What both handlers work with once the checks are passed. -/
structure PutJob where
  sizeCp : HttpCp
  cp : HttpCp
  dataType : DataType
  dcb : Dcb
  padsUndefined : Bool
  openFailed : Refusal
  am : AccessMethod

namespace PutJob

variable (j : PutJob)

/-- The record as `write_record` hands it over. -/
def out (record : List UInt8) : Option (List UInt8) :=
  recordOut j.dcb.recfm j.dataType j.cp j.dcb.contentMax record

/-- A record of no bytes leaves the buffer of the access method empty: nothing is stored, and
`fflush` has nothing to fail on. -/
def writeRecord (t : Target) (record : List UInt8) : Target × Int :=
  match j.out record with
  | none => (t, -1)
  | some [] => (t, 0)
  | some r =>
    match j.am.put t.records.length with
    | .short => (t, -1)
    | .flushed err =>
      if flushRecord err < 0 then (t, flushRecord err)
      else ({ t with records := t.records ++ [r] }, 0)

def writeRecordOpen (unread : List UInt8) (fp : Option Target) (record : List UInt8) :
    Option Target × Int :=
  match openWriteTarget j.am unread fp with
  | none => (none, -1)
  | some t =>
    let (t, rc) := j.writeRecord t record
    (some t, if rc = -2 then -1 else rc)

end PutJob

/-! ## Reading the body -/

/-- The message of a failure and the target as it is left. -/
abbrev PutFail := String × Option Target

/-- `record` is what stands in `record_buffer` in front of `record_pos`. -/
structure PutState where
  conn : Conn
  fp : Option Target
  rl : Recline
  record : List UInt8
  deriving DecidableEq, Repr

namespace PutJob

variable (j : PutJob)

/-- One record, or `message`. -/
def putRecord (message : String) (fp : Option Target) (unread record : List UInt8) :
    Except PutFail (Option Target) :=
  let (fp, rc) := j.writeRecordOpen unread fp record
  if rc < 0 then .error (message, fp) else .ok fp

/-- `left` bytes of binary data in bulk, cut at the piece length. -/
def putBinary (readError : String) : Loop (Nat × PutState) (Except PutFail PutState) where
  step := fun (left, s) =>
    if left = 0 then .inr (.ok s)
    else
      let (got, c) := s.conn.receiveRawSome (min left (j.dcb.piece - s.record.length))
      if got = [] then .inr (.error (readError, s.fp))
      else
        let record := s.record ++ got
        if record.length ≥ j.dcb.piece then
          match j.putRecord "Error writing record" s.fp c.unread record with
          | .error e => .inr (.error e)
          | .ok fp => .inl (left - got.length, { s with conn := c, fp := fp, record := [] })
        else .inl (left - got.length, { s with conn := c, record := record })
  measure := fun (left, _) => left
  lowers := by
    rintro ⟨left, s⟩ ⟨left', s'⟩ h
    simp only at h ⊢
    split at h
    · cases h
    · next h0 =>
      split at h
      · cases h
      · next hg =>
        have := List.length_pos_of_ne_nil hg
        split at h
        · split at h
          · cases h
          · cases h; omega
        · cases h; omega

/-- `left` bytes of text one by one. -/
def putText (readError : String) : Loop (Nat × PutState) (Except PutFail PutState) where
  step := fun (left, s) =>
    if left = 0 then .inr (.ok s)
    else
      match s.conn.receiveRawData 1 with
      | (b :: _, c) =>
        match reclinePut s.rl b with
        | (rl, some rec) =>
          match j.putRecord "Error writing record" s.fp c.unread rec with
          | .error e => .inr (.error e)
          | .ok fp => .inl (left - 1, { s with conn := c, fp := fp, rl := rl })
        | (rl, none) => .inl (left - 1, { s with conn := c, rl := rl })
      | ([], _) => .inr (.error (readError, s.fp))
  measure := fun (left, _) => left
  lowers := by
    rintro ⟨left, s⟩ ⟨left', s'⟩ h
    simp only at h ⊢
    split at h
    · cases h
    · split at h
      · split at h
        · split at h
          · cases h
          · cases h; omega
        · cases h; omega
      · cases h

def putData (readError : String) (n : Nat) (s : PutState) : Except PutFail PutState :=
  match j.dataType with
  | .binary => (j.putBinary readError).exec (n, s)
  | _ => (j.putText readError).exec (n, s)

/-- The bytes of the last short record of a binary body. -/
def padded (record : List UInt8) : List UInt8 :=
  if j.dcb.isUndefined ∧ j.padsUndefined = false then record
  else record ++ List.replicate (j.dcb.piece - record.length) 0

/-- The record still held at the end of the body. -/
def heldRecord (s : PutState) : Option (List UInt8) :=
  match j.dataType with
  | .binary => if s.record = [] then none else some (j.padded s.record)
  | _ => reclineFlush s.rl

def putFinal (s : PutState) : Except PutFail PutState :=
  match j.heldRecord s with
  | none => .ok s
  | some rec =>
    match j.putRecord "Error writing final record" s.fp s.conn.unread rec with
    | .error e => .error e
    | .ok fp => .ok { s with fp := fp }

/-- Behind a size line of value 0. -/
def putLast (s : PutState) : Except PutFail PutState :=
  match j.putFinal s with
  | .error e => .error e
  | .ok s =>
    let (crlf, c) := s.conn.receiveRawData 2
    if crlf.length ≠ 2 then .error ("Error reading final line ending", s.fp)
    else if crlf ≠ [Chunked.CR, Chunked.LF] then .error ("Final line ending not CRLF", s.fp)
    else .ok { s with conn := c }

def putChunk (s : PutState) : PutState ⊕ Except PutFail PutState :=
  match sizeLine s.conn with
  | (_, .closed, _) => .inr (.error ("Error reading chunk size", s.fp))
  | (line, _, c) =>
    let chunkSize := sizeValue j.sizeCp line
    if chunkSize = 0 then .inr (j.putLast { s with conn := c })
    else
      match j.putData "Error reading chunk data" chunkSize { s with conn := c } with
      | .error e => .inr (.error e)
      | .ok s =>
        let (crlf, c) := s.conn.receiveRawData 2
        if crlf.length ≠ 2 then .inr (.error ("Error reading chunk trailer", s.fp))
        else .inl { s with conn := c }

theorem putBinary_length (readError : String) (n : Nat) (s : PutState) :
    ∀ s', (j.putBinary readError).exec (n, s) = .ok s' →
      s'.conn.unread.length ≤ s.conn.unread.length := by
  refine (j.putBinary readError).rule (P := fun p r => ∀ s', r = .ok s' →
    s'.conn.unread.length ≤ p.2.conn.unread.length) ?_ ?_ (n, s)
  · rintro ⟨n, s⟩ r h s' rfl
    simp only [putBinary] at h
    split at h
    · cases h; exact Nat.le_refl _
    · split at h
      · cases h
      · split at h
        · split at h <;> cases h
        · cases h
  · rintro ⟨n, s⟩ p' h ih s' hok
    refine Nat.le_trans (ih s' hok) ?_
    have hd : ∀ len, (s.conn.receiveRawSome len).2.unread.length ≤ s.conn.unread.length :=
      fun len => by simp [Conn.receiveRawSome]
    simp only [putBinary] at h
    split at h
    · cases h
    · split at h
      · cases h
      · split at h
        · split at h
          · cases h
          · cases h; exact hd _
        · cases h; exact hd _

theorem putText_length (readError : String) (n : Nat) (s : PutState) :
    ∀ s', (j.putText readError).exec (n, s) = .ok s' →
      s'.conn.unread.length ≤ s.conn.unread.length := by
  refine (j.putText readError).rule (P := fun p r => ∀ s', r = .ok s' →
    s'.conn.unread.length ≤ p.2.conn.unread.length) ?_ ?_ (n, s)
  · rintro ⟨n, s⟩ r h s' rfl
    simp only [putText] at h
    split at h
    · cases h; exact Nat.le_refl _
    · split at h
      · split at h
        · split at h <;> cases h
        · cases h
      · cases h
  · rintro ⟨n, s⟩ p' h ih s' hok
    refine Nat.le_trans (ih s' hok) ?_
    have hd : ∀ {b t c}, s.conn.receiveRawData 1 = (b :: t, c) →
        c.unread.length ≤ s.conn.unread.length := fun h => by
      rw [← (Prod.mk.inj h).2, List.length_drop]
      exact Nat.sub_le _ _
    simp only [putText] at h
    split at h
    · cases h
    · split at h
      · next b t c hr =>
        split at h
        · split at h
          · cases h
          · cases h; exact hd hr
        · cases h; exact hd hr
      · cases h

theorem putData_length {readError : String} {n : Nat} {s s' : PutState}
    (h : j.putData readError n s = .ok s') :
    s'.conn.unread.length ≤ s.conn.unread.length := by
  unfold putData at h
  split at h
  · exact j.putBinary_length readError n s s' h
  · exact j.putText_length readError n s s' h

/-- The loop over the chunks. -/
def putChunks : Loop PutState (Except PutFail PutState) where
  step := j.putChunk
  measure := fun s => s.conn.unread.length
  lowers := by
    intro s s' h
    unfold putChunk at h
    split at h
    · cases h
    · next line e c he hl =>
      simp only at h
      split at h
      · cases h
      · next hv =>
        have h1 := sizeLine_unread hl
        have h2 := sizeValue_pos hv
        split at h
        · cases h
        · next s₁ hd =>
          have h3 := j.putData_length hd
          simp only at h3 h
          split at h
          · cases h
          · cases h
            rw [Conn.receiveRawData_unread, List.length_drop]
            omega

/-- The body by its framing, up to the end of it. -/
def putReceive (chunked : Bool) (contentLength : Nat) (s : PutState) : Except PutFail PutState :=
  if chunked then j.putChunks.exec s
  else
    match j.putData "Error reading data" contentLength s with
    | .error e => .error e
    | .ok s => j.putFinal s

end PutJob

/-! ## The handlers -/

/-- The answer and, once the data set was opened for output, what is on it. -/
structure PutOut where
  answer : Answer
  fp : Option Target
  deriving DecidableEq, Repr

/-- Behind the buffer: the body, the open of a body without a record, and the close. -/
def PutJob.putBody (j : PutJob) (chunked : Bool) (contentLength : Nat) (fp : Option Target)
    (c : Conn) : PutOut :=
  match j.putReceive chunked contentLength ⟨c, fp, reclineInit j.dcb.contentMax, []⟩ with
  | .error (message, fp) => ⟨handleError ERR_IO message, fp⟩
  | .ok s =>
    match openWriteTarget j.am s.conn.unread s.fp with
    | none => ⟨j.openFailed, none⟩
    | some t =>
      if j.am.closes = false then ⟨handleError ERR_IO "Error writing the last block", some t⟩
      else if s.rl.truncated then
        ⟨handleError ERR_IO "Record truncated to the record length of the data set", some t⟩
      else ⟨.plain 204, some t⟩

structure PutRequest where
  dataType : Option (List Char)
  transferEncoding : Option (List Char)
  contentLength : Option (List Char)
  deriving DecidableEq, Repr

/-- The Content-Length as both handlers read it. -/
def PutRequest.length (req : PutRequest) : Nat := (CLib.strtoul 10 (req.contentLength.getD [])).1

/-- Neither chunked nor a Content-Length. -/
def PutRequest.unframed (req : PutRequest) : Bool :=
  !isChunked req.transferEncoding && req.contentLength.isNone

def missingLength : Answer :=
  handleError ERR_INVALID_PARAM "Missing Content-Length or Transfer-Encoding header"

def REASON_DATASET_NOT_FOUND : Int := 4

def datasetNotFound : Refusal :=
  ⟨⟨Answer.HTTP_STATUS_NOT_FOUND, Answer.CATEGORY_SERVICE, Answer.RC_ERROR,
    REASON_DATASET_NOT_FOUND, "Dataset not found", []⟩, rfl⟩

/-- What the sequential handler meets: `refused` is what the checks of the name, the authority, the
volume and the organization answer, `dcb` the data set when it can be opened for input, `ifMatch`
what the If-Match header makes it answer, `storage` whether the record buffer can be had. -/
structure DatasetSystem where
  httpx : Httpx
  refused : Option Refusal
  dcb : Option Dcb
  ifMatch : Option Refusal
  storage : Bool
  am : AccessMethod

def datasetPutJob (sys : DatasetSystem) (dataType : DataType) (enc : FileEnc) (dcb : Dcb) :
    PutJob where
  sizeCp := sys.httpx.xlateCp037
  cp := dsCodepage sys.httpx enc
  dataType := dataType
  dcb := dcb
  padsUndefined := false
  openFailed := ⟨handleError ERR_IO "Cannot open dataset for writing", handleError_success _ _⟩
  am := sys.am

def datasetPutHandler (sys : DatasetSystem) (req : PutRequest) (c : Conn) : PutOut :=
  match sys.refused with
  | some a => ⟨a, none⟩
  | none =>
    match parseDataType req.dataType with
    | none => ⟨sendBadEncoding req.dataType, none⟩
    | some (dataType, enc) =>
      if req.unframed then ⟨missingLength, none⟩
      else
        match sys.dcb with
        | none => ⟨datasetNotFound, none⟩
        | some dcb =>
          match sys.ifMatch with
          | some a => ⟨a, none⟩
          | none =>
            if dcb.piece = 0 ∨ dcb.contentMax = 0 then
              ⟨handleError ERR_IO "Dataset has zero record length", none⟩
            else if sys.storage = false then
              ⟨handleError ERR_MEMORY "Memory allocation failed", none⟩
            else
              (datasetPutJob sys dataType enc dcb).putBody (isChunked req.transferEncoding)
                req.length none c

/-- What the member handler meets: `member` is the member's DCB when it exists, `created` the DCB
an output open of a new one supplies, `catalogedLater` what the diagnosis of a failed open finds. -/
structure MemberSystem where
  httpx : Httpx
  refused : Option Refusal
  cataloged : Bool
  ifMatch : Option Refusal
  member : Option Dcb
  created : Dcb
  storage : Bool
  catalogedLater : Bool
  am : AccessMethod

/-- `send_open_failure` without a member name. -/
def sendOpenFailure (cataloged : Bool) (message : String) : Refusal :=
  if cataloged then ⟨handleError ERR_IO message, handleError_success _ _⟩ else datasetNotFound

def memberPutJob (sys : MemberSystem) (dataType : DataType) (enc : FileEnc) (dcb : Dcb) :
    PutJob where
  sizeCp := sys.httpx.xlateCp037
  cp := dsCodepage sys.httpx enc
  dataType := dataType
  dcb := dcb
  padsUndefined := true
  openFailed := sendOpenFailure sys.catalogedLater "Cannot open dataset member for writing"
  am := sys.am

/-- The length check comes before the data type here; a member that does not exist is opened for
output at once. -/
def memberPutHandler (sys : MemberSystem) (req : PutRequest) (c : Conn) : PutOut :=
  match sys.refused with
  | some a => ⟨a, none⟩
  | none =>
    if req.unframed then ⟨missingLength, none⟩
    else
      match parseDataType req.dataType with
      | none => ⟨sendBadEncoding req.dataType, none⟩
      | some (dataType, enc) =>
        if sys.cataloged = false then ⟨datasetNotFound, none⟩
        else
          match sys.ifMatch with
          | some a => ⟨a, none⟩
          | none =>
            let fp := if sys.member.isSome then none else openWriteTarget sys.am c.unread none
            if sys.member.isNone ∧ fp.isNone then
              ⟨sendOpenFailure sys.catalogedLater "Cannot open dataset member for writing", none⟩
            else
              let dcb := sys.member.getD sys.created
              if dcb.piece = 0 ∨ dcb.contentMax = 0 then
                ⟨handleError ERR_IO "Dataset has zero record length", fp⟩
              else if sys.storage = false then
                ⟨handleError ERR_MEMORY "Memory allocation failed", fp⟩
              else
                (memberPutJob sys dataType enc dcb).putBody (isChunked req.transferEncoding)
                  req.length fp c

end Mvsmf
