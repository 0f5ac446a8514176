import Mvsmf.Common.CodePage
import Mvsmf.Lib.Framer

/-!
# Records

How a body becomes records: the data type the request asks for (`datatype.c`), the text framer
(`reclines.c`), the lengths a data set's records may have (`reclimit.c`), and what `write_record`
hands to the access method for one record.
-/

namespace Mvsmf

/-! ## The data type -/

inductive DataType
  | text
  | binary
  | record
  deriving DecidableEq, Repr

inductive FileEnc
  | default
  | ibm037
  | ibm1047
  deriving DecidableEq, Repr

/-- `s` spells `word`, ignoring case. -/
def tokenIs (s : List Char) (word : String) : Bool :=
  s.map Char.toUpper == word.toList.map Char.toUpper

def encodingOf (s : List Char) : Option FileEnc :=
  if tokenIs s "IBM-037" || tokenIs s "037" then some .ibm037
  else if tokenIs s "IBM-1047" || tokenIs s "1047" then some .ibm1047
  else none

/-- The first `fileEncoding=` with a value among the parts behind the first semicolon. -/
def fileEncoding : List (List Char) → Option FileEnc
  | [] => some .default
  | part :: parts =>
    let keylen := "fileEncoding=".length
    if keylen < part.length ∧ tokenIs (part.take keylen) "fileEncoding=" then
      encodingOf (part.drop keylen)
    else fileEncoding parts

/-- `none` is the answer -1: a text request with an encoding there is no table for. -/
def parseDataType : Option (List Char) → Option (DataType × FileEnc)
  | none => some (.text, .default)
  | some value =>
    let parts := value.splitOn ';'
    if tokenIs (parts.headD []) "binary" then some (.binary, .default)
    else if tokenIs (parts.headD []) "record" then some (.record, .default)
    else (fileEncoding parts.tail).map fun enc => (.text, enc)

/-! ## Lines -/

def ASCII_LF : UInt8 := 0x0A
def ASCII_CR : UInt8 := 0x0D
def ASCII_BLANK : UInt8 := 0x20

/-- The text framer: the content held, its limit, a CR just seen, and whether a line lost bytes. -/
structure Recline where
  buf : List UInt8
  contentMax : Nat
  pendingLf : Bool
  truncated : Bool
  deriving DecidableEq, Repr

def reclineInit (contentMax : Nat) : Recline := ⟨[], contentMax, false, false⟩

def reclinePut (rl : Recline) (c : UInt8) : Recline × Option (List UInt8) :=
  if rl.pendingLf = true ∧ c = ASCII_LF then ({ rl with pendingLf := false }, none)
  else if c = ASCII_LF ∨ c = ASCII_CR then
    ({ rl with buf := [], pendingLf := decide (c = ASCII_CR) },
      some (if rl.buf = [] then [ASCII_BLANK] else rl.buf))
  else if rl.buf.length ≥ rl.contentMax then
    ({ rl with pendingLf := false, truncated := true }, none)
  else ({ rl with buf := rl.buf ++ [c], pendingLf := false }, none)

def reclineFlush (rl : Recline) : Option (List UInt8) := if rl.buf = [] then none else some rl.buf

/-- A byte that ends no line is held or, behind a full record, dropped. -/
theorem reclinePut_none {rl rl' : Recline} {c : UInt8} (hp : rl.pendingLf = false)
    (h : reclinePut rl c = (rl', none)) : rl'.pendingLf = false ∧
      rl'.contentMax = rl.contentMax ∧
      (rl'.buf = rl.buf ++ [c] ∨ rl.contentMax ≤ rl.buf.length ∧ rl'.buf = rl.buf) := by
  unfold reclinePut at h
  rw [hp, if_neg (fun hx => Bool.false_ne_true hx.1)] at h
  split at h
  · cases h
  · split at h
    · next hfull =>
      cases h
      exact ⟨rfl, rfl, .inr ⟨hfull, rfl⟩⟩
    · cases h
      exact ⟨rfl, rfl, .inl rfl⟩

/-! ## Record lengths -/

def RECFM_TYPE : UInt8 := 0xC0
def RECFM_V : UInt8 := 0x40
def RECFM_U : UInt8 := 0xC0
def RECFM_S : UInt8 := 0x08

/-- The DCB as libc370 hands it over in FILE. -/
structure Dcb where
  recfm : UInt8
  lrecl : Nat
  blksize : Nat
  deriving DecidableEq, Repr

def reclimSpanned (recfm : UInt8) : Bool :=
  decide (recfm &&& RECFM_TYPE = RECFM_V ∧ recfm &&& RECFM_S ≠ 0)

def reclimContentMax (recfm : UInt8) (effLrecl : Nat) (isUndefined : Bool) : Nat :=
  if isUndefined then effLrecl
  else if recfm &&& RECFM_TYPE = RECFM_V then
    effLrecl - (if reclimSpanned recfm then 8 else 4)
  else effLrecl

def reclimBinaryPiece (recfm : UInt8) (effLrecl : Nat) (isUndefined : Bool) : Nat :=
  if isUndefined = false ∧ reclimSpanned recfm then reclimContentMax recfm effLrecl isUndefined
  else effLrecl

def Dcb.isUndefined (d : Dcb) : Bool := decide (d.recfm &&& RECFM_TYPE = RECFM_U)

/-- The LRECL, or the BLKSIZE where RECFM=U leaves the LRECL 0. -/
def Dcb.effLrecl (d : Dcb) : Nat := if d.isUndefined then d.blksize else d.lrecl

def Dcb.contentMax (d : Dcb) : Nat := reclimContentMax d.recfm d.effLrecl d.isUndefined

/-- The binary piece. -/
def Dcb.piece (d : Dcb) : Nat := reclimBinaryPiece d.recfm d.effLrecl d.isUndefined

/-! ## One record to the access method -/

/-- The record format flags of dsapi.c. -/
def FIXED : UInt8 := 0x01
def VARIABLE : UInt8 := 0x02
def UNDEFINED : UInt8 := 0x04

def isVariable (recfm : UInt8) : Bool := decide (recfm &&& VARIABLE = VARIABLE)

/-- A record-descriptor word, its length an `unsigned short`. -/
def rdw (length : Nat) : List UInt8 :=
  let recordDescriptor := (length + 4) % 65536
  [UInt8.ofNat (recordDescriptor / 256), UInt8.ofNat (recordDescriptor % 256), 0, 0]

/-- The length in the four bytes in front of a record. -/
def recLen (b0 b1 b2 b3 : UInt8) : Nat :=
  b0.toNat * 2 ^ 24 + b1.toNat * 2 ^ 16 + b2.toNat * 2 ^ 8 + b3.toNat

/-- The bytes `write_record` hands over for one record; `none` where it refuses the record. -/
def recordOut (recfm : UInt8) (dataType : DataType) (cp : HttpCp) (contentMax : Nat)
    (record : List UInt8) : Option (List UInt8) :=
  match dataType with
  | .binary => some (if isVariable recfm then rdw record.length ++ record else record)
  | .record =>
    match record with
    | b0 :: b1 :: b2 :: b3 :: content =>
      let n := recLen b0 b1 b2 b3
      if n > content.length then none
      else some (if isVariable recfm then rdw n ++ content.take n else content.take n)
    | _ => none
  | .text =>
    some ((if contentMax ≠ 0 ∧ record.length > contentMax then record.take contentMax
      else record).map cp.atoe)

end Mvsmf
