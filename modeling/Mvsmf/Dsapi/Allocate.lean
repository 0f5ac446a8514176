import Mvsmf.Common.JsonExtract
import Mvsmf.Dsapi.Create
import Mvsmf.Dsapi.ModelSpace

/-!
# The allocation of a data set

From the body `datasetCreateHandler` takes what the data set is to be, fills in from a model what the
request leaves to it, and writes it as one string for `__dsalcf`. The body is the C string the
handler reads.
-/

namespace Mvsmf

open CLib

/-! ## The fields of the body -/

/-- What `extract_json_string` leaves in a buffer. -/
def extractInto (json : List Char) (key : String) (outlen : Nat) : Option (List Char) :=
  (extractJsonString json key.toList outlen).map fun (val, len) => val.take len

def atoi (s : List Char) : Int := (strtol s).1

/-- `extract_json_int`: digits behind the colon. -/
def extractJsonInt (json : List Char) (key : String) : Option Int :=
  match fieldValue (searchText key.toList) json with
  | some (c :: pos) => if '0' ≤ c ∧ c ≤ '9' then some (atoi (c :: pos)) else none
  | _ => none

/-- The sizes of `json_val` and of `dsorg`, `alcunit` and `recfm`. -/
def JSON_VAL : Nat := 64
def ATTR_SIZE : Nat := 8

/-- The attributes a body gives. -/
structure BodyFields where
  dsorg : Option (List Char)
  recfm : Option (List Char)
  lrecl : Option Int
  blksize : Option Int
  primary : Option Int
  secondary : Option Int
  dirblk : Option Int
  alcunit : Option (List Char)

def BodyFields.read (body : List Char) : BodyFields where
  dsorg := extractInto body "dsorg" ATTR_SIZE
  recfm := extractInto body "recfm" ATTR_SIZE
  lrecl := extractJsonInt body "lrecl"
  blksize := extractJsonInt body "blksize"
  primary := extractJsonInt body "primary"
  secondary := extractJsonInt body "secondary"
  dirblk := extractJsonInt body "dirblk"
  alcunit := extractInto body "alcunit" ATTR_SIZE

/-- What a body has to give where there is no model. -/
def BodyFields.complete (f : BodyFields) : Bool :=
  f.dsorg.isSome && f.recfm.isSome && f.lrecl.isSome && f.blksize.isSome && f.primary.isSome

/-- The unit of the body's quantities. -/
def BodyFields.unit (f : BodyFields) : List Char :=
  match f.alcunit with
  | none => "TRK".toList
  | some u => u.map HostChar.toupper

/-! ## The merge with a model -/

def modelNotFound : Answer :=
  ⟨Answer.HTTP_STATUS_NOT_FOUND, Answer.CATEGORY_SERVICE, Answer.RC_ERROR, 4, "Dataset not found", []⟩

def dynallocError : Answer :=
  ⟨Answer.HTTP_STATUS_INTERNAL_SERVER_ERROR, 8, 900, 7, "Dynamic allocation Error", []⟩

def HTTP_STATUS_CREATED : Nat := 201

/-- `(int)` of an `unsigned`. -/
def asInt (x : UInt32) : Int := if x.toNat < 2 ^ 31 then x.toNat else (x.toNat : Int) - 2 ^ 32

def datasetCataloged (v : Vtoc) (dsname : List Char) : Bool := (v.locate (dsn44 dsname)).isSome

def DSGPO : UInt8 := 0x02

def isPds (v : Vtoc) (dsname : List Char) : Bool :=
  match v.locate (dsn44 dsname) with
  | none => false
  | some vol =>
    match v.dscbdv (dsn44 dsname) vol with
    | none => false
    | some dscb1 => dscb1.dsorg1 &&& DSGPO ≠ 0

def LIKE_DIRBLK : Int := 20

/-- What the data set is to be. -/
@[ext]
structure Alloc where
  like : Option (List Char)
  dsorg : List Char
  recfm : List Char
  lrecl : Int
  blksize : Int
  unit : List Char
  primary : Int
  secondary : Int
  dirblk : Int

/-- The target is partitioned: by the `dsorg` of the body, or else by the model. -/
def targetIsPds (v : Vtoc) (like dsorg : List Char) : Bool :=
  match dsorg with
  | [] => isPds v like
  | c :: cs => HostChar.toupper c = 'P' && (cs.head?.map HostChar.toupper) = some 'O'

/-- The allocation without a model: the fields as they are. -/
def BodyFields.alone (f : BodyFields) : Alloc where
  like := none
  dsorg := f.dsorg.getD []
  recfm := f.recfm.getD []
  lrecl := f.lrecl.getD 0
  blksize := f.blksize.getD 0
  unit := f.unit
  primary := f.primary.getD 0
  secondary := f.secondary.getD 0
  dirblk := f.dirblk.getD 0

/-- The space of the model in a request that leaves some of it out. -/
def Alloc.fill (a : Alloc) (f : BodyFields) (space : Option (UInt32 × UInt32)) : Alloc :=
  match space with
  | none => a
  | some (mpri, msec) =>
    let a := if f.primary.isNone ∧ mpri > 0 then
      { a with primary := asInt mpri, unit := "TRK".toList } else a
    if f.secondary.isNone ∧ a.unit = "TRK".toList then { a with secondary := asInt msec } else a

/-- `if (primary <= 0) primary = 1` -/
def Alloc.atLeastOne (a : Alloc) : Alloc := if a.primary ≤ 0 then { a with primary := 1 } else a

/-- The directory blocks of a partitioned target, where the body gives none. -/
def Alloc.directory (a : Alloc) (v : Vtoc) (like : List Char) (f : BodyFields) : Alloc :=
  if f.dirblk.isNone ∧ targetIsPds v like a.dsorg = true then { a with dirblk := LIKE_DIRBLK } else a

def Alloc.ofModel (v : Vtoc) (like : List Char) (f : BodyFields) : Alloc :=
  ({ f.alone with like := some like }.fill f (modelAlloc v like)).atLeastOne.directory v like f

section

variable (a : Alloc) (v : Vtoc) (like : List Char) (f : BodyFields)

theorem Alloc.fill_unit (mpri msec : UInt32) : (a.fill f (some (mpri, msec))).unit =
    if f.primary.isNone ∧ mpri > 0 then "TRK".toList else a.unit := by
  unfold fill
  dsimp only
  split <;> split <;> rfl

theorem Alloc.fill_primary (mpri msec : UInt32) : (a.fill f (some (mpri, msec))).primary =
    if f.primary.isNone ∧ mpri > 0 then asInt mpri else a.primary := by
  unfold fill
  dsimp only
  split <;> split <;> rfl

theorem Alloc.fill_secondary (mpri msec : UInt32) : (a.fill f (some (mpri, msec))).secondary =
    if f.secondary.isNone ∧ (a.fill f (some (mpri, msec))).unit = "TRK".toList then asInt msec
    else a.secondary := by
  rw [fill_unit]
  unfold fill
  dsimp only
  split <;> split <;> simp_all

@[simp] theorem Alloc.atLeastOne_unit : a.atLeastOne.unit = a.unit := by
  unfold atLeastOne
  split <;> rfl

@[simp] theorem Alloc.atLeastOne_primary :
    a.atLeastOne.primary = if a.primary ≤ 0 then 1 else a.primary := by
  unfold atLeastOne
  split <;> rfl

@[simp] theorem Alloc.atLeastOne_secondary : a.atLeastOne.secondary = a.secondary := by
  unfold atLeastOne
  split <;> rfl

@[simp] theorem Alloc.directory_unit : (a.directory v like f).unit = a.unit := by
  unfold directory
  split <;> rfl

@[simp] theorem Alloc.directory_primary : (a.directory v like f).primary = a.primary := by
  unfold directory
  split <;> rfl

@[simp] theorem Alloc.directory_secondary : (a.directory v like f).secondary = a.secondary := by
  unfold directory
  split <;> rfl

end

/-- From the body to the allocation, or to the answer that refuses it. -/
def createAlloc (v : Vtoc) (body : List Char) : Except Answer Alloc :=
  let f := BodyFields.read body
  match extractInto body "like" JSON_VAL with
  | none => if f.complete then .ok f.alone else .error invalidAllocParams
  | some val =>
    match normalizeDsn (some val) (MAX_DATASET_NAME + 1) with
    | none => .error invalidAllocParams
    | some like =>
      if datasetCataloged v like then .ok (.ofModel v like f) else .error modelNotFound

/-! ## The string for `__dsalcf` -/

/-- `sizeof(opts)` -/
def OPTS_SIZE : Nat := 512

def field (keyword : String) (value : List Char) : List Char := keyword.toList ++ '=' :: value

/-- A field behind a `;`. -/
def optionText (keyword : String) (value : List Char) : List Char := ';' :: field keyword value

/-- What stands in front of the space. -/
def Alloc.head (a : Alloc) (dsname : List Char) : List Char :=
  field "DSN" dsname ++ optionText "DISP" "(NEW,CATLG,DELETE)".toList ++
    a.like.elim [] (optionText "DCBDSN") ++
    (if a.dsorg = [] then [] else optionText "DSORG" a.dsorg) ++
    (if a.recfm = [] then [] else optionText "RECFM" a.recfm) ++
    (if 0 < a.lrecl then optionText "LRECL" (Json.decimal a.lrecl) else []) ++
    (if 0 < a.blksize then optionText "BLKSIZE" (Json.decimal a.blksize) else [])

/-- `%s(%d,%d,%d)` -/
def Alloc.space (a : Alloc) : List Char :=
  a.unit ++ '(' :: (Json.decimal a.primary ++ ',' :: (Json.decimal a.secondary ++
    ',' :: (Json.decimal a.dirblk ++ [')'])))

/-- The whole string; `none` if there is no room for its first part. -/
def Alloc.opts (a : Alloc) (dsname : List Char) : Option (List Char) :=
  if OPTS_SIZE ≤ (a.head dsname).length then none
  else some ((a.head dsname ++ optionText "SPACE" a.space).take (OPTS_SIZE - 1))

/-- What the handler does: the string it passes to `__dsalcf`, and its answer. -/
structure Created where
  opts : Option (List Char)
  answer : Answer

def Created.refuse (a : Answer) : Created := ⟨none, a⟩

/-- `datasetCreateHandler`, with the return code of `__dsalcf`. -/
def datasetCreateHandler (v : Vtoc) (dsalcf : List Char → Int) (dsname : Option (List Char))
    (body : List Char) : Created :=
  match dsname with
  | none => .refuse invalidAllocParams
  | some dsname =>
    match normalizeDsn (some dsname) (MAX_DATASET_NAME + 1) with
    | none => .refuse (handleError ERR_INVALID_PARAM "Dataset name is too long")
    | some dsname =>
      match createAlloc v body with
      | .error e => .refuse e
      | .ok a =>
        match a.opts dsname with
        | none => .refuse invalidAllocParams
        | some opts =>
          ⟨some opts, if dsalcf opts = 0 then .plain HTTP_STATUS_CREATED else dynallocError⟩

end Mvsmf
