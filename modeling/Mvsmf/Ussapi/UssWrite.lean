import Mvsmf.Lib.Prog
import Mvsmf.Dsapi.IfMatch

/-!
# The writing requests on files

PUT, create and delete call UFS, which reports a failure by a null handle, a return code that is not
zero, a short write or a close that fails; what a null handle was for is in the session, where a
failure that UFS does not record leaves the code of an earlier call. The handlers are programs over
these calls, so a result holds of every run whatever UFS answers.
-/

namespace Mvsmf

abbrev UssPath := List UInt8

/-! ## UFS -/

def UFSD_RC_OK : Nat := 0
def UFSD_RC_NOFILE : Nat := 28
def UFSD_RC_EXIST : Nat := 32
def UFSD_RC_NOTDIR : Nat := 36
def UFSD_RC_ISDIR : Nat := 40
def UFSD_RC_NOSPACE : Nat := 44
def UFSD_RC_NOINODES : Nat := 48
def UFSD_RC_IO : Nat := 52
def UFSD_RC_BADFD : Nat := 56
def UFSD_RC_NOTEMPTY : Nat := 60
def UFSD_RC_NAMETOOLONG : Nat := 64
def UFSD_RC_ROFS : Nat := 68

inductive OpenMode
  | read
  | write
  deriving DecidableEq, Repr

/-- An entry of a directory, as far as a delete looks at it. -/
structure UssDirEntry where
  name : List UInt8
  isDir : Bool

/-- The calls the handlers make: those of libufs, and the stamp and the kind of a file, which are read
through it. -/
inductive UfsCall
  | getUfs
  | etag (path : UssPath)
  | isDirectory (path : UssPath)
  | setCreatePerm (perm : Nat)
  | fopen (path : UssPath) (mode : OpenMode)
  | lastRc
  | fwrite (path : UssPath) (body : List UInt8)
  | fclose (path : UssPath) (mode : OpenMode)
  | mkdir (path : UssPath)
  | remove (path : UssPath)
  | rmdir (path : UssPath)
  | diropen (path : UssPath)
  | dirread (path : UssPath)
  | dirclose (path : UssPath)

/-- What a call answers: an open the error in the handle, a write its count and that error. -/
abbrev UfsCall.Ans : UfsCall → Type
  | .getUfs => Bool
  | .etag _ => Option (List Char)
  | .isDirectory _ => Bool
  | .setCreatePerm _ => Nat
  | .fopen _ _ => Option Nat
  | .lastRc => Nat
  | .fwrite _ _ => Nat × Nat
  | .fclose _ _ => Int
  | .mkdir _ => Int
  | .remove _ => Int
  | .rmdir _ => Int
  | .diropen _ => Bool
  | .dirread _ => Option UssDirEntry
  | .dirclose _ => Unit

abbrev UfsProg := Prog UfsCall UfsCall.Ans

abbrev UfsEvent := Prog.Event UfsCall UfsCall.Ans

def ufs (c : UfsCall) : UfsProg c.Ans := Prog.ask c

/-! ## The return codes -/

def ufsdRcToHttp (rc : Nat) : Nat :=
  if rc = UFSD_RC_OK then 200
  else if rc = UFSD_RC_NOFILE then 404
  else if rc = UFSD_RC_EXIST then 400
  else if rc = UFSD_RC_NOTDIR then 400
  else if rc = UFSD_RC_ISDIR then 400
  else if rc = UFSD_RC_NOSPACE then 500
  else if rc = UFSD_RC_NOINODES then 500
  else if rc = UFSD_RC_IO then 500
  else if rc = UFSD_RC_BADFD then 500
  else if rc = UFSD_RC_NOTEMPTY then 400
  else if rc = UFSD_RC_NAMETOOLONG then 400
  else if rc = UFSD_RC_ROFS then 400
  else 500

def ufsdRcToCategory (rc : Nat) : Nat :=
  if rc = UFSD_RC_NOFILE then 6
  else if rc = UFSD_RC_EXIST then 4
  else if rc = UFSD_RC_NOTDIR then 2
  else if rc = UFSD_RC_ISDIR then 2
  else if rc = UFSD_RC_NOSPACE then 8
  else if rc = UFSD_RC_NOINODES then 8
  else if rc = UFSD_RC_IO then 10
  else if rc = UFSD_RC_BADFD then 10
  else if rc = UFSD_RC_NOTEMPTY then 4
  else if rc = UFSD_RC_NAMETOOLONG then 2
  else if rc = UFSD_RC_ROFS then 4
  else 10

def ufsdRcMessage (rc : Nat) : String :=
  if rc = UFSD_RC_OK then "Success"
  else if rc = UFSD_RC_NOFILE then "File or directory not found"
  else if rc = UFSD_RC_EXIST then "File or directory already exists"
  else if rc = UFSD_RC_NOTDIR then "Not a directory"
  else if rc = UFSD_RC_ISDIR then "Is a directory"
  else if rc = UFSD_RC_NOSPACE then "No space left on device"
  else if rc = UFSD_RC_NOINODES then "No inodes available"
  else if rc = UFSD_RC_IO then "I/O error"
  else if rc = UFSD_RC_BADFD then "Bad file descriptor"
  else if rc = UFSD_RC_NOTEMPTY then "Directory not empty"
  else if rc = UFSD_RC_NAMETOOLONG then "Path name too long"
  else if rc = UFSD_RC_ROFS then "Read-only file system"
  else "Unknown UFSD error"

/-- The answer the handlers give to a return code. -/
def ufsAnswer (urc : Nat) : Answer :=
  ⟨ufsdRcToHttp urc, ufsdRcToCategory urc, 8, 1, ufsdRcMessage urc, []⟩

/-- The only return code that the table makes a success is `0`. -/
theorem ufsAnswer_success {urc : Nat} : (ufsAnswer urc).success = true ↔ urc = UFSD_RC_OK := by
  rw [Answer.success, ufsAnswer, decide_eq_true_eq]
  dsimp only
  rw [ufsdRcToHttp]
  split
  · next h => exact iff_of_true (by decide) h
  · next h =>
    refine iff_of_false ?_ h
    repeat' split
    all_goals decide

/-- `uss_open_rc`: the code of an open that gave no handle. -/
def ussOpenRc : UfsProg Nat := do
  let urc ← ufs .lastRc
  return if urc = UFSD_RC_OK then UFSD_RC_NOFILE else urc

/-! ## The handlers -/

/-- A PUT: the answer of a check it did not pass, or that of the utilities handler, which calls no
UFS, and what it stores. -/
structure UssPut where
  path : UssPath
  refused : Option Refusal
  utility : Option Answer
  body : List UInt8
  ifMatch : Option (List Char)
  returnEtag : Bool

def ussNoUfs : Answer := ⟨503, 1, 8, 1, "UFSD subsystem not available", []⟩

/-- The check of the If-Match header in front of the open. -/
def ussIfMatch (req : UssPut) : UfsProg (Option Answer) :=
  match req.ifMatch with
  | none => return none
  | some header => do
    let current ← ufs (.etag req.path)
    match current with
    | some etag => return ussCheckIfMatch (some header) (some etag) false
    | none => do
      let isDirectory ← ufs (.isDirectory req.path)
      return ussCheckIfMatch (some header) none isDirectory

/-- The write of the body, an empty one without a call: the count and the error of the handle. -/
def ussWriteBody (req : UssPut) : UfsProg (Nat × Nat) :=
  if req.body = [] then return (0, UFSD_RC_OK) else ufs (.fwrite req.path req.body)

/-- The PUT behind the write. -/
def ussWritten (req : UssPut) (written error : Nat) : UfsProg Answer := do
  let _ ← ufs (.fclose req.path .write)
  if written ≠ req.body.length then
    if error ≠ UFSD_RC_OK then return ufsAnswer error
    else return ⟨500, 10, 8, 1, "Incomplete write to file", []⟩
  else if req.returnEtag then
    let _ ← ufs (.etag req.path)
    return Answer.plain 204
  else return Answer.plain 204

/-- The PUT from the open for output on. -/
def ussStore (req : UssPut) : UfsProg Answer := do
  match ← ufs (.fopen req.path .write) with
  | none =>
    let urc ← ussOpenRc
    return ufsAnswer urc
  | some error =>
    if error ≠ UFSD_RC_OK then
      let _ ← ufs (.fclose req.path .write)
      return ufsAnswer error
    else
      let (written, error) ← ussWriteBody req
      ussWritten req written error

def ussPutHandler (req : UssPut) : UfsProg Answer :=
  match req.refused, req.utility with
  | some a, _ => return a.1
  | none, some a => return a
  | none, none => do
    if (← ufs .getUfs) = false then return ussNoUfs
    else
      match ← ussIfMatch req with
      | some mismatch => return mismatch
      | none => ussStore req

/-- The body of a create that has been read: the type it asks for and the mode. -/
structure UssCreate where
  path : UssPath
  refused : Option Refusal
  isFile : Bool
  perm : Nat

def ussExists : Answer := ⟨400, 4, 8, 1, "File or directory already exists", []⟩

/-- The create of a file: an open for reading that fails is taken for a name that is free. -/
def ussCreateFile (path : UssPath) (oldPerm : Nat) : UfsProg Answer := do
  match ← ufs (.fopen path .read) with
  | some _ =>
    let _ ← ufs (.fclose path .read)
    let _ ← ufs (.setCreatePerm oldPerm)
    return ussExists
  | none =>
    match ← ufs (.fopen path .write) with
    | none =>
      let urc ← ufs .lastRc
      let _ ← ufs (.setCreatePerm oldPerm)
      return ufsAnswer urc
    | some error =>
      let _ ← ufs (.fclose path .write)
      let _ ← ufs (.setCreatePerm oldPerm)
      return if error ≠ UFSD_RC_OK then ufsAnswer error else Answer.plain 201

def ussCreateDirectory (path : UssPath) (oldPerm : Nat) : UfsProg Answer := do
  if ← ufs (.diropen path) then
    let _ ← ufs (.dirclose path)
    let _ ← ufs (.setCreatePerm oldPerm)
    return ussExists
  else
    let rc ← ufs (.mkdir path)
    if rc ≠ 0 then
      let urc ← ufs .lastRc
      let _ ← ufs (.setCreatePerm oldPerm)
      return ufsAnswer (if urc = UFSD_RC_OK then UFSD_RC_NOFILE else urc)
    else
      let _ ← ufs (.setCreatePerm oldPerm)
      return Answer.plain 201

def ussCreateHandler (req : UssCreate) : UfsProg Answer :=
  match req.refused with
  | some a => return a.1
  | none => do
    if ← ufs .getUfs then
      let oldPerm ← ufs (.setCreatePerm req.perm)
      if req.isFile then ussCreateFile req.path oldPerm
      else ussCreateDirectory req.path oldPerm
    else return ussNoUfs

/-- `.` and `..`. -/
def isSelfOrParent (name : List UInt8) : Bool := name == [0x4B] || name == [0x4B, 0x4B]

/-- `snprintf` of path and name into a buffer of `pathMax` bytes. -/
def ussFullPath (pathMax : Nat) (path : UssPath) (name : List UInt8) : UssPath :=
  (path ++ 0x61 :: name).take (pathMax - 1)

/-- The return code of one call. -/
def ussCode (c : UfsCall) (h : c.Ans = Int) : UfsProg (Option Int) := do
  let rc ← ufs c
  return some (h ▸ rc)

mutual

/-- `uss_recursive_delete` with its return code; `none` if the walk takes more than `fuel` turns. -/
def ussRecursiveDelete (pathMax : Nat) : Nat → UssPath → UfsProg (Option Int)
  | 0, _ => return none
  | fuel + 1, path => do
    if ← ufs (.diropen path) then ussDeleteEntries pathMax fuel path
    else return some (-1)

/-- Its loop over the entries, and the directory itself behind the last. -/
def ussDeleteEntries (pathMax : Nat) : Nat → UssPath → UfsProg (Option Int)
  | 0, _ => return none
  | fuel + 1, path => do
    match ← ufs (.dirread path) with
    | none =>
      let _ ← ufs (.dirclose path)
      let rc ← ufs (.rmdir path)
      return some rc
    | some entry =>
      if isSelfOrParent entry.name then ussDeleteEntries pathMax fuel path
      else
        let full := ussFullPath pathMax path entry.name
        let rc ← (if entry.isDir then ussRecursiveDelete pathMax fuel full
          else ussCode (.remove full) rfl)
        match rc with
        | none => return none
        | some rc =>
          if rc ≠ 0 then
            let _ ← ufs (.dirclose path)
            return some rc
          else ussDeleteEntries pathMax fuel path

end

structure UssDelete where
  path : UssPath
  refused : Option Refusal
  isRecursive : Bool

/-- The answer of a delete; `none` if its walk takes more than `fuel` turns. -/
def ussDeleteHandler (pathMax fuel : Nat) (req : UssDelete) : UfsProg (Option Answer) :=
  match req.refused with
  | some a => return some a.1
  | none => do
    if (← ufs .getUfs) = false then return some ussNoUfs
    else
      let rc ← ufs (.remove req.path)
      if rc = 0 then return some (Answer.plain 204)
      else
        let urc ← ufs .lastRc
        if urc ≠ UFSD_RC_ISDIR then return some (ufsAnswer urc)
        else
          let rc ← (if req.isRecursive then ussRecursiveDelete pathMax fuel req.path
            else ussCode (.rmdir req.path) rfl)
          match rc with
          | none => return none
          | some rc =>
            if rc = 0 then return some (Answer.plain 204)
            else
              let urc ← ufs .lastRc
              return some (ufsAnswer urc)

/-! ## What a request needs -/

inductive UssRequest
  | put (req : UssPut)
  | create (req : UssCreate)
  | delete (req : UssDelete)

def ussHandler (pathMax fuel : Nat) : UssRequest → UfsProg (Option Answer)
  | .put req => do
    let a ← ussPutHandler req
    return some a
  | .create req => do
    let a ← ussCreateHandler req
    return some a
  | .delete req => ussDeleteHandler pathMax fuel req

/-- A call that the request cannot do without reports a failure. -/
def Lost : UfsEvent → Prop
  | ⟨.fopen _ .write, handle⟩ => handle ≠ some UFSD_RC_OK
  | ⟨.fwrite _ body, r⟩ => r.1 ≠ body.length
  | ⟨.fclose _ .write, rc⟩ => rc ≠ 0
  | ⟨.mkdir _, rc⟩ => rc ≠ 0
  | ⟨.remove _, rc⟩ => rc ≠ 0
  | ⟨.rmdir _, rc⟩ => rc ≠ 0
  | ⟨.diropen _, opened⟩ => opened = false
  | _ => False

/-- Open, write and close have succeeded. -/
def UssPut.Done (req : UssPut) (t : List UfsEvent) : Prop :=
  req.utility = none →
    ⟨.fopen req.path .write, some UFSD_RC_OK⟩ ∈ t ∧
      (req.body ≠ [] → ∃ error, ⟨.fwrite req.path req.body, (req.body.length, error)⟩ ∈ t) ∧
      ⟨.fclose req.path .write, (0 : Int)⟩ ∈ t

/-- The object has been created. -/
def UssCreate.Done (req : UssCreate) (t : List UfsEvent) : Prop :=
  if req.isFile then
    ⟨.fopen req.path .write, some UFSD_RC_OK⟩ ∈ t ∧ ⟨.fclose req.path .write, (0 : Int)⟩ ∈ t
  else ⟨.mkdir req.path, (0 : Int)⟩ ∈ t

/-- The object has been removed, and what is in it. A first remove that answers that the path is a
directory is no more than the question what it is. -/
def UssDelete.Done (req : UssDelete) (t : List UfsEvent) : Prop :=
  ∃ t', (t = t' ∨ ∃ rc : Int, t = [⟨.getUfs, true⟩, ⟨.remove req.path, rc⟩,
      ⟨.lastRc, UFSD_RC_ISDIR⟩] ++ t') ∧
    (∀ e ∈ t', ¬ Lost e) ∧
    (⟨.remove req.path, (0 : Int)⟩ ∈ t' ∨ ⟨.rmdir req.path, (0 : Int)⟩ ∈ t')

/-- Every operation the request needed has succeeded. -/
def UssRequest.Done : UssRequest → List UfsEvent → Prop
  | .put req => req.Done
  | .create req => req.Done
  | .delete req => req.Done

/-- The close of the written file fails, and nothing else. -/
def OnlyCloseFails (t : List UfsEvent) : Prop :=
  (∃ e ∈ t, Lost e) ∧ ∀ e ∈ t, Lost e → ∃ path rc, e = ⟨.fclose path .write, rc⟩

/-- The session is asked for a failure that was not recorded. -/
def Unrecorded (t : List UfsEvent) : Prop := ⟨.lastRc, UFSD_RC_OK⟩ ∈ t

/-- What UFS must not do for the answer to be right. -/
def UssRequest.Kept : UssRequest → List UfsEvent → Prop
  | .put _, t => ¬ OnlyCloseFails t
  | .create req, t => ¬ OnlyCloseFails t ∧ (req.isFile = true → ¬ Unrecorded t)
  | .delete _, t => ¬ Unrecorded t

/-- A success is answered only if the request is done. -/
def UssRequest.Truthful (req : UssRequest) (t : List UfsEvent) (r : Option Answer) : Prop :=
  ∀ a ∈ r, a.success = true → req.Done t

/-! ## PUT -/

/-- A call that only asks. -/
def Asks : UfsEvent → Prop
  | ⟨.getUfs, _⟩ => True
  | ⟨.etag _, _⟩ => True
  | ⟨.isDirectory _, _⟩ => True
  | ⟨.setCreatePerm _, _⟩ => True
  | _ => False

theorem Asks.not_lost {e : UfsEvent} (h : Asks e) : ¬ Lost e := by
  obtain ⟨c, a⟩ := e
  cases c <;> first | exact id | exact h.elim

theorem not_onlyCloseFails {t : List UfsEvent} (h : ∀ e ∈ t, ¬ Lost e) : ¬ OnlyCloseFails t :=
  fun ⟨⟨e, he, hl⟩, _⟩ => h e he hl

theorem onlyCloseFails_append {pre t : List UfsEvent} (h : ∀ e ∈ pre, Asks e) :
    OnlyCloseFails (pre ++ t) ↔ OnlyCloseFails t := by
  have hpre : ∀ e ∈ pre, ¬ Lost e := fun e he => (h e he).not_lost
  constructor
  · rintro ⟨⟨e, he, hl⟩, hall⟩
    rcases List.mem_append.mp he with he | he
    · exact absurd hl (hpre e he)
    · exact ⟨⟨e, he, hl⟩, fun e he hl => hall e (List.mem_append_right _ he) hl⟩
  · rintro ⟨⟨e, he, hl⟩, hall⟩
    refine ⟨⟨e, List.mem_append_right _ he, hl⟩, fun e he hl => ?_⟩
    rcases List.mem_append.mp he with he | he
    · exact absurd hl (hpre e he)
    · exact hall e he hl

theorem mem_append_of_asks {pre t : List UfsEvent} (h : ∀ e ∈ pre, Asks e) {e : UfsEvent}
    (he : ¬ Asks e) : e ∈ pre ++ t ↔ e ∈ t := by
  rw [List.mem_append]
  exact ⟨fun hmem => hmem.resolve_left fun hpre => he (h e hpre), .inr⟩

theorem UssPut.done_append {req : UssPut} {pre t : List UfsEvent} (h : ∀ e ∈ pre, Asks e) :
    req.Done (pre ++ t) ↔ req.Done t := by
  have hopen := mem_append_of_asks (t := t) h
    (show ¬ Asks ⟨.fopen req.path .write, some UFSD_RC_OK⟩ from id)
  have hwrite (error : Nat) := mem_append_of_asks (t := t) h
    (show ¬ Asks ⟨.fwrite req.path req.body, (req.body.length, error)⟩ from id)
  have hclose := mem_append_of_asks (t := t) h
    (show ¬ Asks ⟨.fclose req.path .write, (0 : Int)⟩ from id)
  simp only [UssPut.Done, hopen, hwrite, hclose]

/-- An answer that is no success, behind a failure that is not that of a close. -/
theorem UssPut.truthful_of_lost {req : UssPut} {t : List UfsEvent} {a : Answer}
    (ha : ¬ a.success = true) (h : ∃ e ∈ t, Lost e ∧ ∀ path rc, e ≠ ⟨.fclose path .write, rc⟩) :
    (a.success = true → req.Done t) ↔ ¬ OnlyCloseFails t := by
  obtain ⟨e, he, hl, hne⟩ := h
  refine iff_of_true (fun hsuccess => absurd hsuccess ha) fun ⟨_, hall⟩ => ?_
  obtain ⟨path, rc, heq⟩ := hall e he hl
  exact hne path rc heq

theorem ussIfMatch_refuses (req : UssPut) :
    (ussIfMatch req).Every fun t r => (∀ e ∈ t, Asks e) ∧ ∀ a ∈ r, ¬ a.success = true := by
  have hmismatch (header : List Char) (current : Option (List Char)) (isDirectory : Bool) :
      ∀ a ∈ ussCheckIfMatch (some header) current isDirectory, ¬ a.success = true := by
    intro a ha
    unfold ussCheckIfMatch at ha
    dsimp only at ha
    split at ha
    · cases ha
    · split at ha
      · cases ha
      · cases ha
        decide
    · split at ha
      · cases ha
      · cases ha
        decide
  rw [ussIfMatch]
  split
  · exact ⟨nofun, nofun⟩
  · next header _ =>
    simp only [ufs, Prog.every_bind, Prog.every_ask]
    intro current
    cases current with
    | some etag => exact ⟨by simp [Asks], hmismatch header (some etag) false⟩
    | none =>
      intro isDirectory
      exact ⟨by simp [Asks], hmismatch header none isDirectory⟩

/-- An empty body takes no call. -/
def UssPut.Wrote (req : UssPut) (t : List UfsEvent) (written error : Nat) : Prop :=
  (req.body = [] ∧ written = 0 ∧ t = []) ∨
    (req.body ≠ [] ∧ t = [⟨.fwrite req.path req.body, (written, error)⟩])

theorem ussWriteBody_wrote (req : UssPut) :
    (ussWriteBody req).Every fun t r => req.Wrote t r.1 r.2 := by
  rw [ussWriteBody]
  split
  · next hbody => exact .inl ⟨hbody, rfl, rfl⟩
  · next hbody =>
    rw [ufs, Prog.every_ask]
    exact fun r => .inr ⟨hbody, rfl⟩

theorem UssPut.Wrote.lost {req : UssPut} {t : List UfsEvent} {written error : Nat}
    (h : req.Wrote t written error) (hshort : written ≠ req.body.length) :
    ∃ e ∈ t, Lost e ∧ ∀ path rc, e ≠ ⟨.fclose path .write, rc⟩ := by
  rcases h with ⟨hbody, rfl, -⟩ | ⟨-, rfl⟩
  · exact absurd (by simp [hbody]) hshort
  · exact ⟨_, List.mem_cons_self, hshort, nofun⟩

/-- Behind a write that is complete the request is done when the close has succeeded. -/
theorem UssPut.truthful_of_written {req : UssPut} {t after : List UfsEvent} {a : Answer}
    {error : Nat} {rc : Int} (hu : req.utility = none) (ha : a.success = true)
    (h : req.Wrote t req.body.length error) (hafter : ∀ e ∈ after, Asks e) :
    (a.success = true → req.Done (⟨.fopen req.path .write, some UFSD_RC_OK⟩ ::
        (t ++ ⟨.fclose req.path .write, rc⟩ :: after))) ↔
      ¬ OnlyCloseFails (⟨.fopen req.path .write, some UFSD_RC_OK⟩ ::
        (t ++ ⟨.fclose req.path .write, rc⟩ :: after)) := by
  have hdone : req.Done (⟨.fopen req.path .write, some UFSD_RC_OK⟩ ::
      (t ++ ⟨.fclose req.path .write, rc⟩ :: after)) ↔ rc = 0 := by
    have hnot : (⟨.fclose req.path .write, (0 : Int)⟩ : UfsEvent) ∉ after := fun he => hafter _ he
    rcases h with ⟨hbody, -, rfl⟩ | ⟨hbody, rfl⟩
    · simp [UssPut.Done, hu, hbody, hnot, eq_comm]
    · simp [UssPut.Done, hu, hbody, hnot, eq_comm]
  have hlost : OnlyCloseFails (⟨.fopen req.path .write, some UFSD_RC_OK⟩ ::
      (t ++ ⟨.fclose req.path .write, rc⟩ :: after)) ↔ rc ≠ 0 := by
    have hwrote : ∀ e ∈ t, ¬ Lost e := by
      rcases h with ⟨-, -, rfl⟩ | ⟨-, rfl⟩
      · nofun
      · rintro e he hl
        rw [List.mem_singleton.mp he] at hl
        exact hl rfl
    have hmem (e : UfsEvent) (he : e ∈ ⟨.fopen req.path .write, some UFSD_RC_OK⟩ ::
        (t ++ ⟨.fclose req.path .write, rc⟩ :: after)) (hl : Lost e) :
        e = ⟨.fclose req.path .write, rc⟩ := by
      rcases List.mem_cons.mp he with rfl | he
      · exact absurd rfl hl
      · rcases List.mem_append.mp he with he | he
        · exact absurd hl (hwrote e he)
        · exact (List.mem_cons.mp he).resolve_right fun he => (hafter e he).not_lost hl
    constructor
    · rintro ⟨⟨e, he, hl⟩, -⟩
      rw [hmem e he hl] at hl
      exact hl
    · intro hrc
      exact ⟨⟨⟨.fclose req.path .write, rc⟩, by simp, hrc⟩, fun e he hl => ⟨_, _, hmem e he hl⟩⟩
  rw [hdone, hlost]
  simp [ha]

theorem ussStore_truthful (req : UssPut) (hu : req.utility = none) :
    (ussStore req).Every fun t a => (a.success = true → req.Done t) ↔ ¬ OnlyCloseFails t := by
  rw [ussStore]
  simp only [ufs, Prog.every_bind, Prog.every_ask]
  intro handle
  have hrefused {t : List UfsEvent} {a : Answer} (ha : ¬ a.success = true)
      (h : handle ≠ some UFSD_RC_OK) :
      (a.success = true → req.Done (⟨.fopen req.path .write, handle⟩ :: t)) ↔
        ¬ OnlyCloseFails (⟨.fopen req.path .write, handle⟩ :: t) :=
    UssPut.truthful_of_lost ha ⟨_, List.mem_cons_self, h, nofun⟩
  cases handle with
  | none =>
    dsimp only
    rw [ussOpenRc]
    simp only [ufs, Prog.every_bind, Prog.every_ask, Prog.every_ret]
    intro urc
    refine hrefused ?_ nofun
    rw [ufsAnswer_success]
    split
    · decide
    · assumption
  | some error =>
    dsimp only
    split
    · next herror =>
      simp only [Prog.every_bind, Prog.every_ask, Prog.every_ret]
      intro rc
      exact hrefused (by rwa [ufsAnswer_success]) (by simpa using herror)
    · next herror =>
      obtain rfl : error = UFSD_RC_OK := not_not.mp herror
      rw [Prog.every_bind]
      refine (ussWriteBody_wrote req).imp fun t r hwrote => ?_
      obtain ⟨written, error⟩ := r
      dsimp only
      rw [ussWritten]
      simp only [ufs, Prog.every_bind, Prog.every_ask]
      intro rc
      split
      · next hshort =>
        have hlost : ∃ e ∈ ⟨.fopen req.path .write, some UFSD_RC_OK⟩ ::
            (t ++ [⟨.fclose req.path .write, rc⟩]),
            Lost e ∧ ∀ path rc, e ≠ ⟨.fclose path .write, rc⟩ := by
          obtain ⟨e, he, hl⟩ := hwrote.lost hshort
          exact ⟨e, List.mem_cons_of_mem _ (List.mem_append_left _ he), hl⟩
        split
        · next herror =>
          rw [Prog.every_ret]
          exact UssPut.truthful_of_lost (by rwa [ufsAnswer_success]) hlost
        · rw [Prog.every_ret]
          exact UssPut.truthful_of_lost (by decide) hlost
      · next hwritten =>
        obtain rfl : written = req.body.length := not_not.mp hwritten
        split
        · simp only [Prog.every_bind, Prog.every_ask, Prog.every_ret]
          intro etag
          refine UssPut.truthful_of_written hu (by decide) hwrote ?_
          rintro e he
          rw [List.mem_singleton.mp he]
          exact trivial
        · rw [Prog.every_ret]
          exact UssPut.truthful_of_written hu (by decide) hwrote nofun

theorem ussPutHandler_truthful (req : UssPut) :
    (ussPutHandler req).Every fun t a => (a.success = true → req.Done t) ↔ ¬ OnlyCloseFails t := by
  have hnone : ¬ OnlyCloseFails [] := not_onlyCloseFails nofun
  rw [ussPutHandler]
  split
  · next a _ =>
    rw [Prog.every_ret]
    exact iff_of_true (fun h => absurd h (by simp [a.2])) hnone
  · next a _ hu =>
    rw [Prog.every_ret]
    exact iff_of_true (fun _ h => by simp [hu] at h) hnone
  · next hu =>
    simp only [ufs, Prog.every_bind, Prog.every_ask]
    intro answered
    have hasks (t : List UfsEvent) (h : ∀ e ∈ t, Asks e) :
        ∀ e ∈ (⟨.getUfs, answered⟩ :: t : List UfsEvent), Asks e :=
      List.forall_mem_cons.mpr ⟨trivial, h⟩
    split
    · rw [Prog.every_ret]
      exact iff_of_true (fun h => absurd h (by decide))
        (not_onlyCloseFails fun e he => (hasks [] nofun e he).not_lost)
    · rw [Prog.every_bind]
      refine (ussIfMatch_refuses req).imp fun t r h => ?_
      obtain ⟨ht, hr⟩ := h
      split
      · next mismatch =>
        rw [Prog.every_ret]
        exact iff_of_true (fun h => absurd h (hr mismatch rfl))
          (not_onlyCloseFails fun e he => (hasks t ht e (by simpa using he)).not_lost)
      · refine (ussStore_truthful req hu).imp fun t' a h => ?_
        show (a.success = true → req.Done ((⟨.getUfs, answered⟩ :: t) ++ t')) ↔
          ¬ OnlyCloseFails ((⟨.getUfs, answered⟩ :: t) ++ t')
        rwa [UssPut.done_append (hasks t ht), onlyCloseFails_append (hasks t ht)]

/-! ## Create -/

theorem ussCreateFile_truthful (path : UssPath) (oldPerm : Nat) :
    (ussCreateFile path oldPerm).Every fun t a =>
      (a.success = true → ⟨.fopen path .write, some UFSD_RC_OK⟩ ∈ t ∧
        ⟨.fclose path .write, (0 : Int)⟩ ∈ t) ↔ ¬ OnlyCloseFails t ∧ ¬ Unrecorded t := by
  rw [ussCreateFile]
  simp only [ufs, Prog.every_bind, Prog.every_ask]
  intro probe
  cases probe with
  | some found =>
    simp only [Prog.every_bind, Prog.every_ask, Prog.every_ret]
    intro rc perm
    have hexists : ¬ ussExists.success = true := by decide
    simp [hexists, OnlyCloseFails, Unrecorded, Lost]
  | none =>
    simp only [Prog.every_bind, Prog.every_ask]
    intro handle
    cases handle with
    | none =>
      simp only [Prog.every_bind, Prog.every_ask, Prog.every_ret]
      intro urc perm
      simp [ufsAnswer_success, OnlyCloseFails, Unrecorded, Lost, eq_comm (b := urc)]
    | some error =>
      simp only [Prog.every_bind, Prog.every_ask, Prog.every_ret]
      intro rc perm
      split
      · next herror =>
        simp [ufsAnswer_success, herror, OnlyCloseFails, Unrecorded, Lost]
      · next herror =>
        have hcreated : (Answer.plain 201).success = true := by decide
        simp [hcreated, not_not.mp herror, OnlyCloseFails, Unrecorded, Lost, eq_comm (b := rc)]

theorem ussCreateDirectory_truthful (path : UssPath) (oldPerm : Nat) :
    (ussCreateDirectory path oldPerm).Every fun t a =>
      (a.success = true → ⟨.mkdir path, (0 : Int)⟩ ∈ t) ∧ ¬ OnlyCloseFails t := by
  rw [ussCreateDirectory]
  simp only [ufs, Prog.every_bind, Prog.every_ask]
  intro opened
  split
  · simp only [Prog.every_bind, Prog.every_ask, Prog.every_ret]
    intro closed perm
    have hexists : ¬ ussExists.success = true := by decide
    simp [hexists, OnlyCloseFails, Lost]
  · simp only [Prog.every_bind, Prog.every_ask]
    intro rc
    split
    · simp only [Prog.every_bind, Prog.every_ask, Prog.every_ret]
      intro urc perm
      have hrefused : ¬ (ufsAnswer (if urc = UFSD_RC_OK then UFSD_RC_NOFILE else urc)).success =
          true := by
        rw [ufsAnswer_success]
        split
        · decide
        · assumption
      refine ⟨fun h => absurd h hrefused, fun ⟨_, hall⟩ => ?_⟩
      obtain ⟨p, code, heq⟩ := hall ⟨.mkdir path, rc⟩ (by simp) ‹_›
      cases heq
    · next hrc =>
      simp only [Prog.every_bind, Prog.every_ask, Prog.every_ret]
      intro perm
      have hmade : rc = 0 := not_not.mp hrc
      simp [hmade, OnlyCloseFails, Lost]

/-! ## Delete -/

/-- Calls of a walk, by the return code they end with: it does not ask the session, and it is `0`
exactly if none of them has failed. -/
structure Walked (t : List UfsEvent) (r : Option Int) : Prop where
  silent : ¬ Unrecorded t
  kept : r = some 0 → ∀ e ∈ t, ¬ Lost e
  failed : ∀ rc, r = some rc → rc ≠ 0 → ∃ e ∈ t, Lost e

/-- A walk that removes a directory, and the directory is removed at its end. -/
structure Deleted (path : UssPath) (t : List UfsEvent) (r : Option Int) : Prop
    extends Walked t r where
  done : r = some 0 → ⟨.rmdir path, (0 : Int)⟩ ∈ t

theorem Walked.append {t t' : List UfsEvent} {r : Option Int} (h : Walked t (some 0))
    (h' : Walked t' r) : Walked (t ++ t') r where
  silent hmem := (List.mem_append.mp hmem).elim h.silent h'.silent
  kept hr e he := (List.mem_append.mp he).elim (h.kept rfl e) (h'.kept hr e)
  failed rc hr hrc := by
    obtain ⟨e, he, hl⟩ := h'.failed rc hr hrc
    exact ⟨e, List.mem_append_right _ he, hl⟩

theorem Deleted.append {path : UssPath} {t t' : List UfsEvent} {r : Option Int}
    (h : Walked t (some 0)) (h' : Deleted path t' r) : Deleted path (t ++ t') r where
  toWalked := h.append h'.toWalked
  done hr := List.mem_append_right _ (h'.done hr)

/-- A failure ends the walk. -/
theorem Deleted.of_failed {path : UssPath} {t t' : List UfsEvent} {rc : Int} (hrc : rc ≠ 0)
    (h : Walked t (some rc)) (h' : Walked t' (some 0)) : Deleted path (t ++ t') (some rc) where
  silent hmem := (List.mem_append.mp hmem).elim h.silent h'.silent
  kept hr := absurd (Option.some.inj hr) hrc
  failed rc' hr hrc' := by
    obtain ⟨e, he, hl⟩ := h.failed rc' hr hrc'
    exact ⟨e, List.mem_append_left _ he, hl⟩
  done hr := absurd (Option.some.inj hr) hrc

/-- A call whose failure the session is not asked for. -/
theorem walked_of_kept {c : UfsCall} {a : c.Ans} (hl : ¬ Lost ⟨c, a⟩) (hc : c ≠ .lastRc) :
    Walked [⟨c, a⟩] (some 0) where
  silent hmem := hc (congrArg Sigma.fst (List.mem_singleton.mp hmem)).symm
  kept _ e' he' := by rwa [List.mem_singleton.mp he']
  failed _ hr hrc := absurd (Option.some.inj hr).symm hrc

theorem walked_remove (path : UssPath) (rc : Int) : Walked [⟨.remove path, rc⟩] (some rc) :=
  ⟨by simp [Unrecorded], by simp [Lost], fun _ hr hrc => by
    cases hr
    exact ⟨_, List.mem_cons_self, hrc⟩⟩

theorem deleted_rmdir (path : UssPath) (rc : Int) :
    Deleted path [⟨.rmdir path, rc⟩] (some rc) where
  silent := by simp [Unrecorded]
  kept := by simp [Lost]
  failed _ hr hrc := by
    cases hr
    exact ⟨_, List.mem_cons_self, hrc⟩
  done hr := by
    cases hr
    exact List.mem_cons_self

/-- What every walk does, by induction on the fuel. -/
theorem ussRecursiveDelete_deleted (pathMax fuel : Nat) :
    (∀ path, (ussRecursiveDelete pathMax fuel path).Every (Deleted path)) ∧
      ∀ path, (ussDeleteEntries pathMax fuel path).Every (Deleted path) := by
  induction fuel with
  | zero =>
    have hnone (path : UssPath) : Deleted path [] none := ⟨⟨nofun, nofun, nofun⟩, nofun⟩
    exact ⟨fun path => hnone path, fun path => hnone path⟩
  | succ fuel ih =>
    obtain ⟨ihDelete, ihEntries⟩ := ih
    constructor
    · intro path
      rw [ussRecursiveDelete]
      simp only [ufs, Prog.every_bind, Prog.every_ask]
      intro opened
      split
      · next hopened =>
        refine (ihEntries path).imp fun t r h => ?_
        cases hopened
        exact h.append (walked_of_kept (by simp [Lost]) nofun)
      · next hopened =>
        have hfailed : opened = false := by simpa using hopened
        cases hfailed
        exact ⟨⟨by simp [Unrecorded], nofun, fun _ _ _ => ⟨_, List.mem_cons_self, rfl⟩⟩, nofun⟩
    · intro path
      rw [ussDeleteEntries]
      simp only [ufs, Prog.every_bind, Prog.every_ask]
      intro entry
      have hread : Walked [⟨.dirread path, entry⟩] (some 0) := walked_of_kept id nofun
      cases entry with
      | none =>
        simp only [Prog.every_bind, Prog.every_ask, Prog.every_ret]
        intro closed rc
        have hclose : Walked [⟨.dirclose path, closed⟩] (some 0) := walked_of_kept id nofun
        exact ((deleted_rmdir path rc).append hclose).append hread
      | some entry =>
        dsimp only
        split
        · exact (ihEntries path).imp fun t r h => h.append hread
        · have hentry : Prog.Every (if entry.isDir = true then
                ussRecursiveDelete pathMax fuel (ussFullPath pathMax path entry.name)
              else ussCode (.remove (ussFullPath pathMax path entry.name)) rfl) Walked := by
            split
            · exact (ihDelete _).imp fun t r h => h.toWalked
            · exact fun rc => walked_remove _ rc
          simp only [Prog.every_bind]
          refine hentry.imp fun t r h => ?_
          cases r with
          | none =>
            rw [Prog.every_ret, List.append_nil]
            exact ⟨hread.append h, nofun⟩
          | some rc =>
            dsimp only
            split
            · next hrc =>
              simp only [Prog.every_bind, Prog.every_ask, Prog.every_ret]
              intro closed
              have hclose : Walked [⟨.dirclose path, closed⟩] (some 0) := walked_of_kept id nofun
              exact (Deleted.of_failed hrc h hclose).append hread
            · next hrc =>
              obtain rfl : rc = 0 := not_not.mp hrc
              exact (ihEntries path).imp fun t' r h' => (h'.append h).append hread

/-- Behind a remove that has failed, what is done is done by the calls that follow the code. -/
theorem UssDelete.done_iff {req : UssDelete} {rc : Int} {urc : Nat} {t : List UfsEvent}
    (hrc : rc ≠ 0) :
    req.Done (⟨.getUfs, true⟩ :: ⟨.remove req.path, rc⟩ :: ⟨.lastRc, urc⟩ :: t) ↔
      urc = UFSD_RC_ISDIR ∧ (∀ e ∈ t, ¬ Lost e) ∧
        (⟨.remove req.path, (0 : Int)⟩ ∈ t ∨ ⟨.rmdir req.path, (0 : Int)⟩ ∈ t) := by
  constructor
  · rintro ⟨t', rfl | ⟨rc', heq⟩, hkept, hdone⟩
    · exact absurd hrc (hkept ⟨.remove req.path, rc⟩ (by simp))
    · rw [List.cons_append, List.cons_append, List.cons_append, List.nil_append, List.cons.injEq,
        List.cons.injEq, List.cons.injEq] at heq
      obtain ⟨-, -, hcode, rfl⟩ := heq
      exact ⟨eq_of_heq (Sigma.mk.inj hcode).2, hkept, hdone⟩
  · rintro ⟨rfl, hkept, hdone⟩
    exact ⟨t, .inr ⟨rc, rfl⟩, hkept, hdone⟩

/-- The removal of a directory, with the answer that follows its return code. -/
theorem UssDelete.truthful_of_directory {req : UssDelete} {rc : Int} {p : UfsProg (Option Int)}
    (hrc : rc ≠ 0) (hp : p.Every (Deleted req.path)) :
    Prog.Every
      (p >>= fun
        | none => pure none
        | some rc =>
          if rc = 0 then pure (some (Answer.plain 204))
          else ufs .lastRc >>= fun urc => pure (some (ufsAnswer urc)))
      fun t r =>
        (∀ a ∈ r, a.success = true →
          req.Done (⟨.getUfs, true⟩ :: ⟨.remove req.path, rc⟩ :: ⟨.lastRc, UFSD_RC_ISDIR⟩ :: t)) ↔
        ¬ Unrecorded
          (⟨.getUfs, true⟩ :: ⟨.remove req.path, rc⟩ :: ⟨.lastRc, UFSD_RC_ISDIR⟩ :: t) := by
  have hunrecorded (t : List UfsEvent) : Unrecorded
      (⟨.getUfs, true⟩ :: ⟨.remove req.path, rc⟩ :: ⟨.lastRc, UFSD_RC_ISDIR⟩ :: t) ↔
        Unrecorded t := by
    simp [Unrecorded, UFSD_RC_OK, UFSD_RC_ISDIR]
  rw [Prog.every_bind]
  refine hp.imp fun t r h => ?_
  cases r with
  | none =>
    rw [Prog.every_ret, List.append_nil, hunrecorded]
    exact iff_of_true nofun h.silent
  | some code =>
    dsimp only
    split
    · next hcode =>
      subst hcode
      rw [Prog.every_ret, List.append_nil, hunrecorded]
      refine iff_of_true (fun _ _ _ => ?_) h.silent
      exact (UssDelete.done_iff hrc).mpr ⟨rfl, h.kept rfl, .inr (h.done rfl)⟩
    · next hcode =>
      simp only [ufs, Prog.every_bind, Prog.every_ask, Prog.every_ret]
      intro urc
      rw [List.append_nil]
      have hcodes : Unrecorded (t ++ [⟨.lastRc, urc⟩]) ↔ urc = UFSD_RC_OK := by
        rw [Unrecorded, List.mem_append, List.mem_singleton]
        refine ⟨fun hmem => ?_, fun hurc => .inr (by rw [hurc])⟩
        exact (eq_of_heq (Sigma.mk.inj (hmem.resolve_left h.silent)).2).symm
      obtain ⟨e, he, hl⟩ := h.failed code rfl hcode
      rw [hunrecorded, hcodes, ← ufsAnswer_success]
      refine ⟨fun htruth hsuccess => ?_, ?_⟩
      · obtain ⟨-, hkept, -⟩ := (UssDelete.done_iff hrc).mp (htruth _ rfl hsuccess)
        exact hkept e (List.mem_append_left _ he) hl
      · rintro hsuccess a ⟨⟩ ha
        exact absurd ha hsuccess

theorem ussDeleteHandler_truthful (pathMax fuel : Nat) (req : UssDelete) :
    (ussDeleteHandler pathMax fuel req).Every fun t r =>
      (∀ a ∈ r, a.success = true → req.Done t) ↔ ¬ Unrecorded t := by
  rw [ussDeleteHandler]
  split
  · next a _ =>
    rw [Prog.every_ret]
    refine iff_of_true ?_ nofun
    rintro b ⟨⟩ hb
    exact absurd hb (by simp [a.2])
  · simp only [ufs, Prog.every_bind, Prog.every_ask]
    intro answered
    split
    · rw [Prog.every_ret]
      refine iff_of_true ?_ (by simp [Unrecorded])
      rintro b ⟨⟩ hb
      exact absurd hb (by decide)
    · next hanswered =>
      simp only [Prog.every_bind, Prog.every_ask]
      intro rc
      obtain rfl : answered = true := by simpa using hanswered
      split
      · next hrc =>
        rw [Prog.every_ret]
        refine iff_of_true (fun _ _ _ => ⟨_, .inl rfl, ?_, .inl ?_⟩) (by simp [Unrecorded])
        · simp [Lost, hrc]
        · simp [hrc]
      · next hrc =>
        simp only [Prog.every_bind, Prog.every_ask]
        intro urc
        split
        · next hurc =>
          rw [Prog.every_ret]
          have hcodes : Unrecorded
              [⟨.getUfs, true⟩, ⟨.remove req.path, rc⟩, ⟨.lastRc, urc⟩] ↔ urc = UFSD_RC_OK := by
            simp [Unrecorded, eq_comm]
          have hdone : ¬ req.Done [⟨.getUfs, true⟩, ⟨.remove req.path, rc⟩, ⟨.lastRc, urc⟩] :=
            fun h => hurc ((UssDelete.done_iff hrc).mp h).1
          refine (Iff.trans ?_ (not_congr hcodes).symm)
          rw [← ufsAnswer_success]
          refine ⟨fun htruth hsuccess => hdone (htruth _ rfl hsuccess), ?_⟩
          rintro hsuccess a ⟨⟩ ha
          exact absurd ha hsuccess
        · next hurc =>
          obtain rfl : urc = UFSD_RC_ISDIR := not_not.mp hurc
          refine UssDelete.truthful_of_directory hrc ?_
          split
          · exact (ussRecursiveDelete_deleted pathMax fuel).1 req.path
          · exact fun rc => deleted_rmdir req.path rc

/-! ## The requests -/

theorem ussCreateHandler_truthful (req : UssCreate) :
    (ussCreateHandler req).Every fun t a =>
      (a.success = true → req.Done t) ↔ UssRequest.Kept (.create req) t := by
  rw [ussCreateHandler]
  split
  · next a _ =>
    rw [Prog.every_ret]
    exact iff_of_true (fun h => absurd h (by simp [a.2]))
      (And.intro (not_onlyCloseFails nofun) fun _ => nofun)
  · simp only [ufs, Prog.every_bind, Prog.every_ask]
    intro answered
    split
    · simp only [Prog.every_bind, Prog.every_ask]
      intro oldPerm
      have hasks : ∀ e ∈ ([⟨.getUfs, answered⟩] ++ [⟨.setCreatePerm req.perm, oldPerm⟩] :
          List UfsEvent), Asks e := by
        simp [Asks]
      have hunrecorded (t : List UfsEvent) : Unrecorded ([⟨.getUfs, answered⟩] ++
          [⟨.setCreatePerm req.perm, oldPerm⟩] ++ t) ↔ Unrecorded t :=
        mem_append_of_asks hasks id
      split
      · next hfile =>
        refine (ussCreateFile_truthful req.path oldPerm).imp fun t a h => ?_
        rw [← List.append_assoc, UssRequest.Kept]
        have hopen := mem_append_of_asks (t := t) hasks
          (show ¬ Asks ⟨.fopen req.path .write, some UFSD_RC_OK⟩ from id)
        have hclose := mem_append_of_asks (t := t) hasks
          (show ¬ Asks ⟨.fclose req.path .write, (0 : Int)⟩ from id)
        rw [UssCreate.Done, if_pos hfile, onlyCloseFails_append hasks, hunrecorded, hopen, hclose, h]
        simp [hfile]
      · next hfile =>
        refine (ussCreateDirectory_truthful req.path oldPerm).imp fun t a h => ?_
        rw [← List.append_assoc, UssRequest.Kept]
        have hmkdir := mem_append_of_asks (t := t) hasks
          (show ¬ Asks ⟨.mkdir req.path, (0 : Int)⟩ from id)
        rw [UssCreate.Done, if_neg hfile, onlyCloseFails_append hasks, hmkdir]
        exact iff_of_true h.1 ⟨h.2, fun hisFile => absurd hisFile hfile⟩
    · rw [Prog.every_ret]
      have hasks : ∀ e ∈ ([⟨.getUfs, answered⟩] : List UfsEvent), Asks e := by simp [Asks]
      exact iff_of_true (fun h => absurd h (by decide))
        (And.intro (not_onlyCloseFails fun e he => (hasks e he).not_lost)
          fun _ => by simp [Unrecorded])

/-- In every run of a request, whatever UFS answers, a success is answered only to a request that is
done, unless the close of the written file is the failure, or the code of a failure was not
recorded. -/
theorem ussHandler_truthful {pathMax fuel : Nat} {req : UssRequest} {t : List UfsEvent}
    {r : Option Answer} (h : Prog.Run (ussHandler pathMax fuel req) t r) :
    req.Truthful t r ↔ req.Kept t := by
  have hsome {a : Answer} {t : List UfsEvent} :
      req.Truthful t (some a) ↔ (a.success = true → req.Done t) := by
    simp [UssRequest.Truthful]
  revert t r
  rw [← Prog.every_iff]
  cases req with
  | put req =>
    rw [ussHandler, Prog.every_bind]
    refine (ussPutHandler_truthful req).imp fun t a h => ?_
    rw [Prog.every_ret, List.append_nil, hsome]
    exact h
  | create req =>
    rw [ussHandler, Prog.every_bind]
    refine (ussCreateHandler_truthful req).imp fun t a h => ?_
    rw [Prog.every_ret, List.append_nil, hsome]
    exact h
  | delete req => exact ussDeleteHandler_truthful pathMax fuel req

def oneBytePut : UssPut := ⟨[0x61, 0x81], none, none, [0xC1], none, false⟩

/-- The write has been taken, and the close that flushes it fails. -/
def closeFails : List UfsEvent :=
  [⟨.getUfs, true⟩, ⟨.fopen [0x61, 0x81] .write, some UFSD_RC_OK⟩,
    ⟨.fwrite [0x61, 0x81] [0xC1], (1, UFSD_RC_OK)⟩, ⟨.fclose [0x61, 0x81] .write, (-1 : Int)⟩]

theorem closeFails_run :
    Prog.Run (ussHandler 256 0 (.put oneBytePut)) closeFails (some (Answer.plain 204)) :=
  .call (.call (.call (.call .ret)))

theorem closeFails_onlyCloseFails : OnlyCloseFails closeFails := by
  refine ⟨⟨⟨.fclose [0x61, 0x81] .write, (-1 : Int)⟩, by simp [closeFails], by simp [Lost]⟩, ?_⟩
  intro e he hl
  simp only [closeFails, List.mem_cons, List.not_mem_nil, or_false] at he
  rcases he with rfl | rfl | rfl | rfl
  · exact hl.elim
  · exact absurd rfl hl
  · exact absurd rfl hl
  · exact ⟨_, _, rfl⟩

/-- The handler does not look at what the close returns. -/
theorem put_answers_lost_close :
    Prog.Run (ussHandler 256 0 (.put oneBytePut)) closeFails (some (Answer.plain 204)) ∧
      ¬ UssRequest.Truthful (.put oneBytePut) closeFails (some (Answer.plain 204)) := by
  refine ⟨closeFails_run, fun h => ?_⟩
  obtain ⟨-, -, hclose⟩ := h _ rfl (by decide) rfl
  simp [closeFails, oneBytePut] at hclose

theorem ussHandler_truthful_put :
    Prog.Run (ussHandler 256 0 (.put oneBytePut)) closeFails (some (Answer.plain 204)) ∧
      ¬ UssRequest.Truthful (.put oneBytePut) closeFails (some (Answer.plain 204)) :=
  ⟨closeFails_run, fun h => (ussHandler_truthful closeFails_run).mp h closeFails_onlyCloseFails⟩

end Mvsmf
