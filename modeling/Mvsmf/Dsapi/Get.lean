import Mvsmf.Common.Answer
import Mvsmf.Dsapi.Records
import Mathlib

/-!
# `read_and_send_dataset` and `dataset_etag`

A data set open for input answers each read with some bytes; what `fread` and `fgets` give is a
parameter, a block of at most the length asked for or a line. The sender and the hash pass are two
loops over the same reads. They take their read length each from the DCB: the hash pass asks for
BLKSIZE bytes where RECFM=U leaves the LRECL 0, and the sender asks for none.
-/

namespace Mvsmf

/-! ## The file -/

/-- A data set open for input: the DCB in FILE, the blocks that `fread`s of a length give up to the
first that gives none, the strings that `fgets`s with a buffer give, and whether `ferror` is set
behind them. -/
structure DsFile where
  dcb : Dcb
  reads : Nat → List (List UInt8)
  lines : Nat → List (List UInt8)
  ferror : Bool
  lrecl_undefined : dcb.isUndefined = true → dcb.lrecl = 0
  reads_fit : ∀ n, ∀ b ∈ reads n, b ≠ [] ∧ b.length ≤ n

theorem DsFile.reads_zero (f : DsFile) : f.reads 0 = [] := by
  cases h : f.reads 0 with
  | nil => rfl
  | cons b bs =>
    obtain ⟨hne, hle⟩ := f.reads_fit 0 b (by rw [h]; exact List.mem_cons_self)
    exact absurd (List.length_pos_of_ne_nil hne) (Nat.not_lt.mpr hle)

/-! ## Sending -/

/-- What a handler has for its answer: whether a buffer of a size can be had, whether the headers
went out, and whether the `send_all` with a number does. -/
structure Session where
  calloc : Nat → Bool
  headers : Bool
  sends : Nat → Bool

/-- A session in which nothing fails. -/
def Session.sound : Session := ⟨fun _ => true, true, fun _ => true⟩

/-- The `send_all`s for one record, up to the first that fails; one of no bytes cannot. -/
def Session.sendAll (x : Session) (count : Nat) : List (List UInt8) → List (List UInt8) × Bool
  | [] => ([], true)
  | b :: bs =>
    if b = [] ∨ x.sends count then
      let (sent, ok) := x.sendAll (count + 1) bs
      (b :: sent, ok)
    else ([], false)

/-- The loop over the records: `frame` is what is sent for each, -1 no limit. -/
def Session.sendRecords (x : Session) (frame : List UInt8 → List (List UInt8)) (maxRecords : Int) :
    Nat → Nat → List (List UInt8) → List (List UInt8) × Bool
  | _, _, [] => ([], true)
  | sends, count, n :: ns =>
    if maxRecords ≥ 0 ∧ (count : Int) ≥ maxRecords then ([], true)
    else
      match x.sendAll sends (frame n) with
      | (sent, false) => (sent, false)
      | (sent, true) =>
        let (sent', ok) := x.sendRecords frame maxRecords (sends + sent.length) (count + 1) ns
        (sent ++ sent', ok)

/-! ## The frames -/

/-- The compiler's newline and the blank a record is padded with. -/
def NATIVE_NL : UInt8 := 0x15
def NATIVE_BLANK : UInt8 := 0x40

/-- The bytes in front of the terminating zero. -/
def strlen (buffer : List UInt8) : List UInt8 := buffer.takeWhile (· ≠ 0)

/-- The test for fixed-length records. -/
def isFixed (recfm : UInt8) : Bool :=
  !decide (recfm &&& RECFM_TYPE = RECFM_U) && decide (recfm &&& VARIABLE = 0)

/-- A line without its newline and the blanks in front of it. -/
def trimmed (line : List UInt8) : List UInt8 :=
  (if line.getLast? = some NATIVE_NL then line.dropLast else line).rdropWhile (· = NATIVE_BLANK)

def textLine (recfm : UInt8) (cp : HttpCp) (buffer : List UInt8) : List UInt8 :=
  let line := strlen buffer
  (if isFixed recfm ∧ line ≠ [] then trimmed line ++ [NATIVE_NL] else line).map cp.etoa

/-- The length in front of a record, big-endian. -/
def lenPrefix (n : Nat) : List UInt8 :=
  [UInt8.ofNat (n / 2 ^ 24), UInt8.ofNat (n / 2 ^ 16), UInt8.ofNat (n / 2 ^ 8), UInt8.ofNat n]

/-! ## The two loops -/

def REASON_RECORD_MODE_RECFM_V : Int := 12

/-- What a read comes to: an answer instead of the data, or the blocks sent and whether the
response was aborted behind them. -/
structure GetOut where
  answer : Option Refusal
  sent : List (List UInt8)
  aborted : Bool
  deriving DecidableEq

def readAndSendDataset (x : Session) (fp : DsFile) (dataType : DataType) (cp : HttpCp)
    (maxRecords : Int) : GetOut :=
  let lrecl := fp.dcb.lrecl
  if dataType = .record ∧ fp.dcb.recfm &&& RECFM_TYPE = RECFM_V then
    ⟨some ⟨⟨Answer.HTTP_STATUS_BAD_REQUEST, Answer.CATEGORY_SERVICE, Answer.RC_ERROR,
      REASON_RECORD_MODE_RECFM_V, "Record mode (X-IBM-Data-Type: record) is not supported for " ++
        "RECFM=V data sets; use X-IBM-Data-Type: binary or text", []⟩, rfl⟩, [], false⟩
  else if x.calloc (lrecl + 2) = false then
    ⟨some ⟨handleError ERR_MEMORY "Memory allocation failed", handleError_success _ _⟩, [], false⟩
  else if x.headers = false then ⟨none, [], false⟩
  else
    let (sent, ok) :=
      match dataType with
      | .text =>
        x.sendRecords (fun line => [textLine fp.dcb.recfm cp line]) (-1) 0 0 (fp.lines (lrecl + 2))
      | .binary => x.sendRecords (fun n => [n]) maxRecords 0 0 (fp.reads lrecl)
      | .record => x.sendRecords (fun n => [lenPrefix n.length, n]) maxRecords 0 0 (fp.reads lrecl)
    ⟨none, sent, !ok || fp.ferror⟩

/-- The blocks that go into `etag_update`, one after the other. -/
def hashRecords (maxRecords : Int) : Nat → List (List UInt8) → List (List UInt8)
  | _, [] => []
  | count, n :: ns =>
    if maxRecords ≥ 0 ∧ (count : Int) ≥ maxRecords then []
    else n :: hashRecords maxRecords (count + 1) ns

/-- The blocks the stamp is computed over; `none` where there is no stamp. -/
def datasetEtag (calloc : Nat → Bool) (fp : Option DsFile) (maxRecords : Int) :
    Option (List (List UInt8)) :=
  match fp with
  | none => none
  | some fp =>
    let effLrecl := fp.dcb.effLrecl
    if effLrecl = 0 then none
    else if calloc effLrecl = false then none
    else
      let hashed := hashRecords maxRecords 0 (fp.reads effLrecl)
      if fp.ferror then none else some hashed

/-! ## What the loops come to -/

/-- The records within a limit. -/
def limited (maxRecords : Int) (ns : List (List UInt8)) : List (List UInt8) :=
  if maxRecords ≥ 0 then ns.take maxRecords.toNat else ns

theorem limited_eq (maxRecords : Int) (ns : List (List UInt8)) : ∀ count : Nat,
    hashRecords maxRecords count ns =
      if maxRecords ≥ 0 then ns.take (maxRecords.toNat - count) else ns := by
  induction ns with
  | nil =>
    intro count
    rw [List.take_nil, ite_self]
    rfl
  | cons n ns ih =>
    intro count
    rw [hashRecords]
    by_cases h0 : maxRecords ≥ 0
    · rw [if_pos h0]
      by_cases hc : (count : Int) ≥ maxRecords
      · rw [if_pos ⟨h0, hc⟩, show maxRecords.toNat - count = 0 by omega, List.take_zero]
      · rw [if_neg (fun h => hc h.2), ih, if_pos h0,
          show maxRecords.toNat - count = maxRecords.toNat - (count + 1) + 1 by omega,
          List.take_succ_cons]
    · rw [if_neg (fun h => h0 h.1), if_neg h0, ih, if_neg h0]

theorem hashRecords_eq (maxRecords : Int) (ns : List (List UInt8)) :
    hashRecords maxRecords 0 ns = limited maxRecords ns := limited_eq maxRecords ns 0

theorem sendAll_sound (count : Nat) (bs : List (List UInt8)) :
    Session.sound.sendAll count bs = (bs, true) := by
  induction bs generalizing count with
  | nil => rfl
  | cons b bs ih =>
    rw [Session.sendAll, ih, if_pos (.inr rfl)]

/-- A session in which nothing fails is sent the frames of the records within the limit. -/
theorem sendRecords_sound (frame : List UInt8 → List (List UInt8)) (maxRecords : Int)
    (ns : List (List UInt8)) : ∀ sends count : Nat,
    Session.sound.sendRecords frame maxRecords sends count ns =
      ((hashRecords maxRecords count ns).flatMap frame, true) := by
  induction ns with
  | nil => exact fun _ _ => rfl
  | cons n ns ih =>
    intro sends count
    rw [Session.sendRecords, hashRecords]
    split
    · rfl
    · rw [sendAll_sound]
      simp only [ih, List.flatMap_cons]

/-- What a client is sent of a data set no read of which fails. -/
theorem readAndSendDataset_binary (f : DsFile) (cp : HttpCp) (maxRecords : Int)
    (hf : f.ferror = false) : readAndSendDataset .sound f .binary cp maxRecords =
      ⟨none, limited maxRecords (f.reads f.dcb.lrecl), false⟩ := by
  unfold readAndSendDataset
  simp only [sendRecords_sound, hashRecords_eq, hf]
  rw [List.flatMap_singleton']
  rfl

theorem readAndSendDataset_text (f : DsFile) (cp : HttpCp) (maxRecords : Int)
    (hf : f.ferror = false) : readAndSendDataset .sound f .text cp maxRecords =
      ⟨none, (f.lines (f.dcb.lrecl + 2)).map (textLine f.dcb.recfm cp), false⟩ := by
  unfold readAndSendDataset
  simp only [sendRecords_sound, hashRecords_eq, hf]
  rw [← List.map_eq_flatMap]
  rfl

/-! ## The stamp and the client -/

/-- Given one record count, the blocks the stamp covers are the blocks a binary read sends. -/
def EtagCovers (f : DsFile) (maxRecords : Int) : Prop :=
  f.ferror = false → ∀ cp,
    (datasetEtag (fun _ => true) (some f) maxRecords).getD [] =
      (readAndSendDataset .sound f .binary cp maxRecords).sent

theorem limited_eq_nil {maxRecords : Int} {ns : List (List UInt8)} :
    limited maxRecords ns = [] ↔ maxRecords = 0 ∨ ns = [] := by
  unfold limited
  split
  · rw [List.take_eq_nil_iff]
    exact or_congr_left (by omega)
  · exact ⟨.inr, fun h => h.resolve_left (by omega)⟩

/-- For RECFM=U the stamp covers the content and the client is sent nothing. -/
theorem etagCovers_iff (f : DsFile) (maxRecords : Int) : EtagCovers f maxRecords ↔
    (f.ferror = false → f.dcb.isUndefined = true →
      f.dcb.blksize = 0 ∨ maxRecords = 0 ∨ f.reads f.dcb.blksize = []) := by
  unfold EtagCovers
  refine forall_congr' fun hf => ?_
  have hstamp : (datasetEtag (fun _ => true) (some f) maxRecords).getD [] =
      limited maxRecords (f.reads f.dcb.effLrecl) := by
    unfold datasetEtag
    simp only [Bool.true_eq_false, if_false, hf, Bool.false_eq_true]
    split
    · next h0 =>
      rw [h0, f.reads_zero]
      exact (limited_eq_nil.mpr (.inr rfl)).symm
    · exact hashRecords_eq maxRecords _
  simp only [hstamp, readAndSendDataset_binary f _ maxRecords hf]
  by_cases hu : f.dcb.isUndefined = true
  · have heff : f.dcb.effLrecl = f.dcb.blksize := if_pos hu
    rw [heff, f.lrecl_undefined hu, f.reads_zero, limited_eq_nil.mpr (.inr rfl)]
    constructor
    · intro h _
      rcases limited_eq_nil.mp (h .cp037) with h0 | h0
      · exact .inr (.inl h0)
      · exact .inr (.inr h0)
    · intro h _
      rcases h hu with h0 | h0 | h0
      · rw [h0, f.reads_zero]
        exact limited_eq_nil.mpr (.inr rfl)
      · exact limited_eq_nil.mpr (.inl h0)
      · exact limited_eq_nil.mpr (.inr h0)
  · have heff : f.dcb.effLrecl = f.dcb.lrecl := if_neg hu
    rw [heff]
    exact iff_of_true (fun _ => rfl) fun h => absurd h hu

/-- Four bytes in a data set of RECFM=U. -/
def undefinedFile : DsFile where
  dcb := ⟨0xC0, 0, 4⟩
  reads n := if n = 4 then [[1, 2, 3, 4]] else []
  lines _ := []
  ferror := false
  lrecl_undefined _ := rfl
  reads_fit n b hb := by
    split at hb
    · next h =>
      cases List.mem_singleton.mp hb
      exact ⟨by decide, by rw [h]; decide⟩
    · cases hb

/-- They are in the stamp, and the client is not sent them. -/
theorem etag_covers_unsent : ¬ EtagCovers undefinedFile (-1) := by
  intro h
  exact absurd (h rfl .cp037) (by decide +kernel)

end Mvsmf
